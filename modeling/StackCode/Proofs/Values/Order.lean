import StackCode.Proofs.Values.Gaps
import StackCode.Proofs.Values.Spine

/-!
# Control keeps the order of fixed instructions

Where a merge is bypassed, each way of control through it is replaced by a direct
edge.  So the cleanup keeps the paths of control between instructions, and in the
graph that is built they say which fixed instruction can be the next one.
-/

namespace StackCode.ValueGraph

open Site

variable {before after graph : ValueGraph} {code : Sequence} {supplies : Nat → Nat → Nat → Prop}

/-- Control comes from no phi. -/
def Ordered (graph : ValueGraph) : Prop :=
  ∀ source target, graph.Controls source target → graph.kindOf? source ≠ some .phi

/-- A path stays a path where edges of control and merges stay. -/
theorem ControlPath.mono {source target : Nat}
    (controls : ∀ source target, before.Controls source target → after.Controls source target)
    (merges : ∀ id, before.kindOf? id = some .merge → after.kindOf? id = some .merge)
    (path : before.ControlPath source target) : after.ControlPath source target := by
  induction path with
  | edge controlled => exact .edge (controls _ _ controlled)
  | through _ known controlled ih => exact .through ih (merges _ known) (controls _ _ controlled)

/-- Control has come from the source to a node at which no instruction stops it. -/
def Stands (graph : ValueGraph) (source id : Nat) : Prop :=
  id = source ∨ graph.kindOf? id = some .merge ∧ graph.ControlPath source id

theorem Stands.path {source last target : Nat} (stands : graph.Stands source last)
    (controls : graph.Controls last target) : graph.ControlPath source target := by
  rcases stands with rfl | ⟨known, path⟩
  · exact .edge controls
  · exact .through path known controls

/-! ## Phis -/

section Phi

variable {phi producer : Nat} (serves : Serves code supplies before) (ordered : before.Ordered)
  (sole : before.Sole phi producer)
  (rewires : Rewires before after phi (before.redirected phi producer))
include serves ordered sole rewires

/-- Control is the same without a phi. -/
theorem controls_bypassed_phi {source target : Nat} :
    after.Controls source target ↔ before.Controls source target := by
  unfold Controls
  rw [rewires.mem_insOf_iff]
  constructor
  · rintro ⟨-, -, kept | ⟨made, -, -⟩⟩
    · exact kept
    · obtain ⟨out, given, -, same⟩ := mem_redirected.mp made
      obtain ⟨from_phi, incoming⟩ := mem_insOf_of_mem_outsOf serves given
      obtain ⟨-, -, kind⟩ := Edge.mk.inj same
      have controls : before.Controls phi out.target := by
        rw [Controls, kind, ← from_phi]
        exact incoming
      exact absurd sole.known (ordered _ _ controls)
  · intro controls
    refine ⟨?_, ?_, .inl controls⟩
    · rintro rfl
      exact serves.fits _ _ controls sole.known
    · rintro rfl
      exact ordered _ _ controls sole.known

theorem paths_bypassed_phi {source target : Nat} :
    after.ControlPath source target ↔ before.ControlPath source target := by
  have controls := @controls_bypassed_phi _ _ _ _ _ _ serves ordered sole rewires
  constructor
  · refine ControlPath.mono (fun _ _ => controls.mp) fun id known => ?_
    rw [rewires.kinds] at known
    split at known
    · cases known
    · exact known
  · refine ControlPath.mono (fun _ _ => controls.mpr) fun id known => ?_
    rwa [rewires.kindOf?_eq]
    rintro rfl
    rw [sole.known] at known
    cases known

theorem Ordered.bypassed_phi : after.Ordered := by
  intro source target controls
  have apart : source ≠ phi := (rewires.mem_insOf_iff.mp controls).2.1
  rw [rewires.kindOf?_eq apart]
  exact ordered _ _ ((controls_bypassed_phi serves ordered sole rewires).mp controls)

end Phi

/-! ## Merges -/

/-- Control that led to the merge and on from it leads past it, and nothing else changes. -/
structure Passes (before after : ValueGraph) (merge : Nat) : Prop where
  known : before.kindOf? merge = some .merge
  kinds : ∀ id, id ≠ merge → after.kindOf? id = before.kindOf? id
  controls : ∀ source target, after.Controls source target ↔ source ≠ merge ∧ target ≠ merge ∧
    (before.Controls source target ∨
      source ≠ target ∧ before.Controls source merge ∧ before.Controls merge target)

/-- A merge without phis is bypassed by control only. -/
theorem Serves.passes (serves : Serves code supplies before) {slot : Nat} {node : Node}
    (stored : before.nodeAt? slot = some node) (known : before.kindOf? node.id = some .merge)
    (free : ∀ edge ∈ before.insOf node.id, edge.kind ≠ .info)
    (rewires : Rewires before after node.id (throughEdges node)) :
    Passes before after node.id := by
  refine ⟨known, fun id apart => rewires.kindOf?_eq apart, fun source target => ?_⟩
  have incoming (edge : Edge) (listed : edge ∈ before.insOf node.id) :
      edge = ⟨edge.source, node.id, .control⟩ := by
    have target := (serves.sound.incoming _ edge listed).1
    have fits := serves.fits _ edge listed
    have other := free edge listed
    obtain ⟨source, target', kind⟩ := edge
    obtain rfl : target' = node.id := target
    cases kind with
    | control => rfl
    | info => exact absurd rfl other
    | data label =>
        unfold Fits at fits
        cases label <;> simp [known] at fits
  unfold Controls
  rw [rewires.mem_insOf_iff, serves.mem_throughEdges stored]
  constructor
  · rintro ⟨target_ne, source_ne, kept | ⟨⟨-, ⟨edge, listed, same⟩, reaches⟩, apart, -⟩⟩
    · exact ⟨source_ne, target_ne, .inl kept⟩
    · refine ⟨source_ne, target_ne, .inr ⟨apart, ?_, reaches⟩⟩
      rw [incoming edge listed, same] at listed
      exact listed
  · rintro ⟨source_ne, target_ne, kept | ⟨apart, comes, goes⟩⟩
    · exact ⟨target_ne, source_ne, .inl kept⟩
    · exact ⟨target_ne, source_ne, .inr ⟨⟨rfl, ⟨_, comes, rfl⟩, goes⟩, apart, rfl⟩⟩

namespace Passes

variable {merge : Nat} (passes : Passes before after merge)
include passes

theorem merge_iff {id : Nat} (apart : id ≠ merge) :
    after.kindOf? id = some .merge ↔ before.kindOf? id = some .merge := by
  rw [passes.kinds id apart]

/-- An edge that leads past the merge was a path through it. -/
theorem path_of_path {source target : Nat} (path : after.ControlPath source target) :
    before.ControlPath source target := by
  induction path with
  | edge controls =>
      obtain ⟨-, -, kept | ⟨-, comes, goes⟩⟩ := (passes.controls _ _).mp controls
      · exact .edge kept
      · exact .through (.edge comes) passes.known goes
  | through _ known controls ih =>
      obtain ⟨source_ne, -, kept | ⟨-, comes, goes⟩⟩ := (passes.controls _ _).mp controls
      · exact .through ih ((passes.merge_iff source_ne).mp known) kept
      · have through := ih.through ((passes.merge_iff source_ne).mp known) comes
        exact through.through passes.known goes

/-- From a node that is left control goes on as it did, unless it went to the merge. -/
theorem path_or_here {source last target : Nat} (away : last ≠ merge)
    (stands : after.Stands source last) (controls : before.Controls last target) :
    (target ≠ merge → after.ControlPath source target) ∧
      (target = merge → ∃ last, last ≠ merge ∧ before.Controls last merge ∧
        after.Stands source last) := by
  refine ⟨fun apart => ?_, ?_⟩
  · exact stands.path ((passes.controls _ _).mpr ⟨away, apart, .inl controls⟩)
  · rintro rfl
    exact ⟨last, away, controls, stands⟩

/-- Control gets to where it got, or to what was before the merge if it got there. -/
theorem path_or_before {source target : Nat} (start : before.kindOf? source ≠ some .merge)
    (proper : ¬ before.Controls merge merge) (path : before.ControlPath source target) :
    (target ≠ merge → target = source ∨ after.ControlPath source target) ∧
      (target = merge → ∃ last, last ≠ merge ∧ before.Controls last merge ∧
        after.Stands source last) := by
  induction path with
  | edge controls =>
      have away : source ≠ merge := by
        rintro rfl
        exact start passes.known
      obtain ⟨other, same⟩ := passes.path_or_here away (.inl rfl) controls
      exact ⟨fun apart => .inr (other apart), same⟩
  | @through middle target _ known controls ih =>
      by_cases here : middle = merge
      · subst here
        obtain ⟨last, away, comes, stands⟩ := ih.2 rfl
        refine ⟨fun apart => ?_, ?_⟩
        · by_cases same : last = target
          · subst same
            exact stands.imp id And.right
          · exact .inr (stands.path ((passes.controls _ _).mpr
              ⟨away, apart, .inr ⟨same, comes, controls⟩⟩))
        · rintro rfl
          exact absurd controls proper
      · have path : after.ControlPath source middle := by
          refine (ih.1 here).resolve_left ?_
          rintro rfl
          exact start known
        obtain ⟨other, same⟩ :=
          passes.path_or_here here (.inr ⟨(passes.merge_iff here).mpr known, path⟩) controls
        exact ⟨fun apart => .inr (other apart), same⟩

/-- The paths between other nodes are the same past the merge as through it. -/
theorem path_iff {source target : Nat} (start : before.kindOf? source ≠ some .merge)
    (finish : before.kindOf? target ≠ some .merge) (apart : source ≠ target)
    (proper : ¬ before.Controls merge merge) :
    after.ControlPath source target ↔ before.ControlPath source target := by
  refine ⟨passes.path_of_path, fun path => ?_⟩
  have away : target ≠ merge := by
    rintro rfl
    exact finish passes.known
  exact ((passes.path_or_before start proper path).1 away).resolve_left apart.symm

theorem ordered (ordered : before.Ordered) : after.Ordered := by
  intro source target controls
  obtain ⟨away, -, kept | ⟨-, comes, -⟩⟩ := (passes.controls _ _).mp controls
  · rw [passes.kinds source away]
    exact ordered _ _ kept
  · rw [passes.kinds source away]
    exact ordered _ _ comes

end Passes

/-! ## All steps -/

/-- The paths of control between the instructions of the code are as some relation says. -/
structure Steers (code : Sequence) (supplies : Nat → Nat → Nat → Prop)
    (follows : Nat → Nat → Prop) (graph : ValueGraph) : Prop where
  serves : Serves code supplies graph
  ordered : graph.Ordered
  path_iff : ∀ first second, first < code.length → second < code.length → first ≠ second →
    (graph.ControlPath first second ↔ follows first second)

variable {follows : Nat → Nat → Prop}

/-- A bypass changes no path between instructions. -/
theorem Steers.bypass? (steers : Steers code supplies follows graph) {slot : Nat} {node : Node}
    (stored : graph.nodeAt? slot = some node) (done : graph.bypass? node = some after) :
    Steers code supplies follows after := by
  have serves := steers.serves
  rcases serves.bypass?_cases stored done with ⟨producer, sole, rewires⟩ | ⟨merge, free, rewires⟩
  · refine ⟨serves.bypass? stored done, steers.ordered.bypassed_phi serves sole rewires, ?_⟩
    intro first second low high apart
    rw [paths_bypassed_phi serves steers.ordered sole rewires]
    exact steers.path_iff first second low high apart
  · have passes := serves.passes stored merge free rewires
    refine ⟨serves.bypass? stored done, passes.ordered steers.ordered, ?_⟩
    intro first second low high apart
    obtain ⟨_, start⟩ := serves.kindOf?_of_lt low
    obtain ⟨_, finish⟩ := serves.kindOf?_of_lt high
    rw [passes.path_iff (by simp [start]) (by simp [finish]) apart
      fun controls => (serves.sound.incoming _ _ controls).2 rfl]
    exact steers.path_iff first second low high apart

theorem Steers.cleanup (steers : Steers code supplies follows graph) :
    Steers code supplies follows graph.cleanup.2 :=
  cleanup_keeps (fun steers stored done => steers.bypass? stored done) steers

/-! ## The graph that is built -/

section Accepted

variable {flow : FlowGraph} {bound : Nat} (padded : flow.PadsBlocks (.ofCode code))
  (holds : graph.Holds flow bound (allNodes flow) (allEdges flow))
include padded holds

theorem ordered_of_holds : graph.Ordered := by
  have acts {number id : Nat} {site : Site} (found : (sites flow)[number]? = some site)
      (listed : id ∈ site.track flow) : graph.kindOf? id ≠ some .phi := by
    rcases List.mem_append.mp listed with merge | fixed
    · rw [kindOf?_merge holds found merge]
      simp
    · obtain ⟨name, known⟩ := kindOf?_index padded holds found (mem_spine padded found fixed)
      rw [known]
      simp
  intro source target controls
  cases ((controls_iff padded holds).mp controls).2 with
  | along found here _ => exact acts found (List.mem_of_getElem? here)
  | across found _ _ last _ => exact acts found (List.mem_of_getLast? last)

theorem steers_of_holds (serves : Serves code supplies graph) :
    Steers code supplies flow.Follows graph where
  serves := serves
  ordered := ordered_of_holds padded holds
  path_iff first second low high apart := by
    obtain ⟨_, start⟩ := serves.kindOf?_of_lt low
    obtain ⟨_, finish⟩ := serves.kindOf?_of_lt high
    exact path_iff_follows padded holds (by simp [start]) (by simp [finish]) apart

end Accepted

/--
In the value graph of an accepted sequence the instructions are those of the code.
Control leads from one to another, through merges only, just where the other can
be the next fixed instruction after it.
-/
theorem control_orders_instructions {blocks : BlockGraph} {flow : FlowGraph}
    {values : ValueGraph} (built : BlockGraph.build code = .ok blocks)
    (accepted : FlowGraph.build blocks = .ok flow) (done : build flow = .ok values) :
    (∀ id, (∃ index name, values.kindOf? id = some (.instruction index name)) ↔
      id < code.length) ∧
    ∀ first second, first < code.length → second < code.length → first ≠ second →
      (values.ControlPath first second ↔ flow.Follows first second) := by
  obtain rfl := BlockGraph.ofCode_of_build built
  obtain ⟨padded, balanced⟩ := FlowGraph.build_ok accepted
  obtain ⟨assembled, bound, holds, serves, rfl⟩ := exists_assembled padded balanced done
  have steers := (steers_of_holds padded holds serves).cleanup
  refine ⟨fun id => ⟨?_, fun within => ⟨id, steers.serves.kindOf?_of_lt within⟩⟩, steers.path_iff⟩
  rintro ⟨index, name, known⟩
  obtain ⟨rfl, instruction, there, -⟩ := (steers.serves.instruction id index name).mp known
  exact Sequence.lt_length there

/-- After each arm of the choice comes the instruction that leaves. -/
theorem control_orders_instructions_oneOrZero :
    BlockGraph.build oneOrZero = .ok (.ofCode oneOrZero) ∧
    FlowGraph.build (.ofCode oneOrZero) = .ok (.ofBlocks (.ofCode oneOrZero)) ∧
    ∃ values, build (.ofBlocks (.ofCode oneOrZero)) = .ok values ∧
      values.ControlPath 3 5 ∧ values.ControlPath 4 5 := by
  have built : BlockGraph.build oneOrZero = .ok (.ofCode oneOrZero) := rfl
  have accepted : FlowGraph.build (.ofCode oneOrZero) = .ok (.ofBlocks (.ofCode oneOrZero)) := rfl
  obtain ⟨padded, balanced⟩ := FlowGraph.build_ok accepted
  obtain ⟨values, done, -⟩ := exists_serving_build padded balanced connected_oneOrZero
  obtain ⟨-, paths⟩ := control_orders_instructions built accepted done
  have left : (FlowGraph.ofBlocks (.ofCode oneOrZero)).Leads 1 3 := .next rfl (by decide)
  have right : (FlowGraph.ofBlocks (.ofCode oneOrZero)).Leads 2 3 := .next rfl (by decide)
  exact ⟨built, accepted, values, done,
    (paths 3 5 (by decide) (by decide) (by decide)).mpr (.across rfl left rfl),
    (paths 4 5 (by decide) (by decide) (by decide)).mpr (.across rfl right rfl)⟩

end StackCode.ValueGraph
