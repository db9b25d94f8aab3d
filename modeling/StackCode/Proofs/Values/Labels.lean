import StackCode.Proofs.Values.Gaps
import StackCode.Proofs.Values.Spine

/-!
# Labels of phis

Each value that a phi receives is labelled with the last control node of the block
from which it comes, and control leads from that node to the merge of the phi.  The
labels are given before the cleanup.  It bypasses merges but does not relabel, so the
label of a block that had nothing but its merge may name a node that is gone.
-/

namespace StackCode

namespace FlowGraph

/-- A block without fixed instructions does not come after itself. -/
theorem not_mem_successors_of_spine_eq_nil {code : Sequence} {flow : FlowGraph}
    (padded : flow.PadsBlocks (.ofCode code)) {number : Nat} {block : Block}
    (present : (BlockGraph.ofCode code).blocks[number]? = some block)
    (nothing : flow.spine number = []) : number ∉ block.successors := by
  have pure : ValueGraph.fixedInstructions code block = [] := by
    simp only [spine, padded.graph_eq, present, BlockGraph.code_ofCode] at nothing
    split at nothing
    · cases nothing
    · exact nothing
  have inside := Block.last_mem_indices (BlockGraph.length_pos present)
  intro loops
  rcases (BlockGraph.mem_successors_iff present).mp loops with
    ⟨target, aimed, -⟩ | ⟨_, -, -, next⟩
  · unfold Sequence.branchTargets at aimed
    cases there : code.instruction? block.last with
    | none => simp [there] at aimed
    | some instruction =>
        have silent := List.filter_eq_nil_iff.mp pure _ inside
        simp only [there, Bool.not_eq_true] at silent
        simp [there, Instruction.branchLabels_eq_nil (Instruction.branches_eq_false silent)]
          at aimed
  · have beyond := BlockGraph.mem_indices next present
    simp only [Block.last, Block.indices, List.mem_range'_1] at beyond inside
    omega

end FlowGraph

namespace ValueGraph

open Site

/-- The phi belongs to the merge. -/
def Attached (graph : ValueGraph) (phi merge : Nat) : Prop :=
  (⟨phi, merge, .info⟩ : Edge) ∈ graph.insOf merge

/-- A value that the phi receives is labelled with the node. -/
def Labelled (graph : ValueGraph) (phi tail : Nat) : Prop :=
  ∃ edge ∈ graph.insOf phi, edge.kind = .data (.predecessor tail)

/-- A label of a phi names a node, from which control leads to the merge of the phi. -/
def Matches (graph : ValueGraph) (tail merge : Nat) : Prop :=
  graph.Live tail ∧ graph.Controls tail merge

instance (graph : ValueGraph) (id : Nat) : Decidable (graph.Live id) :=
  decidable_of_iff ((graph.kindOf? id).isSome = true) Option.isSome_iff_exists

instance (graph : ValueGraph) (phi merge : Nat) : Decidable (graph.Attached phi merge) :=
  inferInstanceAs (Decidable (_ ∈ _))

instance (graph : ValueGraph) (phi tail : Nat) : Decidable (graph.Labelled phi tail) :=
  inferInstanceAs (Decidable (∃ edge ∈ graph.insOf phi, _))

variable {code : Sequence} {flow : FlowGraph} {supplies : Nat → Nat → Nat → Prop}

/-! ## The cleanup -/

/-- What is left of a graph: control and phis of the nodes that are left, and no new labels. -/
structure Remains (code : Sequence) (supplies : Nat → Nat → Nat → Prop)
    (original graph : ValueGraph) : Prop where
  serves : Serves code supplies graph
  controls : ∀ source target, original.Controls source target → graph.Live source →
    graph.Live target → graph.Controls source target
  attached : ∀ phi merge, graph.Attached phi merge → original.Attached phi merge
  holds : ∀ phi merge, original.Attached phi merge → graph.Live phi → graph.Attached phi merge
  labelled : ∀ phi tail, graph.Labelled phi tail → original.Labelled phi tail

section Steps

variable {original graph after : ValueGraph} {removed : Nat} {added : List Edge}

theorem Serves.remains (serves : Serves code supplies graph) :
    Remains code supplies graph graph where
  serves := serves
  controls _ _ controlled _ _ := controlled
  attached _ _ attached := attached
  holds _ _ attached _ := attached
  labelled _ _ labelled := labelled

/-- A rewiring that takes no merge from a phi and adds no label leaves what was left. -/
theorem Remains.rewired (remains : Remains code supplies original graph)
    (rewires : Rewires graph after removed added) (serves : Serves code supplies after)
    (free : ∀ phi, ¬ graph.Attached phi removed) (plain : ∀ edge ∈ added, edge.kind ≠ .info)
    (known : ∀ edge ∈ added, ∀ tail, edge.kind = .data (.predecessor tail) →
      graph.Labelled edge.target tail) : Remains code supplies original after := by
  refine ⟨serves, fun source target controlled starts ends => ?_, fun phi merge attached => ?_,
    fun phi merge attached left => ?_, ?_⟩
  · obtain ⟨source_ne, starts⟩ := rewires.live starts
    obtain ⟨target_ne, ends⟩ := rewires.live ends
    exact rewires.mem_insOf_iff.mpr
      ⟨target_ne, source_ne, .inl (remains.controls _ _ controlled starts ends)⟩
  · obtain ⟨-, -, kept | ⟨made, -, -⟩⟩ := rewires.mem_insOf_iff.mp attached
    · exact remains.attached _ _ kept
    · exact absurd rfl (plain _ made)
  · obtain ⟨phi_ne, left⟩ := rewires.live left
    have kept := remains.holds _ _ attached left
    refine rewires.mem_insOf_iff.mpr ⟨?_, phi_ne, .inl kept⟩
    rintro rfl
    exact free _ kept
  · rintro phi tail ⟨edge, listed, kind⟩
    refine remains.labelled _ _ ?_
    obtain ⟨-, -, kept | ⟨made, -, rfl⟩⟩ := rewires.mem_insOf_iff.mp listed
    · exact ⟨edge, kept, kind⟩
    · exact known _ made tail kind

theorem Remains.bypass? (remains : Remains code supplies original graph) {slot : Nat}
    {node : Node} (stored : graph.nodeAt? slot = some node)
    (done : graph.bypass? node = some after) : Remains code supplies original after := by
  have serves := remains.serves
  rcases serves.bypass?_cases stored done with ⟨producer, sole, rewires⟩ | ⟨merge, free, rewires⟩
  · refine remains.rewired rewires (serves.bypass? stored done) ?_ ?_ ?_
    · intro phi attached
      have fits : graph.kindOf? node.id = some .merge := serves.fits _ _ attached
      rw [sole.known] at fits
      cases fits
    · intro edge made
      obtain ⟨out, -, other, rfl⟩ := mem_redirected.mp made
      exact other
    · intro edge made tail kind
      obtain ⟨out, given, -, rfl⟩ := mem_redirected.mp made
      exact ⟨out, (mem_insOf_of_mem_outsOf serves given).2, kind⟩
  · refine remains.rewired rewires (serves.bypass? stored done) ?_ ?_ ?_
    · exact fun phi attached => free _ attached rfl
    · intro edge made
      simp [control_of_mem_throughEdges made]
    · intro edge made tail kind
      rw [control_of_mem_throughEdges made] at kind
      cases kind

theorem Remains.cleanup (remains : Remains code supplies original graph) :
    Remains code supplies original graph.cleanup.2 :=
  cleanup_keeps (fun remains stored done => remains.bypass? stored done) remains

end Steps

/-! ## The assembled graph -/

/-- The last node of a block is a fixed instruction, or its merge if there are none. -/
theorem tail_cases {number : Nat} {site : Site} (found : (sites flow)[number]? = some site) :
    (site.piece flow).tail ∈ flow.spine number ∨
      site.merge flow = [(site.piece flow).tail] ∧ flow.spine number = [] := by
  have last := getLast?_track found
  obtain ⟨rfl, -⟩ := getElem?_sites found
  exact (getLast?_track_cases last).imp_left List.mem_of_getLast?

/-- The phis of a block with a merge belong to the merge. -/
theorem mem_edges_info {site : Site} {phi merge : Nat} :
    (⟨phi, merge, .info⟩ : Edge) ∈ site.edges flow ↔
      phi ∈ site.inputs flow ∧ merge ∈ site.merge flow := by
  constructor
  · intro listed
    cases inner_of_mem_edges listed with
    | info given merged => exact ⟨given, merged⟩
  · rintro ⟨given, merged⟩
    obtain ⟨place, given⟩ := List.mem_iff_getElem?.mp given
    have within := (List.getElem?_eq_some_iff.mp given).1
    rw [length_inputs] at within
    have pair : ((site.boundary flow).ins[place], phi) ∈
        (site.boundary flow).ins.zip (site.inputs flow) :=
      List.mem_iff_getElem?.mpr ⟨place, List.getElem?_zip_eq_some.mpr
        ⟨List.getElem?_eq_getElem within, given⟩⟩
    refine List.mem_append_left _ (List.mem_append_right _ (List.mem_flatMap.mpr ⟨_, pair, ?_⟩))
    exact List.mem_append_left _ (List.mem_map_of_mem merged)

section Accepted

variable (padded : flow.PadsBlocks (.ofCode code)) {graph : ValueGraph} {bound : Nat}
  (holds : graph.Holds flow bound (allNodes flow) (allEdges flow))

include holds in
theorem attached_iff {phi merge : Nat} :
    graph.Attached phi merge ↔ ∃ (number : Nat) (site : Site),
      (sites flow)[number]? = some site ∧ phi ∈ site.inputs flow ∧ site.merge flow = [merge] := by
  have single {site : Site} (merged : merge ∈ site.merge flow) : site.merge flow = [merge] := by
    unfold Site.merge at merged ⊢
    split at merged
    · rw [if_pos ‹_›, List.mem_singleton.mp merged]
    · cases merged
  unfold Attached
  rw [holds.ins, List.mem_filter]
  constructor
  · rintro ⟨listed, -⟩
    rcases mem_allEdges_cases listed with ⟨number, site, found, inner⟩ | control | data
    · cases inner with
      | info given merged => exact ⟨number, site, found, given, single merged⟩
    · obtain ⟨_, -, joined⟩ := List.mem_flatMap.mp control
      obtain ⟨_, -, same⟩ := List.mem_map.mp joined
      cases same
    · obtain ⟨_, -, joined⟩ := List.mem_flatMap.mp data
      obtain ⟨_, -, passed⟩ := List.mem_flatMap.mp joined
      obtain ⟨_, -, taken⟩ := List.mem_flatMap.mp passed
      obtain ⟨_, -, same⟩ := List.mem_map.mp taken
      cases same
  · rintro ⟨number, site, found, given, merged⟩
    have apart : phi ≠ merge := by
      rintro rfl
      have known := kindOf?_input holds found given
      rw [kindOf?_merge holds found (by simp [merged])] at known
      cases known
    refine ⟨mem_proper.mpr ⟨?_, apart⟩, by simp⟩
    refine List.mem_append_left _ (List.mem_append_left _ (List.mem_flatMap.mpr ?_))
    exact ⟨site, List.mem_of_getElem? found, mem_edges_info.mpr ⟨given, by simp [merged]⟩⟩

include padded holds

/-- A phi is labelled with the last nodes of blocks before its own. -/
theorem exists_tail_of_labelled {phi tail : Nat} (labelled : graph.Labelled phi tail) :
    ∃ (number successor : Nat) (site following : Site),
      (sites flow)[number]? = some site ∧ successor ∈ site.block.successors ∧
      (sites flow)[successor]? = some following ∧ phi ∈ following.inputs flow ∧
      tail = (site.piece flow).tail := by
  obtain ⟨edge, listed, kind⟩ := labelled
  rw [holds.ins] at listed
  obtain ⟨made, target⟩ := List.mem_filter.mp listed
  obtain rfl := of_decide_eq_true target
  rcases mem_allEdges_cases made with ⟨_, _, -, inner⟩ | control | data
  · obtain ⟨-, _, -, same⟩ := inner.exists_place kind
    cases same
  · obtain ⟨_, _, _, _, -, -, -, rfl⟩ := (mem_controlEdges padded).mp control
    cases kind
  · obtain ⟨number, successor, _, _, phi, site, following, found, reached, found', -, given,
      rfl⟩ := (mem_dataEdges padded).mp data
    obtain rfl := DataLabel.predecessor.inj (EdgeKind.data.inj kind)
    exact ⟨number, successor, site, following, found, reached, found',
      List.mem_of_getElem? given, rfl⟩

/-- From the last node of a block control leads to the merge of a block after it. -/
theorem controls_merge {number successor merge : Nat} {site following : Site}
    (found : (sites flow)[number]? = some site) (reached : successor ∈ site.block.successors)
    (found' : (sites flow)[successor]? = some following)
    (merged : following.merge flow = [merge]) : graph.Controls (site.piece flow).tail merge := by
  have head : (following.track flow).head? = some merge := by
    rw [track, merged]
    rfl
  refine (controls_iff padded holds).mpr
    ⟨fun same => ?_, .across found reached found' (getLast?_track found) head⟩
  obtain ⟨rfl, -⟩ := getElem?_sites found
  rcases tail_cases found with fixed | ⟨merged', nothing⟩
  · refine kindOf?_spine padded holds found fixed ?_
    rw [same]
    exact kindOf?_merge holds found' (by simp [merged])
  · -- only a block without fixed instructions could lead to itself by its merge
    rw [same] at merged'
    obtain ⟨rfl, -⟩ := merge_unique found found' merged' merged
    exact FlowGraph.not_mem_successors_of_spine_eq_nil padded (present_of_found padded found)
      nothing reached

end Accepted

/-! ## The graph that is built -/

/-- The number was that of the merge of a block without fixed instructions, before the given one.
Neither the merge nor a phi of that block is left. -/
def Vanished (flow : FlowGraph) (graph : ValueGraph) (merge successor : Nat) : Prop :=
  ∃ (number : Nat) (site : Site), (sites flow)[number]? = some site ∧
    successor ∈ site.block.successors ∧ flow.spine number = [] ∧ site.merge flow = [merge] ∧
    ¬ graph.Live merge ∧ ∀ phi ∈ site.inputs flow, ¬ graph.Live phi

/--
In the value graph of an accepted sequence, each label of a phi with a merge names the
last control node of a block before, and control leads from it to the merge.  The only
labels that name no node are those of blocks without fixed instructions of whose merge
and phis nothing is left.
-/
theorem labels_match_control {blocks : BlockGraph} {values : ValueGraph}
    (built : BlockGraph.build code = .ok blocks) (accepted : FlowGraph.build blocks = .ok flow)
    (done : build flow = .ok values) :
    ∀ phi merge tail, values.Attached phi merge → values.Labelled phi tail →
      ∃ (successor : Nat) (following : Site), (sites flow)[successor]? = some following ∧
        phi ∈ following.inputs flow ∧ following.merge flow = [merge] ∧
        (values.Matches tail merge ∨ Vanished flow values tail successor) := by
  obtain rfl := BlockGraph.ofCode_of_build built
  obtain ⟨padded, balanced⟩ := FlowGraph.build_ok accepted
  obtain ⟨assembled, bound, holds, serves, rfl⟩ := exists_assembled padded balanced done
  have remains := serves.remains.cleanup
  intro phi merge tail attached labelled
  obtain ⟨successor, following, found', given, merged⟩ :=
    (attached_iff holds).mp (remains.attached _ _ attached)
  obtain ⟨number, successor', site, following', found, reached, found'', given', rfl⟩ :=
    exists_tail_of_labelled padded holds (remains.labelled _ _ labelled)
  obtain ⟨place, given_at⟩ := List.mem_iff_getElem?.mp given
  obtain ⟨place', given_at'⟩ := List.mem_iff_getElem?.mp given'
  obtain ⟨rfl, rfl, -⟩ := input_unique found' found'' given_at given_at'
  refine ⟨successor, following, found', given, merged, ?_⟩
  by_cases left : assembled.cleanup.2.Live (site.piece flow).tail
  · have controls := controls_merge padded holds found reached found' merged
    exact .inl ⟨left, remains.controls _ _ controls left (live_of_mem_insOf attached)⟩
  · refine .inr ⟨number, site, found, reached, ?_⟩
    rcases tail_cases found with fixed | ⟨merged', nothing⟩
    · -- the nodes of instructions are all left
      have inside := mem_spine padded found ((getElem?_sites found).1 ▸ fixed)
      have within := lt_length padded (present_of_found padded found) inside
      rw [padded.graph_eq] at within
      obtain ⟨name, known⟩ := remains.serves.kindOf?_of_lt within
      exact absurd ⟨_, known⟩ left
    · refine ⟨nothing, merged', left, fun phi given stays => left ?_⟩
      have attached := (attached_iff holds).mpr ⟨number, site, found, given, merged'⟩
      exact live_of_mem_insOf (remains.holds _ _ attached stays)

/-- One of two values is left.  A block that does nothing hands the first one on. -/
def handedOn : Sequence where
  name := "<compiled>"
  kind := .top
  code := #[.putSelf, .putSelf, .branchIf 0, .putSelf, .branchIf 2, .nop, .leave, .pop, .putNil,
    .jump 1]
  labels := #[some 5, some 6, some 7]
  locals := []
  parameters := .none
  handlers := []

theorem exists_build_handedOn : ∃ flow values,
    FlowGraph.build (.ofCode handedOn) = .ok flow ∧ build flow = .ok values ∧
    values.Attached 1004 1003 ∧ values.Labelled 1004 9 ∧ values.Live 9 ∧
    values.Labelled 1004 1001 ∧ ¬ values.Live 1001 := by
  have checked : (ofSequence handedOn).toOption.any (fun values =>
      values.Attached 1004 1003 ∧ values.Labelled 1004 9 ∧ values.Live 9 ∧
        values.Labelled 1004 1001 ∧ ¬ values.Live 1001) = true := by
    decide +kernel
  obtain ⟨values, made, checked⟩ := exists_of_any checked
  obtain ⟨blocks, built, made⟩ := bind_eq_ok_iff.mp made
  obtain rfl := BlockGraph.ofCode_of_build built
  obtain ⟨flow, accepted, done⟩ := bind_eq_ok_iff.mp made
  exact ⟨flow, values, accepted, done, of_decide_eq_true checked⟩

/-- The label of the jump matches, that of the block that does nothing has vanished. -/
theorem labels_match_control_handedOn :
    BlockGraph.build handedOn = .ok (.ofCode handedOn) ∧ ∃ flow values,
      FlowGraph.build (.ofCode handedOn) = .ok flow ∧ build flow = .ok values ∧
      values.Labelled 1004 9 ∧ values.Matches 9 1003 ∧
      values.Labelled 1004 1001 ∧ ∃ successor, Vanished flow values 1001 successor := by
  have built : BlockGraph.build handedOn = .ok (.ofCode handedOn) := rfl
  obtain ⟨flow, values, accepted, done, attached, jump, there, nothing, gone⟩ :=
    exists_build_handedOn
  have labels := labels_match_control built accepted done
  refine ⟨built, flow, values, accepted, done, jump, ?_, nothing, ?_⟩
  · obtain ⟨_, _, -, -, -, matched | ⟨_, _, -, -, -, -, absent, -⟩⟩ := labels _ _ _ attached jump
    · exact matched
    · exact absurd there absent
  · obtain ⟨successor, _, -, -, -, ⟨left, -⟩ | vanished⟩ := labels _ _ _ attached nothing
    · exact absurd left gone
    · exact ⟨successor, vanished⟩

/-- A phi may be labelled with a number that no node has. -/
theorem label_without_node :
    BlockGraph.build handedOn = .ok (.ofCode handedOn) ∧ ∃ flow values,
      FlowGraph.build (.ofCode handedOn) = .ok flow ∧ build flow = .ok values ∧
      values.Attached 1004 1003 ∧ values.Labelled 1004 1001 ∧ ¬ values.Live 1001 := by
  obtain ⟨flow, values, accepted, done, attached, -, -, nothing, gone⟩ := exists_build_handedOn
  exact ⟨rfl, flow, values, accepted, done, attached, nothing, gone⟩

end ValueGraph

end StackCode
