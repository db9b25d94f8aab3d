import StackCode.Proofs.Values.Labels

/-!
# Normal forms

The cleanup sweeps over a graph until a sweep removes nothing.  Every bypass takes
one node away, so there is a last sweep.  What it leaves is a normal form: a phi
has a choice, a merge has a phi, and there is nothing for another cleanup to do.
-/

namespace StackCode.ValueGraph

open Site

variable {graph after final : ValueGraph} {code : Sequence}
  {supplies : Nat → Nat → Nat → Prop} {count : Nat}

/-! ## The number of nodes -/

/-- The slots of the nodes, and which slots hold a node. -/
def layout (graph : ValueGraph) : Table Nat Nat × List Bool :=
  (graph.index, graph.slots.toList.map Option.isSome)

theorem length_nodes (graph : ValueGraph) :
    graph.nodes.length = graph.layout.2.count true := by
  rw [nodes, List.length_filterMap_eq_countP, layout, List.count, List.countP_map]
  refine List.countP_congr fun slot _ => ?_
  simp

theorem getElem?_layout {slot : Nat} :
    graph.layout.2[slot]? = some true ↔ ∃ node, graph.nodeAt? slot = some node := by
  simp only [layout, List.getElem?_map, Array.getElem?_toList, nodeAt?]
  cases graph.slots[slot]? with
  | none => simp
  | some held => simp [Option.isSome_iff_exists]

theorem layout_modifyNode (graph : ValueGraph) (id : Nat) (change : Node → Node) :
    (graph.modifyNode id change).layout = graph.layout := by
  unfold modifyNode
  split
  · refine Prod.ext rfl (List.ext_getElem? fun slot => ?_)
    simp only [layout, Array.toList_modify, List.getElem?_map, List.getElem?_modify]
    cases graph.slots.toList[slot]? with
    | none => rfl
    | some held => split <;> simp
  · rfl

theorem layout_connect (graph : ValueGraph) (source target : Nat) (kind : EdgeKind) :
    (graph.connect source target kind).layout = graph.layout := by
  unfold connect
  split
  · rfl
  · rw [layout_modifyNode, layout_modifyNode]

theorem layout_connectEach (graph : ValueGraph) (edges : List Edge) :
    (graph.connectEach edges).layout = graph.layout :=
  foldl_unchanged (fun graph edge => layout_connect graph edge.source edge.target edge.kind) ..

/-- A node that is removed leaves its slot empty. -/
theorem layout_remove {id slot : Nat} {node : Node} (held : graph.index.get? id = some slot)
    (stored : graph.nodeAt? slot = some node) :
    (graph.remove id).layout = (graph.index.erase id, graph.layout.2.set slot false) := by
  have ins (graph : ValueGraph) (edge : Edge) : (dropIn graph id edge).layout = graph.layout :=
    layout_modifyNode graph edge.target _
  have outs (graph : ValueGraph) (edge : Edge) : (dropOut graph id edge).layout = graph.layout :=
    layout_modifyNode graph edge.source _
  simp only [remove, held, stored]
  rw [foldl_unchanged ins, foldl_unchanged outs]
  simp [layout, Array.set!_eq_setIfInBounds, List.map_set]

/-- A rewiring takes one node away. -/
theorem Indexed.length_rewired (indexed : graph.Indexed) {slot : Nat} {node : Node}
    (stored : graph.nodeAt? slot = some node) (added : List Edge) (start : Nat) :
    (({ graph.connectEach added with start } : ValueGraph).remove node.id).nodes.length + 1 =
      graph.nodes.length := by
  have moved : ({ graph.connectEach added with start } : ValueGraph).layout = graph.layout :=
    layout_connectEach graph added
  have there : graph.layout.2[slot]? = some true := getElem?_layout.mpr ⟨node, stored⟩
  obtain ⟨node', stored'⟩ := getElem?_layout.mp (moved ▸ there)
  have held : ({ graph.connectEach added with start } : ValueGraph).index.get? node.id =
      some slot := by
    rw [← indexed.named slot node stored]
    exact congrArg (fun layout => layout.1.get? node.id) moved
  obtain ⟨within, full⟩ := List.getElem?_eq_some_iff.mp there
  have some_left : 0 < graph.layout.2.count true :=
    List.count_pos_iff.mpr (List.mem_of_getElem? there)
  rw [length_nodes, length_nodes, layout_remove held stored', moved, List.count_set within, full,
    if_pos (by decide), if_neg (by decide)]
  omega

/-- Every bypass is a rewiring. -/
theorem Sound.bypass?_eq (sound : graph.Sound) {slot : Nat} {node : Node}
    (stored : graph.nodeAt? slot = some node) (done : graph.bypass? node = some after) :
    ∃ added start,
      after = ({ graph.connectEach added with start } : ValueGraph).remove node.id := by
  unfold ValueGraph.bypass? at done
  split at done
  · cases done
  · obtain ⟨producer, -, rfl⟩ := Option.map_eq_some_iff.mp done
    exact ⟨_, _, sound.bypassPhi_eq stored producer⟩
  · split at done
    · cases done
    · obtain rfl := Option.some.inj done
      exact ⟨throughEdges node, bypassMerge_eq graph node⟩

/-- As many nodes are gone as were bypassed. -/
theorem Reduces.length (reduces : graph.Reduces count final)
    (serves : Serves code supplies graph) :
    count + final.nodes.length = graph.nodes.length := by
  induction reduces with
  | refl => exact Nat.zero_add _
  | step before stored done ih =>
      have sound := (before.serves serves).sound
      obtain ⟨added, start, rfl⟩ := sound.bypass?_eq stored done
      have fewer := sound.toIndexed.length_rewired stored added start
      omega

/-! ## The last sweep -/

/-- No node is left that selects nothing. -/
def Settled (graph : ValueGraph) : Prop :=
  ∀ slot, (graph.nodeAt? slot).bind graph.bypass? = none

theorem le_foldl_sweepSlot (slots : List Nat) (state : Nat × ValueGraph) :
    state.1 ≤ (slots.foldl sweepSlot state).1 := by
  induction slots generalizing state with
  | nil => exact Nat.le_refl _
  | cons slot rest ih =>
      refine Nat.le_trans ?_ (ih (sweepSlot state slot))
      unfold sweepSlot
      split
      · exact Nat.le_succ _
      · exact Nat.le_refl _

/-- If a sweep removes nothing, it finds nothing to remove in any slot. -/
theorem settled_of_foldl (slots : List Nat) {state : Nat × ValueGraph}
    (nothing : (slots.foldl sweepSlot state).1 = state.1) :
    ∀ slot ∈ slots, (state.2.nodeAt? slot).bind state.2.bypass? = none := by
  induction slots generalizing state with
  | nil => simp
  | cons slot rest ih =>
      rw [List.foldl_cons] at nothing
      have low := le_foldl_sweepSlot rest (sweepSlot state slot)
      cases found : (state.2.nodeAt? slot).bind state.2.bypass? with
      | some after =>
          have swept : sweepSlot state slot = (state.1 + 1, after) := by simp [sweepSlot, found]
          rw [nothing, swept] at low
          exact absurd low (Nat.not_succ_le_self _)
      | none =>
          have swept : sweepSlot state slot = state := by simp [sweepSlot, found]
          rw [swept] at nothing
          exact List.forall_mem_cons.mpr ⟨found, ih nothing⟩

theorem settled_of_sweep (nothing : graph.sweep.1 = 0) : graph.Settled := by
  intro slot
  cases stored : graph.nodeAt? slot with
  | none => rfl
  | some node =>
      have visited : (graph.nodeAt? slot).bind graph.bypass? = none :=
        settled_of_foldl _ nothing slot (List.mem_range.mpr (slot_lt stored))
      rwa [stored] at visited

theorem Settled.foldl (settled : graph.Settled) (slots : List Nat) (removed : Nat) :
    slots.foldl sweepSlot (removed, graph) = (removed, graph) := by
  induction slots with
  | nil => rfl
  | cons slot rest ih =>
      have swept : sweepSlot (removed, graph) slot = (removed, graph) := by
        simp [sweepSlot, settled slot]
      rw [List.foldl_cons, swept, ih]

theorem Settled.sweep (settled : graph.Settled) : graph.sweep = (0, graph) :=
  settled.foldl _ 0

theorem Settled.cleanup (settled : graph.Settled) : graph.cleanup = (0, graph) := by
  rw [ValueGraph.cleanup, sweeps, settled.sweep]
  rfl

/-- Sweeps without any bound on their number, until one removes nothing. -/
inductive Sweeps : ValueGraph → Nat → ValueGraph → Prop where
  | done {graph : ValueGraph} : graph.sweep.1 = 0 → Sweeps graph 0 graph.sweep.2
  | again {graph final : ValueGraph} {more : Nat} : graph.sweep.1 ≠ 0 →
      Sweeps graph.sweep.2 more final → Sweeps graph (graph.sweep.1 + more) final

theorem Sweeps.settled (sweeps : graph.Sweeps count final) : final.Settled := by
  induction sweeps with
  | @done graph nothing =>
      have settled := settled_of_sweep nothing
      rwa [settled.sweep]
  | again _ _ ih => exact ih

/-- A sweep for each node, and one more, are as many as there are without a bound. -/
theorem Serves.sweeps (serves : Serves code supplies graph) {budget : Nat}
    (enough : graph.nodes.length < budget) :
    graph.Sweeps (ValueGraph.sweeps budget graph).1 (ValueGraph.sweeps budget graph).2 := by
  induction budget generalizing graph with
  | zero => exact absurd enough (Nat.not_lt_zero _)
  | succ budget ih =>
      have reduces := Reduces.sweep graph
      unfold ValueGraph.sweeps
      dsimp only
      split
      · rename_i nothing
        exact .done nothing
      · rename_i removed
        have fewer := reduces.length serves
        exact .again removed (ih (reduces.serves serves) (by omega))

theorem Serves.cleanup_ends (serves : Serves code supplies graph) :
    graph.Sweeps graph.cleanup.1 graph.cleanup.2 :=
  serves.sweeps (Nat.lt_succ_self _)

/-! ## What is left -/

/-- Every phi that receives anything has a choice, and every merge has a phi. -/
structure Normal (graph : ValueGraph) : Prop where
  phi : ∀ node ∈ graph.nodes, node.kind = .phi → node.ins = [] ∨
    ∃ first ∈ graph.nodes, ∃ second ∈ graph.nodes, first.id ≠ second.id ∧
      (∃ edge ∈ node.ins, edge.source = first.id) ∧ ∃ edge ∈ node.ins, edge.source = second.id
  merge : ∀ node ∈ graph.nodes, node.kind = .merge →
    ∃ phi ∈ graph.nodes, phi.kind = .phi ∧ (⟨phi.id, node.id, .info⟩ : Edge) ∈ node.ins

/-- A node that is left has the kind that it had. -/
theorem Reduces.kindOf? (reduces : graph.Reduces count final)
    (serves : Serves code supplies graph) {id : Nat} {kind : NodeKind}
    (known : final.kindOf? id = some kind) : graph.kindOf? id = some kind := by
  induction reduces with
  | refl => exact known
  | step before stored done ih =>
      refine ih ?_
      rcases (before.serves serves).bypass?_cases stored done with ⟨_, _, rewires⟩ | ⟨_, _, rewires⟩
      · obtain ⟨apart, -⟩ := rewires.live ⟨kind, known⟩
        rwa [← rewires.kindOf?_eq apart]
      · obtain ⟨apart, -⟩ := rewires.live ⟨kind, known⟩
        rwa [← rewires.kindOf?_eq apart]

/-- A phi without a choice would have been bypassed. -/
theorem Settled.phi (settled : graph.Settled) {slot : Nat} {node : Node}
    (stored : graph.nodeAt? slot = some node) (kind : node.kind = .phi) :
    node.ins = [] ∨ ∃ first ∈ node.ins, ∃ second ∈ node.ins, first.source ≠ second.source := by
  have stays := settled slot
  rw [stored, Option.bind_some, bypass?, kind] at stays
  have none := Option.map_eq_none_iff.mp stays
  unfold soleProducer? at none
  split at none
  · rename_i nothing
    exact .inl nothing
  · rename_i first rest ins
    split at none
    · cases none
    · rename_i differs
      obtain ⟨second, later, apart⟩ := List.all_eq_false.mp (Bool.eq_false_iff.mpr differs)
      rw [decide_eq_true_eq] at apart
      rw [ins]
      exact .inr ⟨first, List.mem_cons_self, second, List.mem_cons_of_mem _ later, Ne.symm apart⟩

/-- A merge without phis would have been bypassed. -/
theorem Settled.merge (settled : graph.Settled) {slot : Nat} {node : Node}
    (stored : graph.nodeAt? slot = some node) (kind : node.kind = .merge) :
    ∃ edge ∈ node.ins, edge.kind = .info := by
  have stays := settled slot
  rw [stored, Option.bind_some, bypass?, kind] at stays
  dsimp only at stays
  split at stays
  · rename_i held
    obtain ⟨edge, listed, info⟩ := List.any_eq_true.mp held
    exact ⟨edge, listed, of_decide_eq_true info⟩
  · cases stays

/-- Where only phis belong to merges, a settled graph is in normal form. -/
theorem Settled.normal (settled : graph.Settled) (sound : graph.Sound)
    (phis : ∀ phi merge, graph.Attached phi merge → graph.kindOf? phi = some .phi) :
    graph.Normal where
  phi node listed kind := by
    obtain ⟨slot, stored⟩ := mem_nodes.mp listed
    obtain ⟨-, ins, -⟩ := sound.of_nodeAt? stored
    refine (settled.phi stored kind).imp_right ?_
    rintro ⟨first, given, second, given', apart⟩
    obtain ⟨one, found, one_id⟩ := sound.exists_source (ins ▸ given)
    obtain ⟨other, found', other_id⟩ := sound.exists_source (ins ▸ given')
    refine ⟨one, found, other, found', ?_, ⟨first, given, one_id.symm⟩, second, given',
      other_id.symm⟩
    rwa [one_id, other_id]
  merge node listed kind := by
    obtain ⟨slot, stored⟩ := mem_nodes.mp listed
    obtain ⟨-, ins, -⟩ := sound.of_nodeAt? stored
    obtain ⟨edge, given, info⟩ := settled.merge stored kind
    obtain ⟨phi, found, id⟩ := sound.exists_source (ins ▸ given)
    obtain ⟨target, -⟩ := sound.incoming _ edge (ins ▸ given)
    have same : edge = ⟨phi.id, node.id, .info⟩ := by
      rw [id, ← target, ← info]
    refine ⟨phi, found, ?_, same ▸ given⟩
    obtain ⟨slot', stored'⟩ := mem_nodes.mp found
    have known := phis phi.id node.id (by rw [Attached, ins, ← same]; exact given)
    rw [(sound.of_nodeAt? stored').1] at known
    exact Option.some.inj known

/-! ## The graph that is assembled -/

/--
The cleanup of the graph that is assembled for an accepted sequence ends, and
answers how many nodes are gone.  It leaves a normal form with all instructions,
of which another cleanup changes nothing.
-/
theorem cleanup_ends_in_normal_form {flow : FlowGraph} {blocks : BlockGraph}
    (built : BlockGraph.build code = .ok blocks) (accepted : FlowGraph.build blocks = .ok flow) :
    ∃ graph, assemble flow = .ok graph ∧
      graph.Sweeps graph.cleanup.1 graph.cleanup.2 ∧
      graph.cleanup.1 + graph.cleanup.2.nodes.length = graph.nodes.length ∧
      graph.cleanup.2.Normal ∧
      (∀ id index name, graph.kindOf? id = some (.instruction index name) →
        graph.cleanup.2.kindOf? id = some (.instruction index name)) ∧
      graph.cleanup.2.cleanup = (0, graph.cleanup.2) := by
  obtain rfl := BlockGraph.ofCode_of_build built
  obtain ⟨padded, balanced⟩ := FlowGraph.build_ok accepted
  obtain ⟨graph, bound, done, holds⟩ := assemble_ok padded balanced
  have serves := (serves_feedsOperand padded balanced holds).toServes
  have remains := serves.remains.cleanup
  have settled := serves.cleanup_ends.settled
  refine ⟨graph, done, serves.cleanup_ends, (Reduces.cleanup graph).length serves, ?_, ?_,
    settled.cleanup⟩
  · refine settled.normal remains.serves.sound fun phi merge attached => ?_
    obtain ⟨number, site, found, given, -⟩ :=
      (attached_iff holds).mp (remains.attached _ _ attached)
    obtain ⟨kind, known⟩ := remains.serves.sound.live_source attached
    have was := (Reduces.cleanup graph).kindOf? serves known
    rw [kindOf?_input holds found given] at was
    rw [known, was]
  · intro id index name known
    rw [remains.serves.instruction, ← serves.instruction]
    exact known

/-- The first sweep leaves a merge without phis behind it, which takes a second sweep. -/
theorem cleanup_ends_in_normal_form_handedOn :
    BlockGraph.build handedOn = .ok (.ofCode handedOn) ∧ ∃ flow graph,
      FlowGraph.build (.ofCode handedOn) = .ok flow ∧ assemble flow = .ok graph ∧
      graph.sweep.1 = 3 ∧ graph.cleanup.1 = 4 ∧ graph.nodes.length = 16 ∧
      graph.cleanup.2.nodes.length = 12 ∧ graph.cleanup.2.Normal ∧
      graph.cleanup.2.cleanup = (0, graph.cleanup.2) := by
  have built : BlockGraph.build handedOn = .ok (.ofCode handedOn) := rfl
  obtain ⟨flow, -, accepted, -⟩ := exists_build_handedOn
  obtain ⟨graph, done, -, gone, normal, -, again⟩ := cleanup_ends_in_normal_form built accepted
  have counted : (FlowGraph.build (.ofCode handedOn) >>= assemble).toOption.any (fun graph =>
      graph.sweep.1 = 3 ∧ graph.cleanup.1 = 4 ∧ graph.nodes.length = 16) = true := by
    decide +kernel
  simp only [accepted, bind, Except.bind, done, Except.toOption, Option.any_some,
    decide_eq_true_eq] at counted
  obtain ⟨swept, removed, size⟩ := counted
  exact ⟨built, flow, graph, accepted, done, swept, removed, size, by omega, normal, again⟩

end StackCode.ValueGraph
