import Mathlib.Data.List.Nodup
import StackCode.Proofs.Values.Bypass

/-!
# Cleaned graphs

The cleanup only bypasses nodes, so the graph that is built says of every
operand of the code what supplies it, as the assembled graph did.
-/

namespace StackCode.ValueGraph

open Site

variable {graph after : ValueGraph} {code : Sequence} {supplies : Nat → Nat → Nat → Prop}

/-! ## One step -/

theorem Sound.of_nodeAt? (sound : graph.Sound) {slot : Nat} {node : Node}
    (stored : graph.nodeAt? slot = some node) :
    graph.kindOf? node.id = some node.kind ∧ graph.insOf node.id = node.ins ∧
      graph.outsOf node.id = node.outs := by
  have found := sound.node?_eq_some_iff.mpr ⟨⟨slot, stored⟩, rfl⟩
  simp [kindOf?, insOf, outsOf, found]

theorem mem_nodes {node : Node} :
    node ∈ graph.nodes ↔ ∃ slot, graph.nodeAt? slot = some node := by
  rw [nodes, List.mem_filterMap]
  simp only [id, exists_eq_right, List.mem_iff_getElem?, Array.getElem?_toList, nodeAt?,
    Option.join_eq_some_iff]

/-- An edge comes from a node. -/
theorem Sound.exists_source (sound : graph.Sound) {id : Nat} {edge : Edge}
    (listed : edge ∈ graph.insOf id) : ∃ node ∈ graph.nodes, node.id = edge.source := by
  obtain ⟨node, found⟩ := live_iff.mp (sound.live_source listed)
  obtain ⟨stored, same⟩ := sound.node?_eq_some_iff.mp found
  exact ⟨node, mem_nodes.mpr stored, same⟩

theorem sole_of_soleProducer? (sound : graph.Sound) {slot producer : Nat} {node : Node}
    (stored : graph.nodeAt? slot = some node) (phi : node.kind = .phi)
    (found : soleProducer? node = some producer) : graph.Sole node.id producer := by
  obtain ⟨kind, ins, -⟩ := sound.of_nodeAt? stored
  unfold soleProducer? at found
  split at found
  · cases found
  · rename_i first rest listed
    split at found
    · rename_i same
      obtain rfl := Option.some.inj found
      rw [List.all_eq_true] at same
      refine ⟨by rw [kind, phi], fun edge mem => ?_, first, by rw [ins, listed]; simp⟩
      rw [ins, listed] at mem
      rcases List.mem_cons.mp mem with rfl | later
      · rfl
      · exact of_decide_eq_true (same edge later)
    · cases found

theorem Sound.bypassPhi_eq (sound : graph.Sound) {slot : Nat} {node : Node}
    (stored : graph.nodeAt? slot = some node) (producer : Nat) :
    graph.bypassPhi node producer =
      (graph.connectEach (graph.redirected node.id producer)).remove node.id := by
  obtain ⟨-, -, outs⟩ := sound.of_nodeAt? stored
  rw [ValueGraph.bypassPhi, ValueGraph.connectEach, redirected, outs, List.foldl_map]

/-- The edges that replace a phi lead from its sole producer, which is there, to its consumers. -/
theorem Sound.ends_redirected (sound : graph.Sound) {phi producer : Nat}
    (sole : graph.Sole phi producer) :
    ∀ edge ∈ graph.redirected phi producer,
      graph.Live edge.source ∧ graph.Live edge.target := by
  intro edge listed
  obtain ⟨out, given, -, rfl⟩ := mem_redirected.mp listed
  obtain ⟨received, incoming⟩ := sole.nonempty
  have source := sound.live_source incoming
  have target := sound.live_target given
  exact ⟨sole.sole received incoming ▸ source, target⟩

/-- To bypass a phi is to give its consumers an edge from its sole producer instead. -/
theorem Serves.rewires_bypassPhi (serves : Serves code supplies graph) {slot producer : Nat}
    {node : Node} (stored : graph.nodeAt? slot = some node) (phi : node.kind = .phi)
    (found : soleProducer? node = some producer) :
    Rewires graph (graph.bypassPhi node producer) node.id (graph.redirected node.id producer) := by
  obtain ⟨kind, -, -⟩ := serves.sound.of_nodeAt? stored
  have sole := sole_of_soleProducer? serves.sound stored phi found
  rw [serves.sound.bypassPhi_eq stored]
  exact serves.sound.rewires ⟨_, kind⟩ (serves.sound.ends_redirected sole)
    (graph.connectEach (graph.redirected node.id producer)).start

def throughEdges (node : Node) : List Edge :=
  (node.ins.map Edge.source).flatMap fun source =>
    ((node.outs.filter fun edge => edge.kind = .control).map Edge.target).map fun target =>
      ⟨source, target, .control⟩

theorem control_of_mem_throughEdges {node : Node} {edge : Edge}
    (listed : edge ∈ throughEdges node) : edge.kind = .control := by
  obtain ⟨source, -, made⟩ := List.mem_flatMap.mp listed
  obtain ⟨target, -, rfl⟩ := List.mem_map.mp made
  rfl

theorem connectAll_eq (graph : ValueGraph) (sources targets : List Nat) (kind : EdgeKind) :
    graph.connectAll sources targets kind =
      graph.connectEach (sources.flatMap fun source =>
        targets.map fun target => ⟨source, target, kind⟩) := by
  unfold connectAll
  induction sources generalizing graph with
  | nil => rfl
  | cons source rest ih =>
      rw [List.foldl_cons, ih, List.flatMap_cons, connectEach_append]
      congr 1
      rw [connectEach, List.foldl_map]

theorem bypassMerge_eq (graph : ValueGraph) (node : Node) :
    ∃ start, graph.bypassMerge node =
      ({ graph.connectEach (throughEdges node) with start } : ValueGraph).remove node.id := by
  unfold ValueGraph.bypassMerge
  dsimp only
  rw [connectAll_eq, ← throughEdges]
  split
  · split
    · exact ⟨_, rfl⟩
    · exact ⟨_, rfl⟩
  · exact ⟨_, rfl⟩

/-- The edges that bypass a node lead from where its edges come to where its control goes. -/
theorem Serves.mem_throughEdges (serves : Serves code supplies graph) {slot : Nat} {node : Node}
    (stored : graph.nodeAt? slot = some node) {edge : Edge} :
    edge ∈ throughEdges node ↔ edge.kind = .control ∧
      (∃ incoming ∈ graph.insOf node.id, incoming.source = edge.source) ∧
      (⟨node.id, edge.target, .control⟩ : Edge) ∈ graph.insOf edge.target := by
  obtain ⟨-, ins, outs⟩ := serves.sound.of_nodeAt? stored
  rw [ins]
  constructor
  · intro listed
    obtain ⟨source, comes, made⟩ := List.mem_flatMap.mp listed
    obtain ⟨target, goes, rfl⟩ := List.mem_map.mp made
    obtain ⟨incoming, received, rfl⟩ := List.mem_map.mp comes
    obtain ⟨outgoing, given, rfl⟩ := List.mem_map.mp goes
    obtain ⟨given, control⟩ := List.mem_filter.mp given
    rw [← outs] at given
    obtain ⟨source, reaches⟩ := mem_insOf_of_mem_outsOf serves given
    refine ⟨rfl, ⟨incoming, received, rfl⟩, ?_⟩
    rw [← source, ← of_decide_eq_true control]
    exact reaches
  · rintro ⟨control, ⟨incoming, received, source⟩, reaches⟩
    have given : (⟨node.id, edge.target, .control⟩ : Edge) ∈ node.outs := by
      rw [← outs]
      exact serves.sound.mem_iff.mpr reaches
    have controls : (⟨node.id, edge.target, .control⟩ : Edge) ∈
        node.outs.filter fun edge => edge.kind = .control :=
      List.mem_filter.mpr ⟨given, decide_eq_true rfl⟩
    refine List.mem_flatMap.mpr ⟨incoming.source, List.mem_map_of_mem received, ?_⟩
    refine List.mem_map.mpr ⟨edge.target, List.mem_map.mpr ⟨_, controls, rfl⟩, ?_⟩
    rw [source, ← control]

/-- The edges that bypass a node lead from neighbours of the node to neighbours of the node. -/
theorem Sound.ends_throughEdges (sound : graph.Sound) {slot : Nat} {node : Node}
    (stored : graph.nodeAt? slot = some node) :
    ∀ edge ∈ throughEdges node, graph.Live edge.source ∧ graph.Live edge.target := by
  obtain ⟨-, ins, outs⟩ := sound.of_nodeAt? stored
  intro edge listed
  obtain ⟨source, comes, made⟩ := List.mem_flatMap.mp listed
  obtain ⟨target, goes, rfl⟩ := List.mem_map.mp made
  obtain ⟨incoming, received, rfl⟩ := List.mem_map.mp comes
  obtain ⟨outgoing, given, rfl⟩ := List.mem_map.mp goes
  have given := (List.mem_filter.mp given).1
  rw [← ins] at received
  rw [← outs] at given
  have source := sound.live_source received
  have target := sound.live_target given
  exact ⟨source, target⟩

/-- To bypass a merge is to lead control past it. -/
theorem Serves.rewires_bypassMerge (serves : Serves code supplies graph) {slot : Nat}
    {node : Node} (stored : graph.nodeAt? slot = some node) :
    Rewires graph (graph.bypassMerge node) node.id (throughEdges node) := by
  obtain ⟨kind, -, -⟩ := serves.sound.of_nodeAt? stored
  obtain ⟨start, same⟩ := bypassMerge_eq graph node
  rw [same]
  exact serves.sound.rewires ⟨_, kind⟩ (serves.sound.ends_throughEdges stored) start

/-- Where a merge is bypassed, control leads to where it led from the merge. -/
theorem Serves.fits_throughEdges (serves : Serves code supplies graph) {slot : Nat} {node : Node}
    (stored : graph.nodeAt? slot = some node) : ∀ edge ∈ throughEdges node, graph.Fits edge := by
  intro edge listed
  obtain ⟨control, -, reaches⟩ := (serves.mem_throughEdges stored).mp listed
  have fits := serves.fits _ _ reaches
  unfold Fits at fits ⊢
  rw [control]
  exact fits

/-! ## All steps -/

/-- Nodes are bypassed, one after the other; the number says how many. -/
inductive Reduces (graph : ValueGraph) : Nat → ValueGraph → Prop where
  | refl : Reduces graph 0 graph
  | step {count slot : Nat} {node : Node} {middle after : ValueGraph} :
      Reduces graph count middle → middle.nodeAt? slot = some node →
      middle.bypass? node = some after → Reduces graph (count + 1) after

namespace Reduces

variable {count more : Nat} {middle final : ValueGraph}

theorem trans (first : graph.Reduces count middle) (second : middle.Reduces more final) :
    graph.Reduces (count + more) final := by
  induction second with
  | refl => exact first
  | step _ stored done ih => exact .step ih stored done

theorem sweepSlot {state : Nat × ValueGraph} (reduces : graph.Reduces state.1 state.2)
    (slot : Nat) :
    graph.Reduces (ValueGraph.sweepSlot state slot).1 (ValueGraph.sweepSlot state slot).2 := by
  unfold ValueGraph.sweepSlot
  split
  · rename_i after done
    obtain ⟨node, stored, done⟩ := Option.bind_eq_some_iff.mp done
    exact .step reduces stored done
  · exact reduces

theorem sweep (graph : ValueGraph) : graph.Reduces graph.sweep.1 graph.sweep.2 := by
  have run (slots : List Nat) {state : Nat × ValueGraph}
      (reduces : graph.Reduces state.1 state.2) :
      graph.Reduces (slots.foldl ValueGraph.sweepSlot state).1
        (slots.foldl ValueGraph.sweepSlot state).2 := by
    induction slots generalizing state with
    | nil => exact reduces
    | cons next rest ih => exact ih (reduces.sweepSlot next)
  exact run _ .refl

theorem sweeps (budget : Nat) (graph : ValueGraph) :
    graph.Reduces (ValueGraph.sweeps budget graph).1 (ValueGraph.sweeps budget graph).2 := by
  induction budget generalizing graph with
  | zero => exact .refl
  | succ budget ih =>
      have swept := Reduces.sweep graph
      unfold ValueGraph.sweeps
      dsimp only
      split
      · rename_i nothing
        rw [nothing] at swept
        exact swept
      · exact swept.trans (ih graph.sweep.2)

theorem cleanup (graph : ValueGraph) : graph.Reduces graph.cleanup.1 graph.cleanup.2 :=
  sweeps _ graph

/-- What every bypass keeps is kept by all of them. -/
theorem keeps {property : ValueGraph → Prop}
    (one : ∀ {graph after : ValueGraph} {slot : Nat} {node : Node}, property graph →
      graph.nodeAt? slot = some node → graph.bypass? node = some after → property after)
    (reduces : graph.Reduces count final) (holds : property graph) : property final := by
  induction reduces with
  | refl => exact holds
  | step _ stored done ih => exact one ih stored done

end Reduces

/-- What every bypass keeps is kept by the cleanup. -/
theorem cleanup_keeps {property : ValueGraph → Prop}
    (keeps : ∀ {graph after : ValueGraph} {slot : Nat} {node : Node}, property graph →
      graph.nodeAt? slot = some node → graph.bypass? node = some after → property after)
    (holds : property graph) : property graph.cleanup.2 :=
  (Reduces.cleanup graph).keeps keeps holds

/-- What a bypass does: a phi is replaced by its sole producer, or control is led past a merge. -/
theorem Serves.bypass?_cases (serves : Serves code supplies graph) {slot : Nat} {node : Node}
    (stored : graph.nodeAt? slot = some node) (done : graph.bypass? node = some after) :
    (∃ producer, graph.Sole node.id producer ∧
      Rewires graph after node.id (graph.redirected node.id producer)) ∨
    graph.kindOf? node.id = some .merge ∧ (∀ edge ∈ graph.insOf node.id, edge.kind ≠ .info) ∧
      Rewires graph after node.id (throughEdges node) := by
  unfold ValueGraph.bypass? at done
  obtain ⟨kind, ins, -⟩ := serves.sound.of_nodeAt? stored
  split at done
  · cases done
  · rename_i phi
    obtain ⟨producer, found, rfl⟩ := Option.map_eq_some_iff.mp done
    exact .inl ⟨producer, sole_of_soleProducer? serves.sound stored phi found,
      serves.rewires_bypassPhi stored phi found⟩
  · rename_i merge
    split at done
    · cases done
    · rename_i free
      obtain rfl := Option.some.inj done
      refine .inr ⟨by rw [kind, merge], fun edge listed info => free ?_,
        serves.rewires_bypassMerge stored⟩
      rw [ins] at listed
      exact List.any_eq_true.mpr ⟨edge, listed, decide_eq_true info⟩

theorem Serves.bypass? (serves : Serves code supplies graph) {slot : Nat} {node : Node}
    (stored : graph.nodeAt? slot = some node) (done : graph.bypass? node = some after) :
    Serves code supplies after := by
  rcases serves.bypass?_cases stored done with ⟨producer, sole, rewires⟩ | ⟨merge, -, rewires⟩
  · exact serves.bypassed_phi sole rewires
  · exact serves.bypassed_merge rewires merge (fun _ => control_of_mem_throughEdges)
      (serves.fits_throughEdges stored)

theorem Reduces.serves {count : Nat} {final : ValueGraph} (reduces : graph.Reduces count final)
    (serves : Serves code supplies graph) : Serves code supplies final :=
  reduces.keeps (fun serves stored done => serves.bypass? stored done) serves

theorem Serves.cleanup (serves : Serves code supplies graph) :
    Serves code supplies graph.cleanup.2 :=
  (Reduces.cleanup graph).serves serves

/-! ## Checks -/

/-- Where ascending numbers part from a count, the count is missing among them. -/
theorem missing_of_mismatch {places : List Nat} {first value missing : Nat}
    (ascending : places.Pairwise (· < ·)) (above : ∀ place ∈ places, first ≤ place)
    (found : (places.zipIdx first).find? (fun entry => entry.1 ≠ entry.2) =
      some (value, missing)) :
    first ≤ missing ∧ missing < value ∧ value ∈ places ∧ missing ∉ places := by
  induction places generalizing first with
  | nil => cases found
  | cons place rest ih =>
      obtain ⟨smaller, ascending⟩ := List.pairwise_cons.mp ascending
      obtain ⟨low, _⟩ := List.forall_mem_cons.mp above
      rw [List.zipIdx_cons] at found
      by_cases aligned : place = first
      · rw [List.find?_cons_of_neg (by simp [aligned])] at found
        have behind (other : Nat) (listed : other ∈ rest) : first + 1 ≤ other := by
          have less := smaller other listed
          omega
        obtain ⟨from_next, less, listed, absent⟩ := ih ascending behind found
        refine ⟨by omega, less, List.mem_cons_of_mem _ listed, ?_⟩
        rw [List.mem_cons, not_or]
        exact ⟨by omega, absent⟩
      · rw [List.find?_cons_of_pos (by simpa using aligned)] at found
        obtain ⟨rfl, rfl⟩ := Prod.mk.inj (Option.some.inj found)
        refine ⟨Nat.le_refl _, by omega, List.mem_cons_self, ?_⟩
        intro listed
        rcases List.mem_cons.mp listed with same | later
        · exact aligned same.symm
        · have less := smaller _ later
          omega

theorem ascending_mergeSort {places : List Nat} (different : places.Nodup) :
    (places.mergeSort (· ≤ ·)).Pairwise (· < ·) := by
  have transitive (first second third : Nat) (below : decide (first ≤ second) = true)
      (above : decide (second ≤ third) = true) : decide (first ≤ third) = true :=
    decide_eq_true (Nat.le_trans (of_decide_eq_true below) (of_decide_eq_true above))
  have total (first second : Nat) :
      (decide (first ≤ second) || decide (second ≤ first)) = true := by
    simp [Nat.le_total]
  have sorted := List.pairwise_mergeSort transitive total places
  have apart : (places.mergeSort (· ≤ ·)).Nodup :=
    (List.mergeSort_perm _ _).nodup_iff.mpr different
  refine (sorted.and apart).imp ?_
  rintro first second ⟨below, distinct⟩
  exact Nat.lt_of_le_of_ne (of_decide_eq_true below) distinct

/-- A node that receives each operand at most once passes the check, or lacks an operand. -/
theorem checkNode_cases {node : Node} {count : Nat} (different : (operandPlaces node).Nodup)
    (bounded : ∀ place ∈ operandPlaces node, place < count) :
    checkNode node = .ok () ∨ ∃ missing < count, missing ∉ operandPlaces node ∧
      checkNode node = .error (.labelGap node.id missing) := by
  unfold checkNode
  split
  · exact .inl rfl
  · dsimp only
    split
    · rename_i value missing found
      obtain ⟨-, less, listed, absent⟩ :=
        missing_of_mismatch (ascending_mergeSort different) (fun _ _ => Nat.zero_le _) found
      have inside := bounded value (List.mem_mergeSort.mp listed)
      refine .inr ⟨missing, Nat.lt_trans less inside, ?_, rfl⟩
      exact fun received => absent (List.mem_mergeSort.mpr received)
    · exact .inl rfl

/-- What a node of an instruction receives are its operands. -/
theorem Serves.count_operandPlaces (serves : Serves code supplies graph) {index : Nat}
    {instruction : Instruction} {node : Node} (there : code.instruction? index = some instruction)
    (ins : graph.insOf index = node.ins) (place : Nat) :
    (operandPlaces node).count place = (graph.argumentEdges index place).length := by
  rw [operandPlaces, List.count_filterMap, ← ins, argumentEdges, ← List.countP_eq_length_filter]
  refine List.countP_congr fun edge listed => ?_
  cases kind : edge.kind with
  | control => simp
  | info => simp
  | data label =>
      obtain ⟨place', -, rfl⟩ := serves.only index instruction there edge listed label kind
      simp

theorem Serves.lt_reads (serves : Serves code supplies graph) {index : Nat}
    {instruction : Instruction} (there : code.instruction? index = some instruction) {place : Nat}
    (received : 0 < (graph.argumentEdges index place).length) : place < instruction.reads := by
  obtain ⟨edge, listed⟩ := List.exists_mem_of_length_pos received
  obtain ⟨incoming, kind⟩ := List.mem_filter.mp listed
  obtain ⟨place', within, same⟩ :=
    serves.only index instruction there edge incoming _ (of_decide_eq_true kind)
  obtain rfl := DataLabel.argument.inj same
  exact within

/-- A node of an instruction passes the check, or lacks an operand that it supplies alone. -/
theorem Serves.checkInstruction (serves : Serves code supplies graph) {index : Nat}
    {instruction : Instruction} {node : Node} (there : code.instruction? index = some instruction)
    (id : node.id = index) (ins : graph.insOf index = node.ins) :
    checkNode node = .ok () ∨ ∃ missing < instruction.reads,
      checkNode node = .error (.labelGap index missing) ∧
      graph.argumentEdges index missing = [] := by
  have counted := serves.count_operandPlaces there ins
  have bounded (place : Nat) (received : place ∈ operandPlaces node) :
      place < instruction.reads := by
    rw [← List.count_pos_iff, counted] at received
    exact serves.lt_reads there received
  have different : (operandPlaces node).Nodup := by
    refine List.nodup_iff_count_le_one.mpr fun place => ?_
    rw [counted]
    by_cases taken : place < instruction.reads
    · rcases serves.kept index instruction place there taken with ⟨edge, single, -⟩ | ⟨none, -⟩
      · simp [single]
      · simp [none]
    · have nothing : ¬0 < (graph.argumentEdges index place).length :=
        fun received => taken (serves.lt_reads there received)
      omega
  rcases checkNode_cases different bounded with passed | ⟨missing, within, absent, failed⟩
  · exact .inl passed
  · refine .inr ⟨missing, within, id ▸ failed, List.eq_nil_of_length_eq_zero ?_⟩
    rw [← counted]
    exact List.count_eq_zero.mpr absent

/-- A node that is not of an instruction passes the check. -/
theorem Serves.checkSynthetic (serves : Serves code supplies graph) {node : Node}
    (known : graph.kindOf? node.id = some node.kind) (ins : graph.insOf node.id = node.ins)
    (synthetic : ∀ index name, node.kind ≠ .instruction index name) : checkNode node = .ok () := by
  cases kind : node.kind with
  | instruction index name => exact absurd kind (synthetic index name)
  | phi => simp [checkNode, Node.isPhi, kind]
  | merge =>
      have none : operandPlaces node = [] := by
        refine List.filterMap_eq_nil_iff.mpr fun edge received => ?_
        rw [← ins] at received
        have fits := serves.fits _ edge received
        have target := (serves.sound.incoming _ edge received).1
        unfold Fits at fits
        rw [target, known, kind] at fits
        cases same : edge.kind with
        | control => rfl
        | info => rfl
        | data label =>
            rw [same] at fits
            cases label <;> simp at fits
      have different : (operandPlaces node).Nodup := by
        rw [none]
        exact List.nodup_nil
      have bounded (place : Nat) (received : place ∈ operandPlaces node) : place < 0 := by
        rw [none] at received
        cases received
      rcases checkNode_cases different bounded with passed | ⟨missing, within, -⟩
      · exact passed
      · exact absurd within (Nat.not_lt_zero missing)

/-- A graph that says what supplies the operands passes the check, or it lacks an edge. -/
theorem Serves.check_cases (serves : Serves code supplies graph) :
    graph.check = .ok () ∨ ∃ index instruction missing,
      code.instruction? index = some instruction ∧ missing < instruction.reads ∧
      graph.check = .error (.labelGap index missing) ∧ graph.argumentEdges index missing = [] := by
  rcases forM_cases graph.nodes checkNode with passed | ⟨node, listed, error, failed, same⟩
  · exact .inl passed
  · obtain ⟨slot, held⟩ := mem_nodes.mp listed
    obtain ⟨known, ins, -⟩ := serves.sound.of_nodeAt? held
    by_cases made : ∃ index name, node.kind = .instruction index name
    · obtain ⟨index, name, kind⟩ := made
      rw [kind, serves.instruction] at known
      obtain ⟨id, instruction, there, -⟩ := known
      rw [id] at ins
      rcases serves.checkInstruction there id ins with passed | ⟨missing, within, gap, none⟩
      · rw [passed] at failed
        cases failed
      · obtain rfl := Except.error.inj (gap.symm.trans failed)
        exact .inr ⟨index, instruction, missing, there, within, same, none⟩
    · rw [serves.checkSynthetic known ins fun index name kind => made ⟨index, name, kind⟩] at failed
      cases failed

/-- If no instruction supplies an operand of its own alone, no edge is missing. -/
theorem Serves.serves_all (serves : Serves code supplies graph)
    (others : ∀ index instruction place, code.instruction? index = some instruction →
      place < instruction.reads → ∃ supplier, supplier ≠ index ∧ supplies supplier index place) :
    ServesAll code supplies graph where
  toServes := serves
  operand index instruction place there taken := by
    rcases serves.kept index instruction place there taken with served | ⟨-, alone⟩
    · exact served
    · obtain ⟨supplier, other, supplied⟩ := others index instruction place there taken
      exact absurd ((alone supplier).mp supplied) other

/-- A graph in which no edge is missing passes the check. -/
theorem ServesAll.check (serves : ServesAll code supplies graph) : graph.check = .ok () := by
  rcases serves.check_cases with passed | ⟨index, instruction, missing, there, within, -, none⟩
  · exact passed
  · obtain ⟨edge, single, -⟩ := serves.operand index instruction missing there within
    rw [none] at single
    cases single

end StackCode.ValueGraph
