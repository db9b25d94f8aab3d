import StackCode.Proofs.Values.Nodes

/-!
# Removing a node

Removing a node takes its edges out of the lists of its neighbours.  Nothing
else changes, and the graph stays sound.
-/

namespace StackCode.ValueGraph

variable {graph : ValueGraph}

/-- The same change to several nodes, made at most once for each of them in effect. -/
theorem node?_foldl_modifyNode {change : Node → Node} (keeps : ∀ node, (change node).id = node.id)
    (once : ∀ node, change (change node) = change node) (key : Edge → Nat) (edges : List Edge)
    {graph : ValueGraph} (indexed : graph.Indexed) :
    (edges.foldl (fun graph edge => graph.modifyNode (key edge) change) graph).Indexed ∧
    ∀ other, (edges.foldl (fun graph edge => graph.modifyNode (key edge) change) graph).node?
        other =
      (graph.node? other).map fun node =>
        if ∃ edge ∈ edges, key edge = other then change node else node := by
  induction edges generalizing graph with
  | nil => simp [indexed]
  | cons edge rest ih =>
      obtain ⟨indexed', changed⟩ := ih (indexed.modifyNode (key edge) keeps)
      refine ⟨indexed', fun other => ?_⟩
      rw [List.foldl_cons, changed, node?_modifyNode indexed]
      by_cases here : other = key edge
      · rw [if_pos here, Option.map_map]
        congr 1
        funext node
        simp [here, once]
      · rw [if_neg here]
        simp [Ne.symm here]

/-- A graph without a node, of which the edges are still listed by their other ends. -/
def emptySlot (graph : ValueGraph) (id slot : Nat) : ValueGraph :=
  { graph with index := graph.index.erase id, slots := graph.slots.set! slot none }

theorem nodeAt?_emptySlot (graph : ValueGraph) (id slot other : Nat) :
    (graph.emptySlot id slot).nodeAt? other =
      if other = slot then none else graph.nodeAt? other := by
  simp only [emptySlot, nodeAt?, Array.set!_eq_setIfInBounds, Array.getElem?_setIfInBounds]
  by_cases same : slot = other
  · rw [if_pos same, if_pos same.symm]
    split <;> rfl
  · rw [if_neg same, if_neg (Ne.symm same)]

section EmptySlot

variable (indexed : graph.Indexed) {id slot : Nat} (found : graph.index.get? id = some slot)
include indexed found

theorem Indexed.emptySlot : (graph.emptySlot id slot).Indexed where
  stored other slot' held := by
    have held : (graph.index.erase id).get? other = some slot' := held
    rw [Table.get?_erase] at held
    split at held
    · cases held
    · rename_i away
      obtain ⟨node, stored, rfl⟩ := indexed.stored other slot' held
      refine ⟨node, ?_, rfl⟩
      rw [nodeAt?_emptySlot, if_neg, stored]
      rintro rfl
      obtain ⟨node', stored', rfl⟩ := indexed.stored id slot' found
      exact away (congrArg Node.id (Option.some.inj (stored.symm.trans stored')))
  named slot' node held := by
    rw [nodeAt?_emptySlot] at held
    split at held
    · cases held
    · rename_i away
      have index : (graph.emptySlot id slot).index = graph.index.erase id := rfl
      have known := indexed.named slot' node held
      rw [index, Table.get?_erase, if_neg, known]
      intro same
      rw [same, found] at known
      exact away (Option.some.inj known).symm

theorem node?_emptySlot (other : Nat) :
    (graph.emptySlot id slot).node? other = if other = id then none else graph.node? other := by
  have index : (graph.emptySlot id slot).index = graph.index.erase id := rfl
  simp only [node?, Option.bind_eq_bind, index, Table.get?_erase, nodeAt?_emptySlot]
  by_cases same : other = id
  · simp [same]
  · rw [if_neg same, if_neg same]
    cases found' : graph.index.get? other with
    | none => rfl
    | some slot' =>
        have apart : slot' ≠ slot := by
          rintro rfl
          obtain ⟨node, stored, rfl⟩ := indexed.stored id slot' found
          obtain ⟨node', stored', rfl⟩ := indexed.stored other slot' found'
          exact same (congrArg Node.id (Option.some.inj (stored'.symm.trans stored)))
        simp [apart]

end EmptySlot

section Remove

variable (sound : graph.Sound) {id : Nat}
include sound

/-- Without an edge between them, a node's lists are as long without the edges to the other. -/
theorem filter_edges (side : Side) {other : Nat} {node removed : Node}
    (found : graph.node? other = some node) (found' : graph.node? id = some removed)
    (none : ¬ ∃ edge ∈ side.opposite.edges removed, side.near edge = other) :
    ((side.edges node).filter fun edge => side.far edge ≠ id) = side.edges node := by
  refine List.filter_eq_self.mpr fun edge listed => decide_eq_true fun reaches => none ?_
  have near : edge ∈ graph.edgesOf side other := by
    rw [edgesOf, found]
    exact listed
  obtain ⟨same, far⟩ := sound.mem_edgesOf side near
  rw [reaches, edgesOf, found'] at far
  exact ⟨edge, far, same⟩

/-- What is left of each node, and of the agreement of numbers and slots. -/
theorem remove_spec (live : graph.Live id) :
    (graph.remove id).Indexed ∧ ∀ other, (graph.remove id).node? other =
      if other = id then none
      else (graph.node? other).map fun node =>
        { node with
          ins := node.ins.filter fun edge => edge.source ≠ id
          outs := node.outs.filter fun edge => edge.target ≠ id } := by
  obtain ⟨removed, found⟩ := live_iff.mp live
  obtain ⟨slot, held, stored⟩ :
      ∃ slot, graph.index.get? id = some slot ∧ graph.nodeAt? slot = some removed := by
    simpa only [node?, Option.bind_eq_bind, Option.bind_eq_some_iff] using found
  have unfolded : graph.remove id =
      removed.outs.foldl (dropIn · id)
        (removed.ins.foldl (dropOut · id) (graph.emptySlot id slot)) := by
    simp only [remove, held, stored, emptySlot]
  obtain ⟨indexed, outs⟩ := node?_foldl_modifyNode
    (fun node => show ({ node with
      outs := node.outs.filter fun edge => edge.target ≠ id } : Node).id = node.id from rfl)
    (fun node => by simp) Edge.source removed.ins (sound.toIndexed.emptySlot held)
  obtain ⟨indexed', ins⟩ := node?_foldl_modifyNode
    (fun node => show ({ node with
      ins := node.ins.filter fun edge => edge.source ≠ id } : Node).id = node.id from rfl)
    (fun node => by simp) Edge.target removed.outs indexed
  rw [unfolded]
  refine ⟨indexed', fun other => (ins other).trans ?_⟩
  rw [outs, node?_emptySlot sound.toIndexed held]
  by_cases same : other = id
  · simp [same]
  · rw [if_neg same, if_neg same]
    cases present : graph.node? other with
    | none => rfl
    | some node =>
        simp only [Option.map_some]
        congr 1
        -- a neighbour that is not told would have had nothing to drop
        have outs : (¬ ∃ edge ∈ removed.ins, edge.source = other) →
            (node.outs.filter fun edge => edge.target ≠ id) = node.outs :=
          filter_edges sound .outs present found
        have ins : (¬ ∃ edge ∈ removed.outs, edge.target = other) →
            (node.ins.filter fun edge => edge.source ≠ id) = node.ins :=
          filter_edges sound .ins present found
        by_cases reaches : ∃ edge ∈ removed.ins, edge.source = other
        · rw [if_pos reaches]
          by_cases reached : ∃ edge ∈ removed.outs, edge.target = other
          · rw [if_pos reached]
          · rw [if_neg reached, ins reached]
        · rw [if_neg reaches, outs reaches]
          by_cases reached : ∃ edge ∈ removed.outs, edge.target = other
          · rw [if_pos reached]
          · rw [if_neg reached, ins reached]

variable (live : graph.Live id)
include live

theorem kindOf?_remove (other : Nat) :
    (graph.remove id).kindOf? other = if other = id then none else graph.kindOf? other := by
  rw [kindOf?, (remove_spec sound live).2]
  split
  · rfl
  · rw [Option.map_map]
    rfl

theorem edgesOf_remove (side : Side) (other : Nat) :
    (graph.remove id).edgesOf side other =
      if other = id then []
      else (graph.edgesOf side other).filter fun edge => side.far edge ≠ id := by
  rw [edgesOf, (remove_spec sound live).2, edgesOf]
  split
  · rfl
  · cases graph.node? other with
    | none => rfl
    | some node => cases side <;> rfl

theorem insOf_remove (other : Nat) :
    (graph.remove id).insOf other =
      if other = id then [] else (graph.insOf other).filter fun edge => edge.source ≠ id :=
  edgesOf_remove sound live .ins other

theorem outsOf_remove (other : Nat) :
    (graph.remove id).outsOf other =
      if other = id then [] else (graph.outsOf other).filter fun edge => edge.target ≠ id :=
  edgesOf_remove sound live .outs other

theorem Sound.remove : (graph.remove id).Sound where
  toIndexed := (remove_spec sound live).1
  incoming other edge listed := by
    rw [insOf_remove sound live] at listed
    split at listed
    · cases listed
    · exact sound.incoming other edge (List.mem_filter.mp listed).1
  outgoing other edge listed := by
    rw [outsOf_remove sound live] at listed
    split at listed
    · cases listed
    · exact sound.outgoing other edge (List.mem_filter.mp listed).1
  mirrored edge := by
    rw [insOf_remove sound live, outsOf_remove sound live]
    by_cases starts : edge.source = id
    · rw [if_pos starts]
      split
      · rfl
      · rw [List.count_nil, eq_comm, List.count_eq_zero]
        simp [starts]
    · by_cases ends : edge.target = id
      · rw [if_neg starts, if_pos ends, List.count_nil, List.count_eq_zero]
        simp [ends]
      · rw [if_neg starts, if_neg ends, List.count_filter (by simp [ends]),
          List.count_filter (by simp [starts]), sound.mirrored]

end Remove

end StackCode.ValueGraph
