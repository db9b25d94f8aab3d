import StackCode.Proofs.Values.NormalForm

/-!
# Consistency

A value graph is consistent if its nodes have numbers of their own, the index leads
to exactly these, and every edge is listed as often where it starts as where it ends,
between two different nodes that are there.  The graph is built by edits: the
assembly makes them in the order of the blocks, and the cleanup as it visits the
slots.  After each of them the graph is consistent.
-/

namespace StackCode.ValueGraph

open Site

variable {graph : ValueGraph}

/-- Numbers lead to the slots of their nodes, and both ends of each edge list it alike. -/
structure Consistent (graph : ValueGraph) : Prop where
  distinct : (graph.nodes.map Node.id).Nodup
  indexed : ∀ id slot, graph.index.get? id = some slot ↔
    ∃ node, graph.nodeAt? slot = some node ∧ node.id = id
  mirrored : ∀ source ∈ graph.nodes, ∀ target ∈ graph.nodes, ∀ kind,
    source.outs.count ⟨source.id, target.id, kind⟩ =
      target.ins.count ⟨source.id, target.id, kind⟩
  owned : ∀ node ∈ graph.nodes,
    (∀ edge ∈ node.ins, edge.target = node.id) ∧ ∀ edge ∈ node.outs, edge.source = node.id
  ends : ∀ node ∈ graph.nodes, ∀ edge ∈ node.ins ++ node.outs, edge.source ≠ edge.target ∧
    (∃ source ∈ graph.nodes, source.id = edge.source) ∧
    ∃ target ∈ graph.nodes, target.id = edge.target

theorem Indexed.nodup_ids (indexed : graph.Indexed) : (graph.nodes.map Node.id).Nodup := by
  rw [List.Nodup, List.pairwise_map, nodes, List.pairwise_filterMap]
  refine List.pairwise_iff_getElem.mpr ?_
  intro first second low high before one held other held' same
  have stored (slot : Nat) (within : slot < graph.slots.toList.length) (node : Node)
      (held : graph.slots.toList[slot] = some node) : graph.nodeAt? slot = some node := by
    rw [nodeAt?, ← Array.getElem?_toList, List.getElem?_eq_getElem within, held]
    rfl
  have slot := indexed.named first one (stored first low one held)
  rw [same, indexed.named second other (stored second high other held')] at slot
  exact Nat.ne_of_gt before (Option.some.inj slot)

theorem Sound.exists_node (sound : graph.Sound) {id : Nat} (live : graph.Live id) :
    ∃ node ∈ graph.nodes, node.id = id := by
  obtain ⟨node, found⟩ := live_iff.mp live
  obtain ⟨stored, same⟩ := sound.node?_eq_some_iff.mp found
  exact ⟨node, mem_nodes.mpr stored, same⟩

theorem Sound.consistent (sound : graph.Sound) : graph.Consistent := by
  have lists (node : Node) (listed : node ∈ graph.nodes) :
      graph.insOf node.id = node.ins ∧ graph.outsOf node.id = node.outs := by
    obtain ⟨slot, stored⟩ := mem_nodes.mp listed
    exact (sound.of_nodeAt? stored).2
  refine ⟨sound.nodup_ids, fun id slot => ⟨sound.stored id slot, ?_⟩, ?_, ?_, ?_⟩
  · rintro ⟨node, stored, rfl⟩
    exact sound.named slot node stored
  · intro source listed target listed' kind
    rw [← (lists source listed).2, ← (lists target listed').1]
    exact sound.mirrored ⟨source.id, target.id, kind⟩
  · intro node listed
    rw [← (lists node listed).1, ← (lists node listed).2]
    exact ⟨fun edge given => (sound.incoming node.id edge given).1, sound.outgoing node.id⟩
  · intro node listed edge given
    have incoming : edge ∈ graph.insOf edge.target := by
      rcases List.mem_append.mp given with own | own
      · rw [← (lists node listed).1] at own
        rwa [(sound.incoming node.id edge own).1]
      · rw [← (lists node listed).2] at own
        exact (sound.mem_insOf own).2
    exact ⟨(sound.incoming _ edge incoming).2, sound.exists_node (sound.live_source incoming),
      sound.exists_node (live_of_mem_insOf incoming)⟩

/-! ## The edits of the cleanup -/

/-- Where control starts without a merge, if it started at the merge. -/
def startPast (graph : ValueGraph) (merge : Node) : Option Nat :=
  match (merge.outs.filter fun edge => edge.kind = .control).map Edge.target with
  | first :: _ => if graph.start = merge.id then some first else none
  | [] => none

/-- The edits of a rewiring: new edges, perhaps another start, and a node less. -/
def rewiringEdits (added : List Edge) (start : Option Nat) (removed : Nat) : List Edit :=
  added.map .connect ++ start.toList.map .start ++ [.remove removed]

/-- The edits that bypass a node, if it selects nothing. -/
def bypassEdits (graph : ValueGraph) (node : Node) : List Edit :=
  match node.kind with
  | .instruction .. => []
  | .phi =>
      match soleProducer? node with
      | some producer => rewiringEdits (graph.redirected node.id producer) none node.id
      | none => []
  | .merge =>
      if node.ins.any fun edge => edge.kind = .info then []
      else rewiringEdits (throughEdges node) (graph.startPast node) node.id

/-- The edits of a visit to one slot. -/
def slotEdits (graph : ValueGraph) (slot : Nat) : List Edit :=
  ((graph.nodeAt? slot).map graph.bypassEdits).getD []

/-- The edits of visits to several slots, one after the other. -/
def visitEdits : List Nat → ValueGraph → List Edit
  | [], _ => []
  | slot :: rest, graph =>
      graph.slotEdits slot ++ visitEdits rest (graph.replay (graph.slotEdits slot))

/-- The edits of sweeps, until one removes nothing. -/
def sweepsEdits : Nat → ValueGraph → List Edit
  | 0, _ => []
  | budget + 1, graph =>
      visitEdits (List.range graph.slots.size) graph ++
        if graph.sweep.1 = 0 then [] else sweepsEdits budget graph.sweep.2

/-- The edits of a cleanup. -/
def cleanupEdits (graph : ValueGraph) : List Edit :=
  sweepsEdits (graph.nodes.length + 1) graph

theorem start_connectEach (graph : ValueGraph) (edges : List Edge) :
    (graph.connectEach edges).start = graph.start := by
  have modified (graph : ValueGraph) (id : Nat) (change : Node → Node) :
      (graph.modifyNode id change).start = graph.start := by
    unfold modifyNode
    split <;> rfl
  refine foldl_unchanged (fun graph edge => ?_) ..
  unfold connect
  split
  · rfl
  · rw [modified, modified]

theorem bypassMerge_replays (graph : ValueGraph) (node : Node) :
    graph.bypassMerge node =
      graph.replay (rewiringEdits (throughEdges node) (graph.startPast node) node.id) := by
  rw [rewiringEdits, replay_append, replay_append, replay_connect]
  unfold ValueGraph.bypassMerge startPast
  dsimp only
  rw [connectAll_eq, ← throughEdges, start_connectEach]
  cases (node.outs.filter fun edge => edge.kind = .control).map Edge.target with
  | nil => rfl
  | cons first rest =>
      by_cases here : graph.start = node.id
      · simp only [here, if_true]
        rfl
      · simp only [here, if_false]
        rfl

/-- The edits of a rewiring may be made where the node and the ends of the edges are there. -/
theorem Sound.permits_rewiring (sound : graph.Sound) {id : Nat} (live : graph.Live id)
    {added : List Edge} (ends : ∀ edge ∈ added, graph.Live edge.source ∧ graph.Live edge.target)
    (start : Option Nat) : graph.PermitsAll (rewiringEdits added start id) := by
  obtain ⟨-, kinds, -⟩ := sound.connectEach ends
  have live' : (graph.connectEach added).Live id := by
    simpa only [Live, kinds] using live
  refine permitsAll_append.mpr ⟨permitsAll_append.mpr ⟨sound.permits_connect ends, ?_⟩, ?_, trivial⟩
  · cases start with
    | none => trivial
    | some start => exact ⟨trivial, trivial⟩
  · rw [replay_append, replay_connect]
    cases start <;> exact live'

/-- To bypass a node is to make edits, which may all be made. -/
theorem Sound.bypass?_replays (sound : graph.Sound) {slot : Nat} {node : Node}
    (stored : graph.nodeAt? slot = some node) :
    (graph.bypass? node).getD graph = graph.replay (graph.bypassEdits node) ∧
      graph.PermitsAll (graph.bypassEdits node) := by
  obtain ⟨known, -, -⟩ := sound.of_nodeAt? stored
  cases kind : node.kind with
  | instruction => simp [ValueGraph.bypass?, bypassEdits, kind, PermitsAll]
  | phi =>
      cases found : soleProducer? node with
      | none => simp [ValueGraph.bypass?, bypassEdits, kind, found, PermitsAll]
      | some producer =>
          have sole := sole_of_soleProducer? sound stored kind found
          have permits := sound.permits_rewiring ⟨_, known⟩ (sound.ends_redirected sole) none
          simp only [ValueGraph.bypass?, bypassEdits, kind, found, Option.map_some,
            Option.getD_some, sound.bypassPhi_eq stored]
          refine ⟨?_, permits⟩
          rw [rewiringEdits, replay_append, replay_append, replay_connect]
          rfl
  | merge =>
      have permits := sound.permits_rewiring ⟨_, known⟩ (sound.ends_throughEdges stored)
        (graph.startPast node)
      by_cases held : node.ins.any fun edge => edge.kind = .info
      · simp [ValueGraph.bypass?, bypassEdits, kind, held, PermitsAll]
      · simp only [ValueGraph.bypass?, bypassEdits, kind, held]
        exact ⟨bypassMerge_replays graph node, permits⟩

theorem Sound.sweepSlot_replays {state : Nat × ValueGraph} (sound : state.2.Sound) (slot : Nat) :
    (sweepSlot state slot).2 = state.2.replay (state.2.slotEdits slot) ∧
      state.2.PermitsAll (state.2.slotEdits slot) := by
  have swept : (sweepSlot state slot).2 =
      ((state.2.nodeAt? slot).bind state.2.bypass?).getD state.2 := by
    unfold sweepSlot
    split <;> simp [*]
  rw [swept, slotEdits]
  cases stored : state.2.nodeAt? slot with
  | none => exact ⟨rfl, trivial⟩
  | some node => exact sound.bypass?_replays stored

theorem Sound.visits_replay (slots : List Nat) {state : Nat × ValueGraph}
    (sound : state.2.Sound) :
    (slots.foldl sweepSlot state).2 = state.2.replay (visitEdits slots state.2) ∧
      state.2.PermitsAll (visitEdits slots state.2) := by
  induction slots generalizing state with
  | nil => exact ⟨rfl, trivial⟩
  | cons slot rest ih =>
      obtain ⟨swept, permits⟩ := sound.sweepSlot_replays slot
      have sound' : (sweepSlot state slot).2.Sound := swept ▸ sound.replay permits
      obtain ⟨visited, permits'⟩ := ih sound'
      rw [swept] at visited permits'
      rw [List.foldl_cons, visited, visitEdits, replay_append, permitsAll_append]
      exact ⟨rfl, permits, permits'⟩

/-- To sweep until nothing is removed is to make edits, which may all be made. -/
theorem Sound.sweeps_replay (sound : graph.Sound) (budget : Nat) :
    (sweeps budget graph).2 = graph.replay (sweepsEdits budget graph) ∧
      graph.PermitsAll (sweepsEdits budget graph) := by
  induction budget generalizing graph with
  | zero => exact ⟨rfl, trivial⟩
  | succ budget ih =>
      have visited : graph.sweep.2 = graph.replay
          (visitEdits (List.range graph.slots.size) graph) ∧ graph.PermitsAll _ :=
        Sound.visits_replay (List.range graph.slots.size) sound
      obtain ⟨swept, permits⟩ := visited
      have sound' : graph.sweep.2.Sound := swept ▸ sound.replay permits
      obtain ⟨rest_swept, rest_permits⟩ := ih sound'
      unfold sweeps sweepsEdits
      dsimp only
      rw [replay_append, permitsAll_append, ← swept]
      split
      · exact ⟨rfl, permits, trivial⟩
      · exact ⟨rest_swept, permits, rest_permits⟩

/-! ## The whole build -/

/-- A node that has to stay is not edited. -/
theorem bypassEdits_eq_nil {node : Node} (stays : graph.bypass? node = none) :
    graph.bypassEdits node = [] := by
  cases kind : node.kind with
  | instruction => simp only [bypassEdits, kind]
  | phi =>
      simp only [ValueGraph.bypass?, kind, Option.map_eq_none_iff] at stays
      simp only [bypassEdits, kind, stays]
  | merge =>
      simp only [ValueGraph.bypass?, kind] at stays
      split at stays
      · rename_i held
        simp only [bypassEdits, kind, held, if_true]
      · cases stays

theorem Settled.visitEdits_eq_nil (settled : graph.Settled) (slots : List Nat) :
    visitEdits slots graph = [] := by
  induction slots with
  | nil => rfl
  | cons slot rest ih =>
      have visited : graph.slotEdits slot = [] := by
        have stays := settled slot
        unfold slotEdits
        cases stored : graph.nodeAt? slot with
        | none => rfl
        | some node =>
            rw [stored] at stays
            exact bypassEdits_eq_nil stays
      rw [visitEdits, visited, replay_nil, ih, List.nil_append]

/-- A graph with nothing to remove is not edited. -/
theorem Settled.cleanupEdits_eq_nil (settled : graph.Settled) : graph.cleanupEdits = [] := by
  rw [cleanupEdits, sweepsEdits, settled.visitEdits_eq_nil, settled.sweep]
  rfl

/-- What was assembled is cleaned and checked, and nothing else. -/
theorem build_of_assembled {flow : FlowGraph} (assembled : assemble flow = .ok graph) :
    build flow = graph.cleanup.2.check.map fun _ => graph.cleanup.2 := by
  rw [build, assembled]
  show (graph.cleanup.2.check >>= fun _ => .ok graph.cleanup.2) = _
  generalize graph.cleanup.2 = cleaned
  cases cleaned.check <;> rfl

/--
The graph of an accepted sequence is built by edits, those of the assembly and those of
the cleanup.  It is consistent before the first of them and after each of them.  Another
cleanup edits nothing.
-/
theorem every_state_is_consistent {code : Sequence} {flow : FlowGraph} {blocks : BlockGraph}
    (built : BlockGraph.build code = .ok blocks) (accepted : FlowGraph.build blocks = .ok flow) :
    ∃ graph, assemble flow = .ok graph ∧
      (empty flow).replay (assemblyEdits flow) = graph ∧
      graph.replay graph.cleanupEdits = graph.cleanup.2 ∧
      build flow = graph.cleanup.2.check.map (fun _ => graph.cleanup.2) ∧
      graph.cleanup.2.cleanupEdits = [] ∧
      ∀ count, ((empty flow).replay
        ((assemblyEdits flow ++ graph.cleanupEdits).take count)).Consistent := by
  obtain rfl := BlockGraph.ofCode_of_build built
  obtain ⟨padded, balanced⟩ := FlowGraph.build_ok accepted
  obtain ⟨assembled, permits, next, holds⟩ := assemble_replays padded balanced
  have serves := (serves_feedsOperand padded balanced holds).toServes
  obtain ⟨cleaned, permits'⟩ := holds.sound.sweeps_replay _
  have all := permitsAll_append.mpr ⟨permits, permits'⟩
  exact ⟨_, assembled, rfl, cleaned.symm, build_of_assembled assembled,
    serves.cleanup_ends.settled.cleanupEdits_eq_nil,
    fun count => ((Holds.empty flow).sound.replay (all.take count)).consistent⟩

/-- Ten edits of the cleanup, in two sweeps, follow the thirty-six of the assembly. -/
theorem every_state_is_consistent_handedOn :
    BlockGraph.build handedOn = .ok (.ofCode handedOn) ∧ ∃ flow graph,
      FlowGraph.build (.ofCode handedOn) = .ok flow ∧ assemble flow = .ok graph ∧
      (assemblyEdits flow).length = 36 ∧ graph.cleanupEdits.length = 10 ∧
      ∀ count, ((empty flow).replay
        ((assemblyEdits flow ++ graph.cleanupEdits).take count)).Consistent := by
  have built : BlockGraph.build handedOn = .ok (.ofCode handedOn) := rfl
  obtain ⟨flow, -, accepted, -⟩ := exists_build_handedOn
  obtain ⟨graph, done, -, -, -, -, consistent⟩ := every_state_is_consistent built accepted
  have counted : (do
      let flow ← FlowGraph.build (.ofCode handedOn)
      return ((assemblyEdits flow).length, (← assemble flow).cleanupEdits.length)) =
        .ok (36, 10) := by
    decide +kernel
  simp only [accepted, bind, Except.bind, done] at counted
  obtain ⟨edits, cleaned⟩ := Prod.mk.inj (Except.ok.inj counted)
  exact ⟨built, flow, graph, accepted, done, edits, cleaned, consistent⟩

end StackCode.ValueGraph
