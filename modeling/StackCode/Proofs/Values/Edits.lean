import StackCode.Proofs.Values.Growth
import StackCode.Proofs.Values.Removal

/-!
# Edits

A value graph is only ever changed by edits: a node or an edge is added, a node is
removed, or control starts somewhere else.  An edit may be made where the nodes are
that it names, and where the number is free that it gives.  Such edits keep a graph
sound, so every graph on the way from a sound graph is sound.
-/

namespace StackCode.ValueGraph

inductive Edit where
  | node (id : Nat) (kind : NodeKind)
  | synthetic (kind : NodeKind)
  | connect (edge : Edge)
  | remove (id : Nat)
  | start (id : Nat)

def edit (graph : ValueGraph) : Edit → ValueGraph
  | .node id kind => graph.addNode id kind
  | .synthetic kind => (graph.addSynthetic kind).2
  | .connect edge => graph.connect edge.source edge.target edge.kind
  | .remove id => graph.remove id
  | .start id => { graph with start := id }

def replay (graph : ValueGraph) (edits : List Edit) : ValueGraph :=
  edits.foldl edit graph

/-- The edit may be made: what it names is there, and the number that it gives is free. -/
def Permits (graph : ValueGraph) : Edit → Prop
  | .node id _ => ¬ graph.Live id
  | .synthetic _ => ¬ graph.Live graph.next
  | .connect edge => graph.Live edge.source ∧ graph.Live edge.target
  | .remove id => graph.Live id
  | .start _ => True

def PermitsAll (graph : ValueGraph) : List Edit → Prop
  | [] => True
  | first :: rest => graph.Permits first ∧ (graph.edit first).PermitsAll rest

variable {graph : ValueGraph}

@[simp]
theorem replay_nil (graph : ValueGraph) : graph.replay [] = graph :=
  rfl

theorem replay_append (graph : ValueGraph) (first second : List Edit) :
    graph.replay (first ++ second) = (graph.replay first).replay second :=
  List.foldl_append

theorem replay_connect (graph : ValueGraph) (edges : List Edge) :
    graph.replay (edges.map .connect) = graph.connectEach edges := by
  rw [replay, connectEach, List.foldl_map]
  rfl

theorem flow_remove (graph : ValueGraph) (id : Nat) : (graph.remove id).flow = graph.flow := by
  have ins (graph : ValueGraph) (edge : Edge) : (graph.dropIn id edge).flow = graph.flow :=
    flow_modifyNode graph edge.target _
  have outs (graph : ValueGraph) (edge : Edge) : (graph.dropOut id edge).flow = graph.flow :=
    flow_modifyNode graph edge.source _
  unfold remove
  split
  · rfl
  · dsimp only
    split
    · rfl
    · rw [foldl_unchanged ins, foldl_unchanged outs]

/-- No edit is about the flow. -/
theorem flow_replay (graph : ValueGraph) (edits : List Edit) :
    (graph.replay edits).flow = graph.flow := by
  induction edits generalizing graph with
  | nil => rfl
  | cons edit rest ih =>
      refine (ih (graph.edit edit)).trans ?_
      cases edit with
      | connect edge => exact flow_connect ..
      | remove id => exact flow_remove graph id
      | node | synthetic | start => rfl

theorem next_replay_nodes (graph : ValueGraph) (nodes : List (Nat × NodeKind)) :
    (graph.replay (nodes.map fun entry => .node entry.1 entry.2)).next = graph.next := by
  induction nodes generalizing graph with
  | nil => rfl
  | cons entry rest ih => exact ih (graph.addNode entry.1 entry.2)

theorem permitsAll_append {first second : List Edit} :
    graph.PermitsAll (first ++ second) ↔
      graph.PermitsAll first ∧ (graph.replay first).PermitsAll second := by
  induction first generalizing graph with
  | nil => exact (true_and _).to_iff.symm
  | cons edit rest ih => exact (and_congr_right fun _ => ih).trans and_assoc.symm

theorem PermitsAll.take {edits : List Edit} (permits : graph.PermitsAll edits) (count : Nat) :
    graph.PermitsAll (edits.take count) := by
  rw [← List.take_append_drop count edits] at permits
  exact (permitsAll_append.mp permits).1

/-! ## Soundness -/

theorem Sound.withNext (sound : graph.Sound) (next : Nat) :
    ({ graph with next } : ValueGraph).Sound :=
  ⟨⟨sound.stored, sound.named⟩, sound.incoming, sound.outgoing, sound.mirrored⟩

theorem Sound.edit (sound : graph.Sound) {edit : Edit} (permits : graph.Permits edit) :
    (graph.edit edit).Sound := by
  cases edit with
  | node id kind => exact sound.addNode kind permits
  | synthetic kind => exact (sound.addNode kind permits).withNext (graph.next + 1)
  | connect edge => exact sound.connect edge.kind permits.1 permits.2
  | remove id => exact sound.remove permits
  | start id => exact sound.withStart id

theorem Sound.replay (sound : graph.Sound) {edits : List Edit} (permits : graph.PermitsAll edits) :
    (graph.replay edits).Sound := by
  induction edits generalizing graph with
  | nil => exact sound
  | cons edit rest ih => exact ih (sound.edit permits.1) permits.2

/-! ## What edits lead to -/

/-- The edits may all be made, and they lead to a graph of which something holds. -/
def Reaches (graph : ValueGraph) (edits : List Edit) (goal : ValueGraph → Prop) : Prop :=
  graph.PermitsAll edits ∧ goal (graph.replay edits)

theorem Reaches.append {first second : List Edit} {middle goal : ValueGraph → Prop}
    (reaches : graph.Reaches first middle)
    (further : ∀ graph, middle graph → graph.Reaches second goal) :
    graph.Reaches (first ++ second) goal := by
  obtain ⟨permits, here⟩ := further _ reaches.2
  exact ⟨permitsAll_append.mpr ⟨reaches.1, permits⟩, replay_append graph first second ▸ here⟩

theorem Sound.permits_connect (sound : graph.Sound) {edges : List Edge}
    (ends : ∀ edge ∈ edges, graph.Live edge.source ∧ graph.Live edge.target) :
    graph.PermitsAll (edges.map .connect) := by
  induction edges generalizing graph with
  | nil => trivial
  | cons edge rest ih =>
      obtain ⟨⟨source, target⟩, others⟩ := List.forall_mem_cons.mp ends
      have live (id : Nat) (live : graph.Live id) : (graph.edit (.connect edge)).Live id := by
        obtain ⟨kind, known⟩ := live
        exact ⟨kind, (kindOf?_connect sound edge.kind id).trans known⟩
      exact ⟨⟨source, target⟩, ih (sound.connect edge.kind source target) fun edge listed =>
        (others edge listed).imp (live edge.source) (live edge.target)⟩

namespace Holds

variable {flow : FlowGraph} {next : Nat} {nodes : List (Nat × NodeKind)} {edges : List Edge}
  (holds : graph.Holds flow next nodes edges)
include holds

theorem reaches_nodes {added : List (Nat × NodeKind)} (below : ∀ entry ∈ added, entry.1 < next)
    (fresh : ∀ entry ∈ added, ¬ Numbered nodes entry.1) (different : (added.map Prod.fst).Nodup) :
    graph.Reaches (added.map fun entry => .node entry.1 entry.2)
      (·.Holds flow next (nodes ++ added) edges) := by
  induction added generalizing graph nodes with
  | nil => exact ⟨trivial, (List.append_nil nodes).symm ▸ holds⟩
  | cons entry rest ih =>
      obtain ⟨low, below⟩ := List.forall_mem_cons.mp below
      obtain ⟨new, fresh⟩ := List.forall_mem_cons.mp fresh
      obtain ⟨absent, different⟩ := List.nodup_cons.mp different
      have fresh' (other : Nat × NodeKind) (listed : other ∈ rest) :
          ¬ Numbered (nodes ++ [entry]) other.1 := by
        rintro ⟨kind, mem⟩
        rcases List.mem_append.mp mem with old | added
        · exact fresh other listed ⟨kind, old⟩
        · have same := congrArg Prod.fst (List.mem_singleton.mp added)
          have again : other.1 ∈ rest.map Prod.fst := List.mem_map_of_mem listed
          exact absent (same ▸ again)
      obtain ⟨permits, grown⟩ := ih (holds.addNode entry.2 new low) below fresh' different
      rw [List.append_assoc] at grown
      exact ⟨⟨mt holds.live_iff.mp new, permits⟩, grown⟩

theorem reaches_synthetic (kind : NodeKind) :
    graph.Reaches [.synthetic kind] (·.Holds flow (next + 1) (nodes ++ [(next, kind)]) edges) := by
  have free : ¬ graph.Live graph.next := by
    rw [holds.next_eq, holds.live_iff]
    rintro ⟨other, listed⟩
    exact Nat.lt_irrefl next (holds.bounded _ listed)
  exact ⟨⟨free, trivial⟩, (holds.addSynthetic kind).2⟩

theorem reaches_connect {wanted : List Edge}
    (ends : ∀ edge ∈ wanted, Numbered nodes edge.source ∧ Numbered nodes edge.target) :
    graph.Reaches (wanted.map .connect) (·.Holds flow next nodes (edges ++ proper wanted)) := by
  refine ⟨holds.sound.permits_connect fun edge listed => ?_, ?_⟩
  · rw [holds.live_iff, holds.live_iff]
    exact ends edge listed
  · rw [replay_connect]
    exact holds.connectEach ends

end Holds
end StackCode.ValueGraph
