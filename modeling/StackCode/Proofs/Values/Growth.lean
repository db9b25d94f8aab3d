import StackCode.Graph.Values
import StackCode.Proofs.Values.Nodes

/-!
# Graphs under assembly

While a value graph is assembled it only grows.  What it holds is said by a list
of nodes and a list of edges, to which every step of the assembly appends.  An
edge that would lead from a node to itself is left out.
-/

namespace StackCode.ValueGraph

/-- The graph has these nodes and these edges, and its next number is free. -/
structure Holds (graph : ValueGraph) (flow : FlowGraph) (next : Nat)
    (nodes : List (Nat × NodeKind)) (edges : List Edge) : Prop where
  flow_eq : graph.flow = flow
  next_eq : graph.next = next
  sound : graph.Sound
  bounded : ∀ entry ∈ nodes, entry.1 < next
  kinds : ∀ id kind, graph.kindOf? id = some kind ↔ (id, kind) ∈ nodes
  ins : ∀ id, graph.insOf id = edges.filter fun edge => edge.target = id

theorem length_le_firstSynthetic (instructions : Nat) :
    instructions ≤ firstSynthetic instructions := by
  unfold firstSynthetic
  omega

def Numbered (nodes : List (Nat × NodeKind)) (id : Nat) : Prop :=
  ∃ kind, (id, kind) ∈ nodes

theorem Numbered.append {first : List (Nat × NodeKind)} {id : Nat} (numbered : Numbered first id)
    (second : List (Nat × NodeKind)) : Numbered (first ++ second) id := by
  obtain ⟨kind, listed⟩ := numbered
  exact ⟨kind, List.mem_append_left second listed⟩

def proper (edges : List Edge) : List Edge :=
  edges.filter fun edge => edge.source ≠ edge.target

theorem proper_append (first second : List Edge) :
    proper (first ++ second) = proper first ++ proper second :=
  List.filter_append ..

theorem proper_cons (edge : Edge) (rest : List Edge) :
    proper (edge :: rest) = link edge.source edge.target edge.kind ++ proper rest := by
  unfold proper link
  by_cases same : edge.source = edge.target
  · simp [same]
  · simp [same]

theorem mem_proper {edge : Edge} {edges : List Edge} :
    edge ∈ proper edges ↔ edge ∈ edges ∧ edge.source ≠ edge.target := by
  simp [proper]

def connectEach (graph : ValueGraph) (edges : List Edge) : ValueGraph :=
  edges.foldl (fun graph edge => graph.connect edge.source edge.target edge.kind) graph

theorem connectEach_append (graph : ValueGraph) (first second : List Edge) :
    graph.connectEach (first ++ second) = (graph.connectEach first).connectEach second :=
  List.foldl_append

@[simp]
theorem flow_modifyNode (graph : ValueGraph) (id : Nat) (change : Node → Node) :
    (graph.modifyNode id change).flow = graph.flow := by
  unfold modifyNode
  split <;> rfl

@[simp]
theorem next_modifyNode (graph : ValueGraph) (id : Nat) (change : Node → Node) :
    (graph.modifyNode id change).next = graph.next := by
  unfold modifyNode
  split <;> rfl

@[simp]
theorem flow_connect (graph : ValueGraph) (source target : Nat) (kind : EdgeKind) :
    (graph.connect source target kind).flow = graph.flow := by
  unfold connect
  split <;> simp

@[simp]
theorem next_connect (graph : ValueGraph) (source target : Nat) (kind : EdgeKind) :
    (graph.connect source target kind).next = graph.next := by
  unfold connect
  split <;> simp

/-- What no step changes is the same after all steps. -/
theorem foldl_unchanged {α : Type} {view : ValueGraph → α}
    {change : ValueGraph → Edge → ValueGraph}
    (keeps : ∀ graph edge, view (change graph edge) = view graph) (edges : List Edge)
    (graph : ValueGraph) : view (edges.foldl change graph) = view graph := by
  induction edges generalizing graph with
  | nil => rfl
  | cons edge rest ih => rw [List.foldl_cons, ih, keeps]

@[simp]
theorem flow_connectEach (graph : ValueGraph) (edges : List Edge) :
    (graph.connectEach edges).flow = graph.flow :=
  foldl_unchanged (fun graph edge => flow_connect graph edge.source edge.target edge.kind) ..

@[simp]
theorem next_connectEach (graph : ValueGraph) (edges : List Edge) :
    (graph.connectEach edges).next = graph.next :=
  foldl_unchanged (fun graph edge => next_connect graph edge.source edge.target edge.kind) ..

/-- Adding edges between nodes adds them to the edges of their ends, and does nothing else. -/
theorem Sound.connectEach {graph : ValueGraph} (sound : graph.Sound) {wanted : List Edge}
    (ends : ∀ edge ∈ wanted, graph.Live edge.source ∧ graph.Live edge.target) :
    (graph.connectEach wanted).Sound ∧
    (∀ id, (graph.connectEach wanted).kindOf? id = graph.kindOf? id) ∧
    ∀ id, (graph.connectEach wanted).insOf id =
      graph.insOf id ++ (proper wanted).filter fun edge => edge.target = id := by
  induction wanted generalizing graph with
  | nil => exact ⟨sound, fun id => rfl, fun id => (List.append_nil _).symm⟩
  | cons edge rest ih =>
      obtain ⟨⟨source, target⟩, others⟩ := List.forall_mem_cons.mp ends
      have kinds (id : Nat) :
          (graph.connect edge.source edge.target edge.kind).kindOf? id = graph.kindOf? id :=
        kindOf?_connect sound edge.kind id
      have live (id : Nat) (live : graph.Live id) :
          (graph.connect edge.source edge.target edge.kind).Live id := by
        simpa only [Live, kinds] using live
      obtain ⟨sound', kinds', ins'⟩ := ih (sound.connect edge.kind source target)
        fun edge listed => ⟨live _ (others edge listed).1, live _ (others edge listed).2⟩
      refine ⟨sound', fun id => (kinds' id).trans (kinds id), fun id => (ins' id).trans ?_⟩
      rw [insOf_connect sound edge.kind target, proper_cons, List.filter_append, List.append_assoc]
      congr 2
      unfold link
      by_cases same : edge.source = edge.target
      · simp [same]
      · by_cases here : id = edge.target <;> simp [same, here, eq_comm]

namespace Holds

variable {graph : ValueGraph} {flow : FlowGraph} {next : Nat} {nodes : List (Nat × NodeKind)}
  {edges : List Edge} (holds : graph.Holds flow next nodes edges)

theorem empty (flow : FlowGraph) :
    (ValueGraph.empty flow).Holds flow (firstSynthetic flow.graph.code.length) [] [] where
  flow_eq := rfl
  next_eq := rfl
  sound := {
    stored := fun id slot held => by cases held
    named := fun slot node held => by simp [ValueGraph.empty, nodeAt?] at held
    incoming := fun id edge listed => by cases listed
    outgoing := fun id edge listed => by cases listed
    mirrored := fun edge => rfl }
  bounded := by simp
  kinds := by simp [kindOf?, node?, ValueGraph.empty]
  ins _ := rfl

include holds

theorem live_iff {id : Nat} : graph.Live id ↔ Numbered nodes id := by
  simp only [Live, Numbered, holds.kinds]

/-- A node with a free number may be added, and the next number be raised. -/
theorem extend {id next' : Nat} (kind : NodeKind) (fresh : ¬ Numbered nodes id)
    (below : id < next') (raised : next ≤ next') :
    ({ graph.addNode id kind with next := next' } : ValueGraph).Holds flow next'
      (nodes ++ [(id, kind)]) edges where
  flow_eq := holds.flow_eq
  next_eq := rfl
  sound :=
    let sound := holds.sound.addNode kind (mt holds.live_iff.mp fresh)
    ⟨⟨sound.stored, sound.named⟩, sound.incoming, sound.outgoing, sound.mirrored⟩
  bounded entry listed := by
    rcases List.mem_append.mp listed with old | new
    · exact Nat.lt_of_lt_of_le (holds.bounded entry old) raised
    · obtain rfl := List.mem_singleton.mp new
      exact below
  kinds other kind' := by
    show (graph.addNode id kind).kindOf? other = some kind' ↔ _
    rw [kindOf?_addNode holds.sound kind]
    split
    · rename_i same
      subst same
      have absent : (other, kind') ∉ nodes := fun listed => fresh ⟨kind', listed⟩
      simp [absent, eq_comm]
    · rename_i away
      simp [holds.kinds, away]
  ins other := by
    have ins := insOf_addNode holds.sound kind (mt holds.live_iff.mp fresh) other
    exact ins.trans (holds.ins other)

theorem addNode {id : Nat} (kind : NodeKind) (fresh : ¬ Numbered nodes id) (below : id < next) :
    (graph.addNode id kind).Holds flow next (nodes ++ [(id, kind)]) edges := by
  have extended := holds.extend kind fresh below (Nat.le_refl next)
  have same : ({ graph.addNode id kind with next := next } : ValueGraph) =
      graph.addNode id kind := by
    rw [← holds.next_eq]
    rfl
  rwa [same] at extended

theorem addSynthetic (kind : NodeKind) :
    (graph.addSynthetic kind).1 = next ∧
      (graph.addSynthetic kind).2.Holds flow (next + 1) (nodes ++ [(next, kind)]) edges := by
  have fresh : ¬ Numbered nodes next := by
    rintro ⟨other, listed⟩
    exact Nat.lt_irrefl next (holds.bounded _ listed)
  unfold ValueGraph.addSynthetic
  rw [holds.next_eq]
  exact ⟨rfl, holds.extend kind fresh (Nat.lt_succ_self next) (Nat.le_succ next)⟩

theorem connectEach {wanted : List Edge}
    (ends : ∀ edge ∈ wanted, Numbered nodes edge.source ∧ Numbered nodes edge.target) :
    (graph.connectEach wanted).Holds flow next nodes (edges ++ proper wanted) := by
  obtain ⟨sound, kinds, ins⟩ := holds.sound.connectEach fun edge listed =>
    ⟨holds.live_iff.mpr (ends edge listed).1, holds.live_iff.mpr (ends edge listed).2⟩
  exact {
    flow_eq := by rw [flow_connectEach, holds.flow_eq]
    next_eq := by rw [next_connectEach, holds.next_eq]
    sound
    bounded := holds.bounded
    kinds := fun id kind => by rw [kinds, holds.kinds]
    ins := fun id => by rw [ins, holds.ins, List.filter_append] }

end Holds
end StackCode.ValueGraph
