import Mathlib.Tactic.ByContra
import StackCode.Graph.Nodes

/-!
# Nodes and their edges

A value graph is sound if numbers and slots agree, every edge stands in the
lists of both its ends equally often, and no edge leads from a node to itself.
Each operation keeps a graph sound, and says what it does to the kind and to the
edges of every node.
-/

namespace StackCode.ValueGraph

def kindOf? (graph : ValueGraph) (id : Nat) : Option NodeKind :=
  (graph.node? id).map Node.kind

def insOf (graph : ValueGraph) (id : Nat) : List Edge :=
  ((graph.node? id).map Node.ins).getD []

def outsOf (graph : ValueGraph) (id : Nat) : List Edge :=
  ((graph.node? id).map Node.outs).getD []

/-- One of the two lists of edges that a node keeps. -/
inductive Side where
  | ins
  | outs

namespace Side

def edges : Side → Node → List Edge
  | .ins => Node.ins
  | .outs => Node.outs

/-- The end of an edge at the node that lists it on this side. -/
def near : Side → Edge → Nat
  | .ins => Edge.target
  | .outs => Edge.source

/-- The end at the node that lists it on the other side. -/
def far : Side → Edge → Nat
  | .ins => Edge.source
  | .outs => Edge.target

def opposite : Side → Side
  | .ins => .outs
  | .outs => .ins

end Side

/-- The edges that a node lists on a side; `insOf` and `outsOf` are its two cases. -/
def edgesOf (graph : ValueGraph) (side : Side) (id : Nat) : List Edge :=
  ((graph.node? id).map side.edges).getD []

def Live (graph : ValueGraph) (id : Nat) : Prop :=
  ∃ kind, graph.kindOf? id = some kind

theorem live_iff {graph : ValueGraph} {id : Nat} :
    graph.Live id ↔ ∃ node, graph.node? id = some node := by
  simp only [Live, kindOf?, Option.map_eq_some_iff]
  constructor
  · rintro ⟨kind, node, found, -⟩
    exact ⟨node, found⟩
  · rintro ⟨node, found⟩
    exact ⟨node.kind, node, found, rfl⟩

/-- Numbers and slots agree. -/
structure Indexed (graph : ValueGraph) : Prop where
  stored : ∀ id slot, graph.index.get? id = some slot →
    ∃ node, graph.nodeAt? slot = some node ∧ node.id = id
  named : ∀ slot node, graph.nodeAt? slot = some node → graph.index.get? node.id = some slot

/-- Both ends of an edge list it, and they are different nodes. -/
structure Sound (graph : ValueGraph) : Prop extends graph.Indexed where
  incoming : ∀ id, ∀ edge ∈ graph.insOf id, edge.target = id ∧ edge.source ≠ id
  outgoing : ∀ id, ∀ edge ∈ graph.outsOf id, edge.source = id
  mirrored : ∀ edge, (graph.outsOf edge.source).count edge = (graph.insOf edge.target).count edge

variable {graph : ValueGraph}

theorem Indexed.node?_eq_some_iff (indexed : graph.Indexed) {id : Nat} {node : Node} :
    graph.node? id = some node ↔ (∃ slot, graph.nodeAt? slot = some node) ∧ node.id = id := by
  simp only [node?, Option.bind_eq_bind, Option.bind_eq_some_iff]
  constructor
  · rintro ⟨slot, indexed', found⟩
    obtain ⟨other, found', rfl⟩ := indexed.stored id slot indexed'
    obtain rfl := Option.some.inj (found.symm.trans found')
    exact ⟨⟨slot, found⟩, rfl⟩
  · rintro ⟨⟨slot, found⟩, rfl⟩
    exact ⟨slot, indexed.named slot node found, found⟩

theorem Sound.mem_iff (sound : graph.Sound) {edge : Edge} :
    edge ∈ graph.outsOf edge.source ↔ edge ∈ graph.insOf edge.target := by
  rw [← List.count_pos_iff, ← List.count_pos_iff, sound.mirrored]

theorem live_of_mem_edgesOf (side : Side) {id : Nat} {edge : Edge}
    (listed : edge ∈ graph.edgesOf side id) : graph.Live id := by
  unfold edgesOf at listed
  cases found : graph.node? id with
  | none =>
      rw [found] at listed
      cases listed
  | some node => exact live_iff.mpr ⟨node, found⟩

theorem edgesOf_eq_nil {side : Side} {id : Nat} (dead : ¬ graph.Live id) :
    graph.edgesOf side id = [] :=
  List.eq_nil_iff_forall_not_mem.mpr fun _ listed => dead (live_of_mem_edgesOf side listed)

theorem live_of_mem_insOf {id : Nat} {edge : Edge} (listed : edge ∈ graph.insOf id) :
    graph.Live id :=
  live_of_mem_edgesOf .ins listed

theorem live_of_mem_outsOf {id : Nat} {edge : Edge} (listed : edge ∈ graph.outsOf id) :
    graph.Live id :=
  live_of_mem_edgesOf .outs listed

/-- What is listed on one side is listed by the node at the far end on the other. -/
theorem Sound.mem_edgesOf (sound : graph.Sound) (side : Side) {id : Nat} {edge : Edge}
    (listed : edge ∈ graph.edgesOf side id) :
    side.near edge = id ∧ edge ∈ graph.edgesOf side.opposite (side.far edge) := by
  cases side with
  | ins =>
      obtain ⟨rfl, -⟩ := sound.incoming id edge listed
      exact ⟨rfl, sound.mem_iff.mpr listed⟩
  | outs =>
      obtain rfl := sound.outgoing id edge listed
      exact ⟨rfl, sound.mem_iff.mp listed⟩

theorem Sound.live_source (sound : graph.Sound) {id : Nat} {edge : Edge}
    (listed : edge ∈ graph.insOf id) : graph.Live edge.source :=
  live_of_mem_outsOf (sound.mem_edgesOf .ins listed).2

/-- An edge that a node lists as its own is listed where it ends. -/
theorem Sound.mem_insOf (sound : graph.Sound) {id : Nat} {edge : Edge}
    (listed : edge ∈ graph.outsOf id) : edge.source = id ∧ edge ∈ graph.insOf edge.target :=
  sound.mem_edgesOf .outs listed

theorem Sound.live_target (sound : graph.Sound) {id : Nat} {edge : Edge}
    (listed : edge ∈ graph.outsOf id) : graph.Live edge.target :=
  live_of_mem_insOf (sound.mem_insOf listed).2

/-- Where control starts says nothing about nodes and edges. -/
theorem Sound.withStart (sound : graph.Sound) (start : Nat) :
    ({ graph with start } : ValueGraph).Sound :=
  ⟨⟨sound.stored, sound.named⟩, sound.incoming, sound.outgoing, sound.mirrored⟩

/-! ## Changing one node -/

section Modify

variable (indexed : graph.Indexed) (id : Nat) {change : Node → Node}

theorem nodeAt?_modify (slot other : Nat) (slots : Array (Option Node)) :
    (slots.modify slot (Option.map change))[other]?.join =
      if other = slot then slots[other]?.join.map change else slots[other]?.join := by
  rw [Array.getElem?_modify]
  by_cases same : slot = other
  · rw [if_pos same, if_pos same.symm]
    cases slots[other]? <;> rfl
  · rw [if_neg same, if_neg (Ne.symm same)]

include indexed

theorem node?_modifyNode (other : Nat) :
    (graph.modifyNode id change).node? other =
      if other = id then (graph.node? other).map change else graph.node? other := by
  unfold modifyNode
  cases found : graph.index.get? id with
  | none =>
      by_cases same : other = id
      · simp [node?, same, found]
      · rw [if_neg same]
  | some slot =>
      simp only [node?, nodeAt?, Option.bind_eq_bind, nodeAt?_modify]
      by_cases same : other = id
      · simp [same, found]
      · rw [if_neg same]
        cases found' : graph.index.get? other with
        | none => rfl
        | some slot' =>
            -- two numbers with one slot would be the number of one node
            have apart : slot' ≠ slot := by
              rintro rfl
              obtain ⟨node, held, rfl⟩ := indexed.stored id slot' found
              obtain ⟨node', held', rfl⟩ := indexed.stored other slot' found'
              exact same (congrArg Node.id (Option.some.inj (held'.symm.trans held)))
            simp [apart]

theorem Indexed.modifyNode (keeps : ∀ node, (change node).id = node.id) :
    (graph.modifyNode id change).Indexed := by
  unfold ValueGraph.modifyNode
  cases found : graph.index.get? id with
  | none => exact indexed
  | some slot =>
      constructor
      · intro other slot' held
        obtain ⟨node, stored, rfl⟩ := indexed.stored other slot' held
        simp only [nodeAt?, nodeAt?_modify]
        by_cases same : slot' = slot
        · refine ⟨change node, ?_, keeps node⟩
          rw [if_pos same, show graph.slots[slot']?.join = some node from stored]
          rfl
        · exact ⟨node, by rw [if_neg same]; exact stored, rfl⟩
      · intro slot' node held
        simp only [nodeAt?, nodeAt?_modify] at held
        split at held
        · obtain ⟨before, stored, rfl⟩ := Option.map_eq_some_iff.mp held
          rw [keeps]
          exact indexed.named slot' before stored
        · exact indexed.named slot' node held

end Modify

/-! ## New nodes -/

section AddNode

theorem nodeAt?_addNode (graph : ValueGraph) (id : Nat) (kind : NodeKind) (slot : Nat) :
    (graph.addNode id kind).nodeAt? slot =
      if slot = graph.slots.size then some ⟨id, kind, [], []⟩ else graph.nodeAt? slot := by
  simp only [addNode, nodeAt?, Array.getElem?_push]
  split <;> rfl

theorem slot_lt {slot : Nat} {node : Node} (stored : graph.nodeAt? slot = some node) :
    slot < graph.slots.size := by
  by_contra outside
  rw [nodeAt?, Array.getElem?_eq_none (Nat.le_of_not_lt outside)] at stored
  cases stored

variable (sound : graph.Sound) {id : Nat} (kind : NodeKind)
include sound

theorem node?_addNode (other : Nat) :
    (graph.addNode id kind).node? other =
      if other = id then some ⟨id, kind, [], []⟩ else graph.node? other := by
  have index : (graph.addNode id kind).index = graph.index.insert id graph.slots.size := rfl
  simp only [node?, Option.bind_eq_bind, index, Table.get?_insert, nodeAt?_addNode]
  by_cases same : other = id
  · simp [same]
  · rw [if_neg same, if_neg same]
    cases found : graph.index.get? other with
    | none => rfl
    | some slot =>
        obtain ⟨node, stored, -⟩ := sound.stored other slot found
        simp [Nat.ne_of_lt (slot_lt stored)]

theorem kindOf?_addNode (other : Nat) :
    (graph.addNode id kind).kindOf? other =
      if other = id then some kind else graph.kindOf? other := by
  rw [kindOf?, node?_addNode sound kind]
  split <;> rfl

variable (fresh : ¬ graph.Live id)
include fresh

theorem edgesOf_addNode (side : Side) (other : Nat) :
    (graph.addNode id kind).edgesOf side other = graph.edgesOf side other := by
  rw [edgesOf, node?_addNode sound kind]
  by_cases same : other = id
  · rw [if_pos same, edgesOf_eq_nil (same ▸ fresh)]
    cases side <;> rfl
  · rw [if_neg same, edgesOf]

theorem insOf_addNode (other : Nat) : (graph.addNode id kind).insOf other = graph.insOf other :=
  edgesOf_addNode sound kind fresh .ins other

theorem outsOf_addNode (other : Nat) :
    (graph.addNode id kind).outsOf other = graph.outsOf other :=
  edgesOf_addNode sound kind fresh .outs other

theorem Sound.addNode : (graph.addNode id kind).Sound where
  stored other slot held := by
    have held : (graph.index.insert id graph.slots.size).get? other = some slot := held
    rw [Table.get?_insert] at held
    rw [nodeAt?_addNode]
    split at held
    · rename_i same
      obtain rfl := Option.some.inj held
      exact ⟨_, if_pos rfl, same.symm⟩
    · obtain ⟨node, stored, named⟩ := sound.stored other slot held
      exact ⟨node, by rw [if_neg (Nat.ne_of_lt (slot_lt stored)), stored], named⟩
  named slot node held := by
    rw [nodeAt?_addNode] at held
    have index : (graph.addNode id kind).index = graph.index.insert id graph.slots.size := rfl
    rw [index, Table.get?_insert]
    split at held
    · rename_i last
      obtain rfl := Option.some.inj held
      rw [if_pos rfl, last]
    · have known := sound.named slot node held
      have other : node.id ≠ id := by
        rintro rfl
        exact fresh (live_iff.mpr ⟨node, sound.node?_eq_some_iff.mpr ⟨⟨slot, held⟩, rfl⟩⟩)
      rw [if_neg other, known]
  incoming other edge listed := by
    rw [insOf_addNode sound kind fresh] at listed
    exact sound.incoming other edge listed
  outgoing other edge listed := by
    rw [outsOf_addNode sound kind fresh] at listed
    exact sound.outgoing other edge listed
  mirrored edge := by
    rw [insOf_addNode sound kind fresh, outsOf_addNode sound kind fresh]
    exact sound.mirrored edge

end AddNode

/-! ## New edges -/

section Connect

variable (sound : graph.Sound) {source target : Nat} (kind : EdgeKind)

/-- The edge that connecting two nodes adds; none leads from a node to itself. -/
def link (source target : Nat) (kind : EdgeKind) : List Edge :=
  if source = target then [] else [⟨source, target, kind⟩]

include sound

theorem node?_connect (other : Nat) :
    (graph.connect source target kind).node? other =
      (graph.node? other).map fun node =>
        { node with
          ins := node.ins ++ if other = target then link source target kind else []
          outs := node.outs ++ if other = source then link source target kind else [] } := by
  unfold connect link
  by_cases same : source = target
  · simp [same]
  · simp only [same, if_false]
    rw [node?_modifyNode (sound.toIndexed.modifyNode source fun node => by rfl),
      node?_modifyNode sound.toIndexed]
    rcases Decidable.em (other = target) with rfl | elsewhere
    · have apart : ¬ other = source := fun equal => same equal.symm
      simp [apart]
    · rcases Decidable.em (other = source) with rfl | away
      · simp [elsewhere]
      · simp [elsewhere, away]

theorem kindOf?_connect (other : Nat) :
    (graph.connect source target kind).kindOf? other = graph.kindOf? other := by
  rw [kindOf?, node?_connect sound, Option.map_map]
  rfl

theorem edgesOf_connect (side : Side) (live : graph.Live (side.near ⟨source, target, kind⟩))
    (other : Nat) : (graph.connect source target kind).edgesOf side other =
      graph.edgesOf side other ++
        if other = side.near ⟨source, target, kind⟩ then link source target kind else [] := by
  rw [edgesOf, node?_connect sound, edgesOf]
  cases found : graph.node? other with
  | none =>
      obtain ⟨node, found'⟩ := live_iff.mp live
      have away : other ≠ side.near ⟨source, target, kind⟩ := by
        rintro rfl
        rw [found] at found'
        cases found'
      simp [away]
  | some node => cases side <;> rfl

theorem insOf_connect (live : graph.Live target) (other : Nat) :
    (graph.connect source target kind).insOf other =
      graph.insOf other ++ if other = target then link source target kind else [] :=
  edgesOf_connect sound kind .ins live other

theorem outsOf_connect (live : graph.Live source) (other : Nat) :
    (graph.connect source target kind).outsOf other =
      graph.outsOf other ++ if other = source then link source target kind else [] :=
  edgesOf_connect sound kind .outs live other

omit sound in
theorem mem_link {edge : Edge} :
    edge ∈ link source target kind ↔ source ≠ target ∧ edge = ⟨source, target, kind⟩ := by
  unfold link
  split
  · rename_i same
    simp [same]
  · rename_i apart
    simp [apart]

theorem Sound.connect (liveSource : graph.Live source) (liveTarget : graph.Live target) :
    (graph.connect source target kind).Sound where
  toIndexed := by
    unfold ValueGraph.connect
    split
    · exact sound.toIndexed
    · exact (sound.toIndexed.modifyNode source fun node => by rfl).modifyNode target
        fun node => by rfl
  incoming other edge listed := by
    rw [insOf_connect sound kind liveTarget] at listed
    rcases List.mem_append.mp listed with old | new
    · exact sound.incoming other edge old
    · split at new
      · rename_i same
        obtain ⟨apart, rfl⟩ := (mem_link kind).mp new
        exact ⟨same.symm, same ▸ apart⟩
      · cases new
  outgoing other edge listed := by
    rw [outsOf_connect sound kind liveSource] at listed
    rcases List.mem_append.mp listed with old | new
    · exact sound.outgoing other edge old
    · split at new
      · rename_i same
        obtain ⟨-, rfl⟩ := (mem_link kind).mp new
        exact same.symm
      · cases new
  mirrored edge := by
    rw [insOf_connect sound kind liveTarget, outsOf_connect sound kind liveSource,
      List.count_append, List.count_append, sound.mirrored]
    congr 1
    by_cases added : edge ∈ link source target kind
    · obtain ⟨-, rfl⟩ := (mem_link kind).mp added
      simp
    · have absent (condition : Prop) [Decidable condition] :
          (if condition then link source target kind else []).count edge = 0 := by
        split
        · exact List.count_eq_zero.mpr added
        · rfl
      rw [absent, absent]

end Connect

end StackCode.ValueGraph
