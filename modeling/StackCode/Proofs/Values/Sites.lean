import StackCode.Proofs.Attempts
import StackCode.Proofs.Graph.Control
import StackCode.Proofs.Values.Edits

/-!
# The piece of a block

A site is a block with the first number that is free when its piece is added.
Everything about the piece follows from that: the numbers of its merge and its
phis, its nodes, its edges, and the edits that add them.
-/

namespace StackCode

open ValueGraph

/-- A block with the first number that its merge and its phis may have. -/
structure Site where
  first : Nat
  number : Nat
  block : Block

namespace Site

variable (flow : FlowGraph) (site : Site)

def boundary : DataFlow :=
  flow.blockFlow site.number

def needsMerge : Bool :=
  1 < site.block.predecessors.length && !(site.boundary flow).ins.isEmpty

def merge : List Nat :=
  if site.needsMerge flow then [site.first] else []

def inputs : List Nat :=
  List.range' (site.first + (site.merge flow).length) (site.boundary flow).ins.length

def outputs : List Nat :=
  (site.boundary flow).outs.filterMap (outputNode? (site.boundary flow).ins (site.inputs flow))

def chain : List Nat :=
  site.merge flow ++ fixedInstructions flow.graph.code site.block

def piece : Piece where
  head := (site.chain flow).head?.getD site.block.start
  tail := (site.chain flow).getLast?.getD site.block.start
  inputs := site.inputs flow
  outputs := site.outputs flow

/-- The first number that is free afterwards. -/
def next : Nat :=
  site.first + (site.merge flow).length + (site.boundary flow).ins.length

def instructionNodes (code : Sequence) (indices : List Nat) : List (Nat × NodeKind) :=
  indices.filterMap fun index =>
    (code.instruction? index).map fun instruction =>
      (index, .instruction index instruction.nodeName)

def nodes : List (Nat × NodeKind) :=
  instructionNodes flow.graph.code site.block.indices ++
    ((site.merge flow).map fun merge => (merge, NodeKind.merge)) ++
    (site.inputs flow).map fun phi => (phi, NodeKind.phi)

def chainEdges (chain : List Nat) : List Edge :=
  (chain.zip (chain.drop 1)).map fun (first, second) => ⟨first, second, .control⟩

/-- The edges from the phi of an input to the operands that it stands for. -/
def useEdges (flow : FlowGraph) (indices : List Nat) (input : FlowRef) (phi : Nat) : List Edge :=
  indices.flatMap fun index =>
    (placesOf input (flow.instructionFlow index)).map fun place =>
      ⟨phi, index, .data (.argument place)⟩

def phiEdges (flow : FlowGraph) (indices merge : List Nat) (inputs : List (FlowRef × Nat)) :
    List Edge :=
  inputs.flatMap fun (input, phi) =>
    (merge.map fun merge => ⟨phi, merge, .info⟩) ++ useEdges flow indices input phi

def operandEdge? (index : Nat) (operand : FlowRef × Nat) : Option Edge :=
  match operand.1 with
  | .instruction producer => some ⟨producer, index, .data (.argument operand.2)⟩
  | _ => none

def operandEdges (flow : FlowGraph) (indices : List Nat) : List Edge :=
  indices.flatMap fun index =>
    (flow.instructionFlow index).ins.zipIdx.filterMap (operandEdge? index)

def edges : List Edge :=
  chainEdges (site.chain flow) ++
    phiEdges flow site.block.indices (site.merge flow)
      ((site.boundary flow).ins.zip (site.inputs flow)) ++
    operandEdges flow site.block.indices

def inputEdges (flow : FlowGraph) (indices merge : List Nat) (input : FlowRef) (phi : Nat) :
    List Edge :=
  (merge.map fun merge => ⟨phi, merge, .info⟩) ++ useEdges flow indices input phi

def phiEdits (flow : FlowGraph) (indices merge : List Nat) (inputs : List (FlowRef × Nat)) :
    List Edit :=
  inputs.flatMap fun (input, phi) =>
    .synthetic .phi :: (inputEdges flow indices merge input phi).map .connect

def edits : List Edit :=
  (instructionNodes flow.graph.code site.block.indices).map (fun entry => .node entry.1 entry.2) ++
    (site.merge flow).map (fun _ => .synthetic .merge) ++
    (chainEdges (site.chain flow)).map .connect ++
    phiEdits flow site.block.indices (site.merge flow)
      ((site.boundary flow).ins.zip (site.inputs flow)) ++
    (operandEdges flow site.block.indices).map .connect

end Site

/-! ## Nodes and ends of edges -/

namespace Site

variable {flow : FlowGraph}

theorem mem_instructionNodes {code : Sequence} {indices : List Nat} {id : Nat} {kind : NodeKind} :
    (id, kind) ∈ instructionNodes code indices ↔
      id ∈ indices ∧ ∃ instruction, code.instruction? id = some instruction ∧
        kind = .instruction id instruction.nodeName := by
  simp only [instructionNodes, List.mem_filterMap, Option.map_eq_some_iff]
  constructor
  · rintro ⟨index, inside, instruction, found, same⟩
    obtain ⟨rfl, rfl⟩ := Prod.mk.inj same
    exact ⟨inside, instruction, found, rfl⟩
  · rintro ⟨inside, instruction, found, rfl⟩
    exact ⟨id, inside, instruction, found, rfl⟩

theorem nodup_instructionNodes (code : Sequence) {indices : List Nat} (different : indices.Nodup) :
    ((instructionNodes code indices).map Prod.fst).Nodup := by
  have ids (index : Nat) (entry : Nat × NodeKind)
      (made : ((code.instruction? index).map fun instruction =>
        (index, NodeKind.instruction index instruction.nodeName)) = some entry) :
      entry.1 = index := by
    obtain ⟨instruction, -, rfl⟩ := Option.map_eq_some_iff.mp made
    rfl
  rw [List.Nodup, List.pairwise_map, instructionNodes, List.pairwise_filterMap]
  refine different.imp fun apart entry made other made' => ?_
  rwa [ids _ _ made, ids _ _ made']

theorem length_merge (site : Site) : (site.merge flow).length ≤ 1 := by
  unfold merge
  split <;> simp

/-- There is one phi for each input. -/
theorem length_inputs (site : Site) :
    (site.inputs flow).length = (site.boundary flow).ins.length :=
  List.length_range'

theorem chainEdges_ends {nodes : List (Nat × NodeKind)} {chain : List Nat}
    (linked : ∀ id ∈ chain, Numbered nodes id) :
    ∀ edge ∈ chainEdges chain, Numbered nodes edge.source ∧ Numbered nodes edge.target := by
  intro edge listed
  obtain ⟨⟨first, second⟩, pair, rfl⟩ := List.mem_map.mp listed
  have both := List.of_mem_zip pair
  exact ⟨linked first both.1, linked second (List.mem_of_mem_drop both.2)⟩

theorem mem_operandEdges {indices : List Nat} {edge : Edge} :
    edge ∈ operandEdges flow indices ↔
      ∃ index ∈ indices, ∃ producer place,
        (flow.instructionFlow index).ins[place]? = some (.instruction producer) ∧
        edge = ⟨producer, index, .data (.argument place)⟩ := by
  simp only [operandEdges, List.mem_flatMap, List.mem_filterMap, List.mem_zipIdx_iff_getElem?,
    Prod.exists]
  refine exists_congr fun index => and_congr_right fun inside => ?_
  constructor
  · rintro ⟨ref, place, taken, made⟩
    cases ref with
    | instruction producer => exact ⟨producer, place, taken, (Option.some.inj made).symm⟩
    | _ => cases made
  · rintro ⟨producer, place, taken, rfl⟩
    exact ⟨.instruction producer, place, taken, rfl⟩

theorem operandEdges_ends {nodes : List (Nat × NodeKind)} {indices : List Nat}
    (known : ∀ index ∈ indices, ∀ producer,
      .instruction producer ∈ (flow.instructionFlow index).ins →
        Numbered nodes producer ∧ Numbered nodes index) :
    ∀ edge ∈ operandEdges flow indices,
      Numbered nodes edge.source ∧ Numbered nodes edge.target := by
  intro edge listed
  obtain ⟨index, inside, producer, place, taken, rfl⟩ := mem_operandEdges.mp listed
  exact known index inside producer (List.mem_of_getElem? taken)

end Site

namespace ValueGraph

variable {graph : ValueGraph} {flow : FlowGraph}

theorem addChain_eq (graph : ValueGraph) (chain : List Nat) :
    graph.addChain chain = graph.connectEach (Site.chainEdges chain) := by
  rw [addChain, connectEach, Site.chainEdges, List.foldl_map]

theorem connectUses_eq (flow_eq : graph.flow = flow) (block : Block) (input : FlowRef)
    (phi : Nat) :
    graph.connectUses block input phi =
      graph.connectEach (Site.useEdges flow block.indices input phi) := by
  unfold connectUses Site.useEdges
  generalize block.indices = indices
  induction indices generalizing graph with
  | nil => rfl
  | cons index rest ih =>
      rw [List.foldl_cons, List.flatMap_cons, connectEach_append]
      have here : (placesOf input (graph.flow.instructionFlow index)).foldl
          (fun graph place => graph.connect phi index (.data (.argument place))) graph =
          graph.connectEach ((placesOf input (flow.instructionFlow index)).map fun place =>
            ⟨phi, index, .data (.argument place)⟩) := by
        rw [flow_eq, connectEach, List.foldl_map]
      rw [here]
      exact ih (by rw [flow_connectEach, flow_eq])

theorem connectOperands_eq (flow_eq : graph.flow = flow) (indices : List Nat) :
    indices.foldl connectOperands graph = graph.connectEach (Site.operandEdges flow indices) := by
  unfold Site.operandEdges
  induction indices generalizing graph with
  | nil => rfl
  | cons index rest ih =>
      rw [List.foldl_cons, List.flatMap_cons, connectEach_append]
      have here : graph.connectOperands index = graph.connectEach
          ((flow.instructionFlow index).ins.zipIdx.filterMap (Site.operandEdge? index)) := by
        rw [connectOperands, flow_eq, connectEach, List.foldl_filterMap]
        congr 1
        funext graph operand
        obtain ⟨ref, place⟩ := operand
        cases ref <;> rfl
      rw [here]
      exact ih (by rw [flow_connectEach, flow_eq])

/-! ## Adding a piece -/

theorem addInstructions_eq (flow_eq : graph.flow = flow) (block : Block) :
    graph.addInstructions block =
      graph.replay ((Site.instructionNodes flow.graph.code block.indices).map fun entry =>
        .node entry.1 entry.2) := by
  unfold addInstructions Site.instructionNodes
  generalize block.indices = indices
  induction indices generalizing graph with
  | nil => rfl
  | cons index rest ih =>
      rw [List.foldl_cons, flow_eq]
      cases found : flow.graph.code.instruction? index with
      | none =>
          rw [List.filterMap_cons_none (by rw [found]; rfl)]
          exact ih flow_eq
      | some instruction =>
          rw [List.filterMap_cons_some (by rw [found]; rfl)]
          exact ih flow_eq

theorem addMerge_eq {next : Nat} (next_eq : graph.next = next) (needed : Bool) :
    graph.addMerge needed = ((if needed then [next] else []).head?,
      graph.replay ((if needed then [next] else []).map fun _ => .synthetic .merge)) := by
  subst next_eq
  cases needed <;> rfl

theorem addInput_eq {next : Nat} (flow_eq : graph.flow = flow) (next_eq : graph.next = next)
    (block : Block) {merge : List Nat} (single : merge.length ≤ 1) (input : FlowRef) :
    graph.addInput block merge.head? input = (next, (graph.edit (.synthetic .phi)).connectEach
      (Site.inputEdges flow block.indices merge input next)) := by
  subst next_eq
  have same : (graph.edit (.synthetic .phi)).flow = flow := flow_eq
  rw [Site.inputEdges, connectEach_append]
  match merge, single with
  | [], _ => exact congrArg (Prod.mk graph.next) (connectUses_eq same block input graph.next)
  | [merge], _ =>
      exact congrArg (Prod.mk graph.next)
        (connectUses_eq ((flow_connect ..).trans same) block input graph.next)

theorem addInputs_eq {next : Nat} (flow_eq : graph.flow = flow) (next_eq : graph.next = next)
    (block : Block) {merge : List Nat} (single : merge.length ≤ 1) (inputs : List FlowRef) :
    addInputs block merge.head? inputs graph = (List.range' next inputs.length,
      graph.replay (Site.phiEdits flow block.indices merge
        (inputs.zip (List.range' next inputs.length)))) := by
  induction inputs generalizing graph next with
  | nil => rfl
  | cons input rest ih =>
      rw [addInputs, addInput_eq flow_eq next_eq block single input]
      have flow_eq' : ((graph.edit (.synthetic .phi)).connectEach
          (Site.inputEdges flow block.indices merge input next)).flow = flow :=
        (flow_connectEach ..).trans flow_eq
      have next_eq' : ((graph.edit (.synthetic .phi)).connectEach
          (Site.inputEdges flow block.indices merge input next)).next = next + 1 :=
        (next_connectEach ..).trans (congrArg Nat.succ next_eq)
      dsimp only
      rw [ih flow_eq' next_eq', List.length_cons, List.range'_succ, List.zip_cons_cons,
        ← replay_connect, ← replay_append]
      rfl

theorem mem_fixedInstructions {code : Sequence} {block : Block} {index : Nat}
    (listed : index ∈ fixedInstructions code block) : index ∈ block.indices :=
  (List.mem_filter.mp listed).1

theorem numbered_instructionNodes {code : Sequence} {indices : List Nat} {index : Nat}
    (listed : index ∈ indices) (inside : index < code.length) :
    Numbered (Site.instructionNodes code indices) index := by
  obtain ⟨instruction, found⟩ := Sequence.exists_instruction inside
  refine ⟨.instruction index instruction.nodeName, ?_⟩
  exact List.mem_filterMap.mpr ⟨index, listed, by rw [found]; rfl⟩

end ValueGraph

namespace Site

/-- A site whose piece can be added: its instructions are there, and its outputs are provided. -/
structure Ready (flow : FlowGraph) (site : Site) : Prop where
  inside : ∀ index ∈ site.block.indices, index < flow.graph.code.length
  produced : ∀ index ∈ site.block.indices, ∀ producer,
    .instruction producer ∈ (flow.instructionFlow index).ins →
      producer ∈ site.block.indices ∧ producer < index
  provided : ∀ ref ∈ (site.boundary flow).outs,
    (∃ producer ∈ site.block.indices, ref = .instruction producer) ∨
      ref ∈ (site.boundary flow).ins ∧ ∀ index, ref ≠ .instruction index

theorem Ready.isSome_outputNode? {flow : FlowGraph} {site : Site} (ready : site.Ready flow) :
    ∀ ref ∈ (site.boundary flow).outs,
      (outputNode? (site.boundary flow).ins (site.inputs flow) ref).isSome := by
  intro ref listed
  rcases ready.provided ref listed with ⟨producer, -, rfl⟩ | ⟨taken, other⟩
  · rfl
  · have inside : (site.boundary flow).ins.idxOf ref < (site.inputs flow).length := by
      rw [length_inputs]
      exact List.idxOf_lt_length_of_mem taken
    cases ref with
    | instruction index => exact absurd rfl (other index)
    | _ => simp [outputNode?, inside]

theorem Ready.outputs_eq {flow : FlowGraph} {site : Site} (ready : site.Ready flow) :
    (site.boundary flow).outs.mapM (outputNode? (site.boundary flow).ins (site.inputs flow)) =
      some (site.outputs flow) :=
  mapM_eq_some_filterMap ready.isSome_outputNode?

theorem Ready.length_outputs {flow : FlowGraph} {site : Site} (ready : site.Ready flow) :
    (site.outputs flow).length = (site.boundary flow).outs.length :=
  length_filterMap_of_isSome ready.isSome_outputNode?

end Site

namespace ValueGraph

variable {graph : ValueGraph} {flow : FlowGraph}

/-- The block of a ready site is added by the edits of its piece. -/
theorem addBlock_eq {site : Site} (ready : site.Ready flow) (flow_eq : graph.flow = flow)
    (next_eq : graph.next = site.first) :
    graph.addBlock site.number site.block =
      .ok (site.piece flow, graph.replay (site.edits flow)) := by
  have boundary : flow.blockFlow site.number = site.boundary flow := rfl
  have needed : (decide (1 < site.block.predecessors.length) &&
      !(site.boundary flow).ins.isEmpty) = site.needsMerge flow := rfl
  have merge : (if site.needsMerge flow then [site.first] else []) = site.merge flow := rfl
  have whole : (site.merge flow).head?.toList = site.merge flow := by
    unfold Site.merge
    split <;> rfl
  have chain : site.merge flow ++ fixedInstructions flow.graph.code site.block =
      site.chain flow := rfl
  have inputs : List.range' (site.first + (site.merge flow).length)
      (site.boundary flow).ins.length = site.inputs flow := rfl
  have raised (graph : ValueGraph) (next_eq : graph.next = site.first) :
      (graph.replay ((site.merge flow).map fun _ => .synthetic .merge)).next =
        site.first + (site.merge flow).length := by
    rw [← next_eq]
    unfold Site.merge
    split <;> rfl
  have flows (edits : List Edit) : (graph.replay edits).flow = flow :=
    (flow_replay graph edits).trans flow_eq
  have next_eq := (next_replay_nodes graph (Site.instructionNodes flow.graph.code
    site.block.indices)).trans next_eq
  unfold ValueGraph.addBlock
  dsimp only
  rw [flow_eq, boundary, needed, addInstructions_eq flow_eq, addMerge_eq next_eq, merge]
  dsimp only
  have next_eq := raised _ next_eq
  rw [← replay_append] at next_eq ⊢
  rw [whole, flows, chain, addChain_eq, addInputs_eq ((flow_connectEach ..).trans (flows _))
    ((next_connectEach ..).trans next_eq) site.block site.length_merge]
  dsimp only
  rw [inputs, ready.outputs_eq, ← replay_connect, ← replay_append, ← replay_append,
    connectOperands_eq (flows _), ← replay_connect, ← replay_append, ← List.append_assoc]
  rfl

namespace Holds

variable {next : Nat} {nodes : List (Nat × NodeKind)} {edges : List Edge}
  (holds : graph.Holds flow next nodes edges)
include holds

theorem reaches_inputs {indices merge : List Nat} (inputs : List FlowRef)
    (known : ∀ index ∈ indices, Numbered nodes index)
    (joined : ∀ id ∈ merge, Numbered nodes id) :
    graph.Reaches (Site.phiEdits flow indices merge (inputs.zip (List.range' next inputs.length)))
      (·.Holds flow (next + inputs.length)
        (nodes ++ (List.range' next inputs.length).map fun phi => (phi, NodeKind.phi))
        (edges ++ proper (Site.phiEdges flow indices merge
          (inputs.zip (List.range' next inputs.length))))) := by
  induction inputs generalizing graph next nodes edges with
  | nil => exact ⟨trivial, by simpa [Site.phiEdits, Site.phiEdges, proper] using holds⟩
  | cons input rest ih =>
      have own : Numbered (nodes ++ [(next, NodeKind.phi)]) next := ⟨.phi, by simp⟩
      have ends (edge : Edge) (listed : edge ∈ Site.inputEdges flow indices merge input next) :
          Numbered (nodes ++ [(next, NodeKind.phi)]) edge.source ∧
            Numbered (nodes ++ [(next, NodeKind.phi)]) edge.target := by
        rcases List.mem_append.mp listed with info | use
        · obtain ⟨id, mem, rfl⟩ := List.mem_map.mp info
          exact ⟨own, (joined id mem).append _⟩
        · obtain ⟨index, inside, place⟩ := List.mem_flatMap.mp use
          obtain ⟨place, -, rfl⟩ := List.mem_map.mp place
          exact ⟨own, (known index inside).append _⟩
      have reached := ((holds.reaches_synthetic .phi).append fun grown holds =>
        holds.reaches_connect ends).append fun grown holds =>
        ih holds (fun index inside => (known index inside).append _)
          (fun id mem => (joined id mem).append _)
      rw [List.append_assoc nodes, List.append_assoc edges, ← proper_append,
        Nat.add_right_comm] at reached
      exact reached

end Holds

variable {nodes : List (Nat × NodeKind)} {edges : List Edge}

theorem Holds.reaches_merge (site : Site) (holds : graph.Holds flow site.first nodes edges) :
    graph.Reaches ((site.merge flow).map fun _ => .synthetic .merge)
      (·.Holds flow (site.first + (site.merge flow).length)
        (nodes ++ (site.merge flow).map fun merge => (merge, NodeKind.merge)) edges) := by
  unfold Site.merge
  split
  · exact holds.reaches_synthetic .merge
  · exact ⟨trivial, (List.append_nil nodes).symm ▸ holds⟩

/-- The edits of a ready site may be made, and they add its piece. -/
theorem Holds.reaches_site {site : Site} (holds : graph.Holds flow site.first nodes edges)
    (ready : site.Ready flow)
    (below : ∀ index ∈ site.block.indices, index < site.first)
    (fresh : ∀ index ∈ site.block.indices, ¬ Numbered nodes index) :
    graph.Reaches (site.edits flow) (·.Holds flow (site.next flow) (nodes ++ site.nodes flow)
      (edges ++ proper (site.edges flow))) := by
  have known (index : Nat) (inside : index ∈ site.block.indices) :
      Numbered (nodes ++ Site.instructionNodes flow.graph.code site.block.indices) index := by
    obtain ⟨kind, listed⟩ := numbered_instructionNodes inside (ready.inside index inside)
    exact ⟨kind, List.mem_append_right nodes listed⟩
  have linked (id : Nat) (listed : id ∈ site.chain flow) :
      Numbered (nodes ++ Site.instructionNodes flow.graph.code site.block.indices ++
        (site.merge flow).map fun merge => (merge, NodeKind.merge)) id := by
    rcases List.mem_append.mp listed with head | fixed
    · exact ⟨.merge, List.mem_append_right _ (List.mem_map.mpr ⟨id, head, rfl⟩)⟩
    · exact (known id (mem_fixedInstructions fixed)).append _
  have instructions := holds.reaches_nodes
    (fun entry listed => below _ (Site.mem_instructionNodes.mp listed).1)
    (fun entry listed => fresh _ (Site.mem_instructionNodes.mp listed).1)
    (Site.nodup_instructionNodes flow.graph.code List.nodup_range')
  have merged := instructions.append fun grown holds => Holds.reaches_merge site holds
  have chained := merged.append fun grown holds =>
    holds.reaches_connect (Site.chainEdges_ends linked)
  have filled := chained.append fun grown holds => holds.reaches_inputs (site.boundary flow).ins
    (fun index inside => (known index inside).append _)
    (fun id listed => linked id (List.mem_append_left _ listed))
  have complete := filled.append fun grown holds =>
    holds.reaches_connect (Site.operandEdges_ends fun index inside producer taken =>
      ⟨((known _ (ready.produced index inside producer taken).1).append _).append _,
        ((known index inside).append _).append _⟩)
  rw [Site.edges, proper_append, proper_append, ← List.append_assoc, ← List.append_assoc,
    Site.nodes, ← List.append_assoc, ← List.append_assoc]
  exact complete

end ValueGraph
end StackCode
