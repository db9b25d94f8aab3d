import StackCode.Graph.Nodes

/-!
# From a flow graph to a value graph

Each block becomes a piece of the graph.  Its instructions with side effects
form a chain of control, headed by a merge if the block has inputs and several
predecessors.  Every input becomes a phi.  The pieces are then joined, tail to
head for control and output to phi for data.

Some of these phis and merges select nothing; they are removed afterwards.
-/

namespace StackCode

/-- The part of a value graph that stands for a block. -/
structure Piece where
  head : Nat
  tail : Nat
  /-- The phi of each input. -/
  inputs : List Nat
  /-- The node that provides each output. -/
  outputs : List Nat

instance : Inhabited Piece := ⟨⟨0, 0, [], []⟩⟩

namespace ValueGraph

def addInstructions (graph : ValueGraph) (block : Block) : ValueGraph :=
  block.indices.foldl (fun graph index =>
    match graph.flow.graph.code.instruction? index with
    | some instruction => graph.addNode index (.instruction index instruction.nodeName)
    | none => graph) graph

/-- Add a merge at the head of a block that needs one. -/
def addMerge (graph : ValueGraph) (needed : Bool) : Option Nat × ValueGraph :=
  if needed then
    let (merge, graph) := graph.addSynthetic .merge
    (some merge, graph)
  else
    (none, graph)

/-- The instructions of a block that keep their order. -/
def fixedInstructions (code : Sequence) (block : Block) : List Nat :=
  block.indices.filter fun index =>
    match code.instruction? index with
    | some instruction => instruction.hasSideEffects
    | none => false

def addChain (graph : ValueGraph) (chain : List Nat) : ValueGraph :=
  (chain.zip (chain.drop 1)).foldl (fun graph (first, second) =>
    graph.connect first second .control) graph

/-- The operands of an instruction that are a given end of a flow. -/
def placesOf (ref : FlowRef) (flow : DataFlow) : List Nat :=
  (flow.ins.zipIdx.filter fun entry => entry.1 = ref).map Prod.snd

/-- Connect a phi with all operands of a block that are the input it stands for. -/
def connectUses (graph : ValueGraph) (block : Block) (input : FlowRef) (phi : Nat) : ValueGraph :=
  block.indices.foldl (fun graph index =>
    (placesOf input (graph.flow.instructionFlow index)).foldl (fun graph place =>
      graph.connect phi index (.data (.argument place))) graph) graph

/-- Add the phi of an input; it belongs to the merge of its block. -/
def addInput (graph : ValueGraph) (block : Block) (merge : Option Nat) (input : FlowRef) :
    Nat × ValueGraph :=
  let (phi, graph) := graph.addSynthetic .phi
  let graph :=
    match merge with
    | some merge => graph.connect phi merge .info
    | none => graph
  (phi, graph.connectUses block input phi)

def addInputs (block : Block) (merge : Option Nat) :
    List FlowRef → ValueGraph → List Nat × ValueGraph
  | [], graph => ([], graph)
  | input :: rest, graph =>
      let (phi, graph) := graph.addInput block merge input
      let (phis, graph) := addInputs block merge rest graph
      (phi :: phis, graph)

/-- Connect an instruction with the instructions of its block that provide its operands. -/
def connectOperands (graph : ValueGraph) (index : Nat) : ValueGraph :=
  (graph.flow.instructionFlow index).ins.zipIdx.foldl (fun graph (ref, place) =>
    match ref with
    | .instruction producer => graph.connect producer index (.data (.argument place))
    | _ => graph) graph

/-- The node behind an output of a block. -/
def outputNode? (ins : List FlowRef) (inputs : List Nat) (ref : FlowRef) : Option Nat :=
  match ref with
  | .instruction producer => some producer
  | other => inputs[ins.idxOf other]?

def addBlock (graph : ValueGraph) (number : Nat) (block : Block) :
    Except GraphError (Piece × ValueGraph) :=
  let boundary := graph.flow.blockFlow number
  let graph := graph.addInstructions block
  let (merge, graph) :=
    graph.addMerge (1 < block.predecessors.length && !boundary.ins.isEmpty)
  let chain := merge.toList ++ fixedInstructions graph.flow.graph.code block
  let graph := graph.addChain chain
  let (inputs, graph) := addInputs block merge boundary.ins graph
  let graph := block.indices.foldl connectOperands graph
  match boundary.outs.mapM (outputNode? boundary.ins inputs) with
  | some outputs =>
      .ok ({
        head := chain.head?.getD block.start
        tail := chain.getLast?.getD block.start
        inputs
        outputs }, graph)
  | none =>
      .error (.flowImbalance block.start none boundary.ins.length boundary.outs.length)

def addBlocks : List (Nat × Block) → ValueGraph → Except GraphError (List Piece × ValueGraph)
  | [], graph => .ok ([], graph)
  | (number, block) :: rest, graph => do
      let (piece, graph) ← graph.addBlock number block
      let (pieces, graph) ← addBlocks rest graph
      return (piece :: pieces, graph)

def pieceOf (pieces : Array Piece) (block : Nat) : Piece :=
  pieces[block]?.getD default

/-- Join the control of a block with that of its successors. -/
def joinControl (pieces : Array Piece) (graph : ValueGraph) (entry : Nat × Block) : ValueGraph :=
  let (number, block) := entry
  block.successors.foldl (fun graph successor =>
    graph.connect (pieceOf pieces number).tail (pieceOf pieces successor).head .control) graph

/-- Pass one output of a block on to a successor. -/
def passValue (pieces : Array Piece) (number : Nat) (block : Block) (value place : Nat)
    (graph : ValueGraph) (successor : Nat) : Except GraphError ValueGraph :=
  let piece := pieceOf pieces number
  let inputs := (pieceOf pieces successor).inputs
  match inputs[place]? with
  | some phi => .ok (graph.connect value phi (.data (.predecessor piece.tail)))
  | none =>
      .error (.flowImbalance block.start (some (graph.flow.graph.startOf successor))
        inputs.length piece.outputs.length)

def joinData (pieces : Array Piece) (graph : ValueGraph) (entry : Nat × Block) :
    Except GraphError ValueGraph :=
  let (number, block) := entry
  (pieceOf pieces number).outputs.zipIdx.foldlM (fun graph (value, place) =>
    block.successors.foldlM (passValue pieces number block value place) graph) graph

/-- The value graph of a flow graph, with every phi and merge that might be needed. -/
def assemble (flow : FlowGraph) : Except GraphError ValueGraph := do
  let blocks := flow.graph.numbered
  let (pieces, graph) ← addBlocks blocks (empty flow)
  let graph := { graph with start := (pieces.head?.map Piece.head).getD 0 }
  let graph := blocks.foldl (joinControl pieces.toArray) graph
  blocks.foldlM (joinData pieces.toArray) graph

end ValueGraph

end StackCode
