import StackCode.Graph.Values

/-!
# Removing what selects nothing

A phi whose inputs all come from one node stands for that node.  A merge
without phis only hands control on.  Both are removed, and their neighbours
are connected directly, until there is nothing left to remove.
-/

namespace StackCode.ValueGraph

/-- The node that provides all inputs of a phi, if it is a single one. -/
def soleProducer? (node : Node) : Option Nat :=
  match node.ins with
  | [] => none
  | first :: rest =>
      if rest.all fun edge => edge.source = first.source then some first.source else none

/-- Replace a phi by the node it stands for; its consumers keep their labels. -/
def bypassPhi (graph : ValueGraph) (node : Node) (producer : Nat) : ValueGraph :=
  let consumers := node.outs.filter fun edge => edge.kind ≠ .info
  let connected := consumers.foldl (fun graph edge =>
    graph.connect producer edge.target edge.kind) graph
  connected.remove node.id

/-- Replace a merge by control edges from its predecessors to its successors. -/
def bypassMerge (graph : ValueGraph) (node : Node) : ValueGraph :=
  let predecessors := node.ins.map Edge.source
  let successors := (node.outs.filter fun edge => edge.kind = .control).map Edge.target
  let connected := graph.connectAll predecessors successors .control
  let moved :=
    match successors with
    | first :: _ =>
        if connected.start = node.id then { connected with start := first } else connected
    | [] => connected
  moved.remove node.id

/-- The graph without a node that selects nothing, or nothing if the node has to stay. -/
def bypass? (graph : ValueGraph) (node : Node) : Option ValueGraph :=
  match node.kind with
  | .instruction .. => none
  | .phi => (soleProducer? node).map (graph.bypassPhi node)
  | .merge =>
      if node.ins.any fun edge => edge.kind = .info then none else some (graph.bypassMerge node)

/-- Look at one slot; counts the removed nodes. -/
def sweepSlot (state : Nat × ValueGraph) (slot : Nat) : Nat × ValueGraph :=
  match (state.2.nodeAt? slot).bind state.2.bypass? with
  | some graph => (state.1 + 1, graph)
  | none => state

def sweep (graph : ValueGraph) : Nat × ValueGraph :=
  (List.range graph.slots.size).foldl sweepSlot (0, graph)

/-- Sweep until a sweep removes nothing, within a number of sweeps. -/
def sweeps : Nat → ValueGraph → Nat × ValueGraph
  | 0, graph => (0, graph)
  | budget + 1, graph =>
      let (removed, graph) := graph.sweep
      if removed = 0 then (0, graph)
      else
        let (more, graph) := sweeps budget graph
        (removed + more, graph)

/--
Remove everything that selects nothing; answers the number of removed nodes.
Every sweep but the last removes a node, so there are enough sweeps.
-/
def cleanup (graph : ValueGraph) : Nat × ValueGraph :=
  sweeps (graph.nodes.length + 1) graph

/-- The places of the operands that a node receives; a phi's label counts as no place. -/
def operandPlaces (node : Node) : List Nat :=
  node.ins.filterMap fun edge =>
    match edge.kind with
    | .data (.argument place) => some place
    | .data (.predecessor _) => some (Nat.pow 2 32 - 1)
    | _ => none

/-- The operands of a node are complete: their places are the first numbers, each once. -/
def checkNode (node : Node) : Except GraphError Unit :=
  if node.isPhi then .ok ()
  else
    let places := (operandPlaces node).mergeSort (· ≤ ·)
    match (places.zipIdx.find? fun entry => entry.1 ≠ entry.2) with
    | some (_, missing) => .error (.labelGap node.id missing)
    | none => .ok ()

def check (graph : ValueGraph) : Except GraphError Unit :=
  graph.nodes.forM checkNode

/-- The value graph of a flow graph, without what selects nothing. -/
def build (flow : FlowGraph) : Except GraphError ValueGraph := do
  let graph := (← assemble flow).cleanup.2
  graph.check
  return graph

def ofSequence (code : Sequence) : Except GraphError ValueGraph := do
  build (← FlowGraph.build (← BlockGraph.build code))

end StackCode.ValueGraph
