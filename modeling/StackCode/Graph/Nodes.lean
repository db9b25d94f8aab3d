import StackCode.Graph.Flow
import StackCode.Instruction.Mnemonic
import StackCode.Text.Layout
import StackCode.Table

/-!
# Value graphs

A value graph holds control and data in one graph.  Every instruction is a
node.  A phi selects a value by the predecessor that control came from, and a
merge joins the control of several predecessors.  Edges say in what order
nodes act, which values they consume, and which merge a phi belongs to.

Nodes have stable numbers and lie in slots in the order of their creation.
Both ends of an edge list it; an edge from a node to itself says nothing and
is not kept.
-/

namespace StackCode

inductive NodeKind where
  | instruction (index : Nat) (name : String)
  | phi
  | merge
  deriving DecidableEq

/-- What a value is to the node that consumes it. -/
inductive DataLabel where
  /-- The operand at a place, counted from the deepest. -/
  | argument (place : Nat)
  /-- The value of a phi if control came from the predecessor that ends in a node. -/
  | predecessor (node : Nat)
  deriving DecidableEq

inductive EdgeKind where
  /-- The source acts before the target. -/
  | control
  | data (label : DataLabel)
  /-- The source is a phi of the target, a merge. -/
  | info
  deriving DecidableEq

structure Edge where
  source : Nat
  target : Nat
  kind : EdgeKind
  deriving DecidableEq

/-- A node with the edges that end and start in it, in the order they were added. -/
structure Node where
  id : Nat
  kind : NodeKind
  ins : List Edge
  outs : List Edge
  deriving DecidableEq

namespace Node

def isPhi (node : Node) : Bool :=
  node.kind = .phi

def isMerge (node : Node) : Bool :=
  node.kind = .merge

def text (node : Node) : String :=
  match node.kind with
  | .instruction index name => Text.position index ++ " " ++ name
  | .phi => toString node.id ++ " φ"
  | .merge => toString node.id ++ " ψ"

end Node

structure ValueGraph where
  flow : FlowGraph
  /-- The slots, in order of creation; the slot of a removed node is empty. -/
  slots : Array (Option Node)
  index : Table Nat Nat
  /-- The head of the first block's chain of control. -/
  start : Nat
  /-- The number of the next phi or merge. -/
  next : Nat

namespace ValueGraph

/-- The first multiple of a thousand that is past all instructions, and not zero. -/
def firstSynthetic (instructions : Nat) : Nat :=
  max ((instructions + 999) / 1000) 1 * 1000

def empty (flow : FlowGraph) : ValueGraph where
  flow := flow
  slots := #[]
  index := .empty
  start := 0
  next := firstSynthetic flow.graph.code.length

/-- The nodes that were not removed, in order of creation. -/
def nodes (graph : ValueGraph) : List Node :=
  graph.slots.toList.filterMap id

def nodeAt? (graph : ValueGraph) (slot : Nat) : Option Node :=
  graph.slots[slot]?.join

def node? (graph : ValueGraph) (id : Nat) : Option Node := do
  graph.nodeAt? (← graph.index.get? id)

/-- The edges, grouped by their source. -/
def edges (graph : ValueGraph) : List Edge :=
  graph.nodes.flatMap Node.outs

def phiCount (graph : ValueGraph) : Nat :=
  graph.nodes.countP Node.isPhi

def mergeCount (graph : ValueGraph) : Nat :=
  graph.nodes.countP Node.isMerge

def addNode (graph : ValueGraph) (id : Nat) (kind : NodeKind) : ValueGraph :=
  { graph with
    slots := graph.slots.push (some ⟨id, kind, [], []⟩)
    index := graph.index.insert id graph.slots.size }

/-- Add a phi or a merge, under a number of its own. -/
def addSynthetic (graph : ValueGraph) (kind : NodeKind) : Nat × ValueGraph :=
  (graph.next, { graph.addNode graph.next kind with next := graph.next + 1 })

def modifyNode (graph : ValueGraph) (id : Nat) (change : Node → Node) : ValueGraph :=
  match graph.index.get? id with
  | some slot => { graph with slots := graph.slots.modify slot (Option.map change) }
  | none => graph

/-- Add an edge between two different nodes. -/
def connect (graph : ValueGraph) (source target : Nat) (kind : EdgeKind) : ValueGraph :=
  if source = target then graph
  else
    let edge : Edge := ⟨source, target, kind⟩
    (graph.modifyNode source fun node => { node with outs := node.outs ++ [edge] }).modifyNode
      target fun node => { node with ins := node.ins ++ [edge] }

/-- Add edges of one kind from each source to each target. -/
def connectAll (graph : ValueGraph) (sources targets : List Nat) (kind : EdgeKind) : ValueGraph :=
  sources.foldl (fun graph source =>
    targets.foldl (fun graph target => graph.connect source target kind) graph) graph

/-- Drop the edges to a node from the list of the node where they start. -/
def dropOut (graph : ValueGraph) (id : Nat) (edge : Edge) : ValueGraph :=
  graph.modifyNode edge.source fun node =>
    { node with outs := node.outs.filter fun other => other.target ≠ id }

def dropIn (graph : ValueGraph) (id : Nat) (edge : Edge) : ValueGraph :=
  graph.modifyNode edge.target fun node =>
    { node with ins := node.ins.filter fun other => other.source ≠ id }

def remove (graph : ValueGraph) (id : Nat) : ValueGraph :=
  match graph.index.get? id with
  | none => graph
  | some slot =>
      let removed := { graph with index := graph.index.erase id }
      match graph.nodeAt? slot with
      | none => removed
      | some node =>
          let emptied := { removed with slots := removed.slots.set! slot none }
          node.outs.foldl (dropIn · id) (node.ins.foldl (dropOut · id) emptied)

end ValueGraph

end StackCode
