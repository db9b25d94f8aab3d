import StackCode.Graph.Error
import StackCode.Sequence.Basic

/-!
# Block graphs

A block is a run of instructions that control enters at the top.  Blocks start
at the first instruction, at every branch target and after every conditional
branch.  Code after an unconditional jump stays in the block of the jump.
-/

namespace StackCode

/-- Push entries onto the lists at their places, one after another. -/
def pushEach {α : Type} (lists : Array (List α)) (entries : List (Nat × α)) : Array (List α) :=
  entries.foldl (fun lists (place, item) => lists.modify place (· ++ [item])) lists

/-- A run of instructions, with the blocks before and after it. -/
structure Block where
  start : Nat
  length : Nat
  predecessors : List Nat
  /-- Where control may go on, in the order in which the last instruction tries it. -/
  successors : List Nat
  leaves : Bool

namespace Block

def last (block : Block) : Nat :=
  block.start + block.length - 1

def indices (block : Block) : List Nat :=
  List.range' block.start block.length

def name (block : Block) : String :=
  "block_" ++ toString block.start

end Block

/-- The blocks of a sequence, ordered by their start. -/
structure BlockGraph where
  code : Sequence
  blocks : Array Block
  /-- The block of each instruction. -/
  blockOf : Array Nat

namespace BlockGraph

/-- The indices at which a block must start, apart from the first one. -/
def leaders (code : Sequence) : List Nat :=
  (List.range code.length).flatMap fun index =>
    let follower :=
      match code.instruction? index with
      | some instruction => if instruction.fallsThrough then [index + 1] else []
      | none => []
    code.branchTargets index ++ follower

def starts (code : Sequence) : List Nat :=
  let marked := leaders code
  (List.range code.length).filter fun index => index == 0 || marked.contains index

/-- The start of each block and of what follows it. -/
def extents (code : Sequence) : List (Nat × Nat) :=
  let first := starts code
  first.zip (first.drop 1 ++ [code.length])

/-- The block of each instruction, for blocks of the given extents. -/
def assignment (extents : List (Nat × Nat)) : Array Nat :=
  (extents.zipIdx.flatMap fun ((start, stop), block) =>
    List.replicate (stop - start) block).toArray

/-- The blocks that may follow the block whose last instruction has the given index. -/
def successorsAt (code : Sequence) (blockOf : Array Nat) (last : Nat) : List Nat :=
  let targets := (code.branchTargets last).filterMap fun target => blockOf[target]?
  let next :=
    match code.instruction? last with
    | some instruction => if instruction.continues then blockOf[last + 1]?.toList else []
    | none => []
  (targets ++ next).eraseDups

def leavesAt (code : Sequence) (index : Nat) : Bool :=
  match code.instruction? index with
  | some instruction => instruction.leaves
  | none => false

/-- The predecessors of every block: each block adds itself to those of its successors. -/
def predecessorLists (successors : List (List Nat)) : Array (List Nat) :=
  pushEach (Array.replicate successors.length [])
    (successors.zipIdx.flatMap fun (listed, block) => listed.map (·, block))

/-- The block graph of a sequence without regard to its handlers. -/
def ofCode (code : Sequence) : BlockGraph :=
  let extents := extents code
  let blockOf := assignment extents
  let successors := extents.map fun extent => successorsAt code blockOf (extent.2 - 1)
  let predecessors := predecessorLists successors
  let blocks := (extents.zip successors).zipIdx.map fun (((start, stop), successors'), block) =>
    { start
      length := stop - start
      predecessors := predecessors[block]?.getD []
      successors := successors'
      leaves := leavesAt code (stop - 1) : Block }
  { code, blocks := blocks.toArray, blockOf }

def build (code : Sequence) : Except GraphError BlockGraph :=
  if code.handlers.isEmpty then .ok (ofCode code)
  else .error (.unsupported code.name "exception handler table is not empty")

def blockContaining? (graph : BlockGraph) (index : Nat) : Option Nat :=
  graph.blockOf[index]?

def blockStartingAt? (graph : BlockGraph) (index : Nat) : Option Nat := do
  let block ← graph.blockContaining? index
  if (← graph.blocks[block]?).start = index then some block else none

def startOf (graph : BlockGraph) (block : Nat) : Nat :=
  (graph.blocks[block]?.map Block.start).getD 0

def predecessors (graph : BlockGraph) (block : Nat) : List Nat :=
  (graph.blocks[block]?.map Block.predecessors).getD []

def numbered (graph : BlockGraph) : List (Nat × Block) :=
  graph.blocks.toList.zipIdx.map Prod.swap

end BlockGraph

end StackCode
