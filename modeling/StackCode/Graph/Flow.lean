import StackCode.Graph.Blocks

/-!
# Flow graphs

A flow graph says where the operands of every instruction come from and where
its results go.  Within a block an abstract stack is run through the code:
operands taken from below the block are its inputs, and what is left at its
end are its outputs.  Blocks then exchange values: a block that offers fewer
outputs than a successor takes is padded with values that pass through it.

All lists run from the deepest operand to the topmost one.
-/

namespace StackCode

/-- One end of a flow of values. -/
inductive FlowRef where
  | instruction (index : Nat)
  | input (place : Nat)
  | output (place : Nat)
  /-- A value that passes through the block. -/
  | pass (number : Nat)
  deriving DecidableEq

def FlowRef.producer? : FlowRef → Option Nat
  | .instruction index => some index
  | _ => none

structure DataFlow where
  ins : List FlowRef
  outs : List FlowRef
  deriving DecidableEq

namespace DataFlow

instance : Inhabited DataFlow := ⟨⟨[], []⟩⟩

/-- Let some more values pass through a block. -/
def pad (flow : DataFlow) (first count : Nat) : DataFlow :=
  let passes := (List.range' first count).map .pass
  { ins := passes ++ flow.ins, outs := passes ++ flow.outs }

end DataFlow

structure FlowGraph where
  graph : BlockGraph
  instructions : Array DataFlow
  blocks : Array DataFlow

/-! ## Within a block -/

/-- Where an operand comes from while a block is being read. -/
inductive Operand where
  | produced (index : Nat)
  /-- Taken from below the block, after so many others. -/
  | below (earlier : Nat)

/-- An abstract stack in the middle of a block. -/
structure LocalFlow where
  /-- The instructions that pushed what is on the stack, top first. -/
  stack : List Nat
  /-- The number of operands taken from below the block. -/
  taken : Nat
  /-- The operands of the instructions so far, latest instruction first. -/
  operands : List (List Operand)

namespace LocalFlow

def empty : LocalFlow := ⟨[], 0, []⟩

def takeOne (stack : List Nat) (taken : Nat) : Operand × List Nat × Nat :=
  match stack with
  | top :: rest => (.produced top, rest, taken)
  | [] => (.below taken, [], taken + 1)

/-- Take operands; those in hand lie above the ones still to come. -/
def take : Nat → List Nat → Nat → List Operand → List Operand × List Nat × Nat
  | 0, stack, taken, inHand => (inHand, stack, taken)
  | count + 1, stack, taken, inHand =>
      let (operand, stack, taken) := takeOne stack taken
      take count stack taken (operand :: inHand)

def step (flow : LocalFlow) (index : Nat) (instruction : Instruction) : LocalFlow :=
  let (operands, stack, taken) := take instruction.reads flow.stack flow.taken []
  { stack := List.replicate instruction.writes index ++ stack
    taken
    operands := operands :: flow.operands }

/-- The abstract stack at the end of a block. -/
def ofBlock (code : Sequence) (block : Block) : LocalFlow :=
  block.indices.foldl (fun flow index =>
    match code.instruction? index with
    | some instruction => flow.step index instruction
    | none => flow) empty

/-- The deepest operand from below the block is its first input. -/
def origin (flow : LocalFlow) : Operand → FlowRef
  | .produced index => .instruction index
  | .below earlier => .input (flow.taken - 1 - earlier)

/-- The operands of each instruction of the block, in code order. -/
def instructionIns (flow : LocalFlow) : List (List FlowRef) :=
  flow.operands.reverse.map fun operands => operands.map flow.origin

def boundary (flow : LocalFlow) : DataFlow where
  ins := (List.range flow.taken).map .input
  outs := flow.stack.reverse.map .instruction

/-- What the end of the block adds to the results of the instructions that are left there. -/
def offers (flow : LocalFlow) : List (Nat × FlowRef) :=
  flow.stack.reverse.zipIdx.map fun (producer, place) => (producer, .output place)

end LocalFlow

namespace FlowGraph

/-- What the operands of the instructions add to the results of their producers. -/
def takings (ins : List (List FlowRef)) : List (Nat × FlowRef) :=
  ins.zipIdx.flatMap fun (refs, consumer) =>
    refs.filterMap fun ref => ref.producer?.map (·, .instruction consumer)

/-- The flow within the blocks alone. -/
def ofBlocks (graph : BlockGraph) : FlowGraph :=
  let flows := graph.blocks.toList.map (LocalFlow.ofBlock graph.code)
  let ins := flows.flatMap LocalFlow.instructionIns
  let outs := pushEach (Array.replicate ins.length [])
    (flows.flatMap LocalFlow.offers ++ takings ins)
  { graph
    instructions := (ins.zipWith DataFlow.mk outs.toList).toArray
    blocks := (flows.map LocalFlow.boundary).toArray }

/-! ## Between blocks -/

/-- The exchange of values between blocks, with the blocks still to be looked at. -/
structure Exchange where
  blocks : Array DataFlow
  passing : Array Nat
  /-- The blocks whose predecessors may have to be padded, next one first. -/
  work : List Nat

/--
Make a block offer as many outputs as a successor takes.  A block that would
take more values than the code ever pushes can never be balanced.
-/
def provide (graph : BlockGraph) (limit need : Nat) (exchange : Exchange) (block : Nat) :
    Except GraphError Exchange :=
  let flow := exchange.blocks[block]?.getD default
  let missing := need - flow.outs.length
  if missing = 0 then .ok exchange
  else
    let first := exchange.passing[block]?.getD 0
    let padded := flow.pad first missing
    if limit < padded.ins.length then
      .error (.flowImbalance (graph.startOf block) none limit padded.ins.length)
    else
      .ok {
        blocks := exchange.blocks.set! block padded
        passing := exchange.passing.set! block (first + missing)
        work := block :: exchange.work }

/-- Look at one block: all its predecessors must offer what it takes. -/
def supply (graph : BlockGraph) (limit : Nat) (exchange : Exchange) (block : Nat) :
    Except GraphError Exchange :=
  let need := (exchange.blocks[block]?.getD default).ins.length
  (graph.predecessors block).foldlM (provide graph limit need) exchange

/--
Look at blocks until none is left to look at.  Nothing is answered if that
takes more looks than the budget allows.
-/
def settle (graph : BlockGraph) (limit : Nat) :
    Nat → Exchange → Option (Except GraphError (Array DataFlow))
  | budget, exchange =>
    match exchange.work, budget with
    | [], _ => some (.ok exchange.blocks)
    | _ :: _, 0 => none
    | block :: rest, budget + 1 =>
        match supply graph limit { exchange with work := rest } block with
        | .ok exchange => settle graph limit budget exchange
        | .error error => some (.error error)

/-- The number of values that the code pushes, each instruction counted once. -/
def pushes (code : Sequence) : Nat :=
  code.code.toList.foldl (fun total instruction => total + instruction.writes) 0

/-- The exchange at the start; the last block is looked at first. -/
def Exchange.start (flow : FlowGraph) : Exchange where
  blocks := flow.blocks
  passing := Array.replicate flow.blocks.size 0
  work := (List.range flow.blocks.size).reverse

/--
Exchange values between the blocks until every edge is provided for.  Every
padding lengthens the inputs of a block, which the number of pushes bounds, so
the budget is never used up.
-/
def exchange (flow : FlowGraph) : Except GraphError FlowGraph := do
  let limit := pushes flow.graph.code
  let budget := flow.blocks.size * (limit + 1)
  match settle flow.graph limit budget (.start flow) with
  | some settled => return { flow with blocks := ← settled }
  | none => return flow

/-! ## Balance -/

def checkBlock (flow : FlowGraph) (number : Nat) (block : Block) : Except GraphError Unit := do
  let boundary := flow.blocks[number]?.getD default
  if number = 0 ∧ boundary.ins ≠ [] then
    throw (.flowImbalance block.start none 0 boundary.ins.length)
  if block.successors = [] ∧ boundary.outs ≠ [] then
    throw (.flowImbalance block.start none 0 boundary.outs.length)
  block.successors.forM fun successor => do
    let takes := (flow.blocks[successor]?.getD default).ins.length
    if takes ≠ boundary.outs.length then
      throw (.flowImbalance block.start (some (flow.graph.startOf successor)) takes
        boundary.outs.length)

/-- The numbers of values agree everywhere; the first block takes none. -/
def check (flow : FlowGraph) : Except GraphError Unit :=
  flow.graph.numbered.forM fun (number, block) => flow.checkBlock number block

def build (graph : BlockGraph) : Except GraphError FlowGraph := do
  let flow ← (ofBlocks graph).exchange
  flow.check
  return flow

def instructionFlow (flow : FlowGraph) (index : Nat) : DataFlow :=
  flow.instructions[index]?.getD default

def blockFlow (flow : FlowGraph) (block : Nat) : DataFlow :=
  flow.blocks[block]?.getD default

end FlowGraph

end StackCode
