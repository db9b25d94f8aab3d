import Mathlib.Algebra.Ring.Int.Defs
import StackCode.Graph.Flow

/-!
# The abstract stack of a block

What one instruction does to an abstract stack in closed form, and what follows
for a run of instructions: how the height of the stack, the operands taken from
below and the net effect of the code go together.
-/

namespace StackCode

def Instruction.gain (instruction : Instruction) : Int :=
  instruction.writes - instruction.reads

def Sequence.gain (code : Sequence) (indices : List Nat) : Int :=
  (indices.map fun index => ((code.instruction? index).map Instruction.gain).getD 0).sum

theorem Sequence.gain_append (code : Sequence) (first second : List Nat) :
    code.gain (first ++ second) = code.gain first + code.gain second := by
  simp [Sequence.gain]

theorem Sequence.gain_singleton {code : Sequence} {index : Nat} {instruction : Instruction}
    (found : code.instruction? index = some instruction) :
    code.gain [index] = instruction.gain := by
  simp [Sequence.gain, found]

namespace Block

def indicesBefore (block : Block) (index : Nat) : List Nat :=
  List.range' block.start (index - block.start)

theorem indicesBefore_start (block : Block) : block.indicesBefore block.start = [] := by
  simp [indicesBefore]

theorem indicesBefore_succ {block : Block} {index : Nat} (inside : index ∈ block.indices) :
    block.indicesBefore (index + 1) = block.indicesBefore index ++ [index] := by
  simp only [indices, List.mem_range'_1] at inside
  have one : index + 1 - block.start = index - block.start + 1 := by omega
  have place : block.start + (index - block.start) = index := by omega
  rw [indicesBefore, one, List.range'_1_concat, place, indicesBefore]

theorem last_mem_indices {block : Block} (nonempty : 0 < block.length) :
    block.last ∈ block.indices := by
  simp only [indices, last, List.mem_range'_1]
  omega

theorem indicesBefore_last {block : Block} (nonempty : 0 < block.length) :
    block.indicesBefore block.last ++ [block.last] = block.indices := by
  rw [← indicesBefore_succ (last_mem_indices nonempty), indicesBefore, indices, last]
  congr 1
  omega

/-- An instruction splits its block in two. -/
theorem indices_split {block : Block} {index : Nat} (inside : index ∈ block.indices) :
    ∃ rest, block.indices = block.indicesBefore index ++ index :: rest := by
  simp only [indices, List.mem_range'_1] at inside
  refine ⟨List.range' (index + 1) (block.start + block.length - (index + 1)), ?_⟩
  have here : index :: List.range' (index + 1) (block.start + block.length - (index + 1)) =
      List.range' (block.start + (index - block.start)) (block.start + block.length - index) := by
    have first : block.start + (index - block.start) = index := by omega
    have count : block.start + block.length - index =
        block.start + block.length - (index + 1) + 1 := by omega
    rw [first, count, List.range'_succ]
  rw [here, indicesBefore, List.range'_append_1, indices]
  congr 1
  omega

end Block

namespace LocalFlow

/-- The operands that are taken off an abstract stack, topmost first. -/
def popped (count : Nat) (stack : List Nat) (taken : Nat) : List Operand :=
  (stack.take count).map .produced ++ (List.range' taken (count - stack.length)).map .below

theorem length_popped (count : Nat) (stack : List Nat) (taken : Nat) :
    (popped count stack taken).length = count := by
  simp only [popped, List.length_append, List.length_map, List.length_take, List.length_range']
  omega

theorem take_eq (count : Nat) (stack : List Nat) (taken : Nat) (inHand : List Operand) :
    take count stack taken inHand =
      ((popped count stack taken).reverse ++ inHand, stack.drop count,
        taken + (count - stack.length)) := by
  induction count generalizing stack taken inHand with
  | zero => simp [take, popped]
  | succ count ih =>
      cases stack with
      | nil =>
          rw [take, takeOne]
          dsimp only
          rw [ih]
          simp [popped, List.range'_succ, Nat.add_comm, Nat.add_left_comm]
      | cons top rest =>
          rw [take, takeOne]
          dsimp only
          rw [ih]
          simp [popped]

/-- One instruction on the abstract stack. -/
theorem step_eq (flow : LocalFlow) (index : Nat) (instruction : Instruction) :
    flow.step index instruction =
      { stack := List.replicate instruction.writes index ++ flow.stack.drop instruction.reads
        taken := flow.taken + (instruction.reads - flow.stack.length)
        operands :=
          (popped instruction.reads flow.stack flow.taken).reverse :: flow.operands } := by
  simp only [step, take_eq, List.append_nil]

def run (code : Sequence) (flow : LocalFlow) (indices : List Nat) : LocalFlow :=
  indices.foldl (fun flow index =>
    match code.instruction? index with
    | some instruction => flow.step index instruction
    | none => flow) flow

theorem ofBlock_eq (code : Sequence) (block : Block) :
    ofBlock code block = run code empty block.indices := rfl

theorem run_append (code : Sequence) (flow : LocalFlow) (first second : List Nat) :
    run code flow (first ++ second) = run code (run code flow first) second :=
  List.foldl_append

theorem run_cons {code : Sequence} {index : Nat} {instruction : Instruction}
    (found : code.instruction? index = some instruction) (flow : LocalFlow) (rest : List Nat) :
    run code flow (index :: rest) = run code (flow.step index instruction) rest := by
  simp [run, found]

theorem run_cons_of_none {code : Sequence} {index : Nat} (missing : code.instruction? index = none)
    (flow : LocalFlow) (rest : List Nat) :
    run code flow (index :: rest) = run code flow rest := by
  simp [run, missing]

/-- What every instruction keeps holds after all of them. -/
theorem run_keeps {motive : LocalFlow → Prop} {code : Sequence} {flow : LocalFlow}
    (first : motive flow)
    (keeps : ∀ flow index instruction, motive flow → motive (flow.step index instruction))
    (indices : List Nat) : motive (run code flow indices) := by
  induction indices generalizing flow with
  | nil => exact first
  | cons index rest ih =>
      cases found : code.instruction? index with
      | none =>
          rw [run_cons_of_none found]
          exact ih first
      | some instruction =>
          rw [run_cons found]
          exact ih (keeps flow index instruction first)

/-- What is on the stack but for what was taken from below is the gain of the code. -/
theorem height_run (code : Sequence) (flow : LocalFlow) (indices : List Nat) :
    ((run code flow indices).stack.length : Int) - (run code flow indices).taken =
      flow.stack.length - flow.taken + code.gain indices := by
  induction indices generalizing flow with
  | nil => simp [run, Sequence.gain]
  | cons index rest ih =>
      have split := code.gain_append [index] rest
      rw [List.singleton_append] at split
      rw [split]
      cases found : code.instruction? index with
      | none =>
          have nothing : code.gain [index] = 0 := by simp [Sequence.gain, found]
          rw [run_cons_of_none found, ih, nothing]
          omega
      | some instruction =>
          rw [run_cons found, ih, Sequence.gain_singleton found, step_eq, Instruction.gain]
          simp only [List.length_append, List.length_replicate, List.length_drop]
          omega

theorem taken_le_run (code : Sequence) (flow : LocalFlow) (indices : List Nat) :
    flow.taken ≤ (run code flow indices).taken := by
  refine run_keeps (motive := fun later => flow.taken ≤ later.taken) (Nat.le_refl _)
    (fun later index instruction before => ?_) indices
  rw [step_eq]
  exact Nat.le_add_right_of_le before

/-- The abstract stack of a block before one of its instructions. -/
def upTo (code : Sequence) (block : Block) (index : Nat) : LocalFlow :=
  run code empty (block.indicesBefore index)

/-- The operands of an instruction are on the abstract stack or taken from below. -/
theorem reads_le {code : Sequence} {block : Block} {index : Nat} {instruction : Instruction}
    (inside : index ∈ block.indices) (found : code.instruction? index = some instruction) :
    instruction.reads + (upTo code block index).taken ≤
      (upTo code block index).stack.length + (ofBlock code block).taken := by
  obtain ⟨rest, split⟩ := Block.indices_split inside
  have grows := taken_le_run code ((upTo code block index).step index instruction) rest
  rw [ofBlock_eq, split, run_append, run_cons found]
  rw [upTo] at grows ⊢
  rw [step_eq] at grows ⊢
  dsimp only at grows
  omega

theorem height_upTo (code : Sequence) (block : Block) (index : Nat) :
    ((upTo code block index).stack.length : Int) - (upTo code block index).taken =
      code.gain (block.indicesBefore index) := by
  rw [upTo, height_run]
  simp [empty]

/-- Enough operands come from below a block for each of its instructions. -/
theorem reads_le_gain {code : Sequence} {block : Block} {index : Nat} {instruction : Instruction}
    (inside : index ∈ block.indices) (found : code.instruction? index = some instruction) :
    (instruction.reads : Int) ≤
      (ofBlock code block).taken + code.gain (block.indicesBefore index) := by
  have enough := reads_le inside found
  have height := height_upTo code block index
  omega

/-- The outputs of a block are its inputs and the gain of its code. -/
theorem length_boundary (code : Sequence) (block : Block) :
    ((ofBlock code block).boundary.outs.length : Int) =
      (ofBlock code block).boundary.ins.length + code.gain block.indices := by
  have height := height_run code empty block.indices
  rw [← ofBlock_eq] at height
  simp only [boundary, List.length_map, List.length_reverse, List.length_range]
  simp only [empty, List.length_nil] at height
  omega

end LocalFlow

end StackCode
