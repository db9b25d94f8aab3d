import StackCode.Proofs.OperandCount
import StackCode.Assembly.Step

/-!
# What one instruction does to the operand stack

An instruction that ends well has replaced the operands it takes, which lie on
top of the stack, by as many values as it gives.  It runs short of operands
exactly if its frame has fewer than it takes, unless its form is refused before.
The catalog agrees with the instruction on both numbers, but for two kinds of
instructions: an operator whose descriptor names another number of arguments
takes what its descriptor says, and a number that does not fit in a word is
counted from zero again.
-/

namespace StackCode

namespace Instruction

/-- The form of the instruction is refused before any operand is taken. -/
def Refused : Instruction → Prop
  | .expandArray _ flag => flag ≠ 0
  | _ => False

end Instruction

/-- On top of the values below, the instruction has replaced what it takes by what it gives. -/
def Instruction.Replaces (instruction : Instruction) (before after : List Value) : Prop :=
  ∃ below taken given, before = below ++ taken ∧ after = below ++ given ∧
    taken.length = instruction.demand ∧ given.length = instruction.supply

/-- The operands of a frame are on top of the stack, so what an instruction replaces is too. -/
theorem Context.Performs.replaces {code : Sequence} {before after : Context}
    {instruction : Instruction} {outcome : Outcome}
    (performs : before.Performs code instruction outcome after) :
    instruction.Replaces before.stack after.stack := by
  have enough := performs.enough
  obtain ⟨values, counted, replaced⟩ := performs.replaced
  refine ⟨before.below.reverse ++ (before.operands.drop instruction.demand).reverse,
    (before.operands.take instruction.demand).reverse, values, ?_, ?_, ?_, counted⟩
  · rw [before.stack_eq, ← List.reverse_append, List.append_assoc, ← List.reverse_append,
      List.take_append_drop, List.reverse_append]
  · rw [after.stack_eq, performs.below, replaced, List.reverse_append, List.reverse_reverse,
      List.append_assoc]
  · rw [List.length_reverse, List.length_take, Nat.min_eq_left enough]

namespace Execution

variable {σ τ : Type}

/-- A form that is not refused passes its check. -/
theorem checkForm_eq {instruction : Instruction} (fine : ¬ instruction.Refused) :
    checkForm (σ := σ) (τ := τ) instruction = pure () := by
  cases instruction with
  | expandArray size flag =>
      have plain : flag = 0 := not_not.mp fine
      simp [checkForm, plain]
  | _ => rfl

/-- Without the operands that it takes, an instruction does nothing but say so. -/
theorem step_eq_stackUnderflow (host : Host σ) (observer : Observer τ)
    (enter : Activation → Execution σ τ Value) (code : Sequence) (frame : Nat)
    {instruction : Instruction} (fine : ¬ instruction.Refused) {machine : Machine σ τ}
    (short : machine.context.operands.length < instruction.demand) :
    ∃ operands, step host observer enter code frame instruction machine =
      .error (.raise .stackUnderflow) (machine.withOperands operands) := by
  obtain ⟨operands, missing⟩ := gather_eq_of_lt short
  refine ⟨operands, ?_⟩
  rw [step_eq, checkForm_eq fine, pure_bind]
  exact bind_eq_of_error missing

/--
An instruction that ends well, whatever ran inside it, has replaced the operands
that it takes by the values that it gives; and it runs short of them exactly if
its frame has fewer.  The catalog counts these operands and values exactly if
the descriptor agrees with the operator and the numbers fit in a word.
-/
theorem step_replaces_operands (host : Host σ) (observer : Observer τ) (room : Nat)
    (code : Sequence) (frame : Nat) (instruction : Instruction) (machine : Machine σ τ) :
    (∀ outcome after,
      step host observer (evaluate host observer room) code frame instruction machine =
        .ok outcome after →
      instruction.Replaces machine.context.stack after.context.stack) ∧
    (¬ instruction.Refused →
      ((∃ after, step host observer (evaluate host observer room) code frame instruction machine =
        .error (.raise .stackUnderflow) after) ↔
        machine.context.operands.length < instruction.demand)) ∧
    (instruction.reads = instruction.demand ∧ instruction.writes = instruction.supply ↔
      instruction.Described ∧ instruction.Fits) := by
  have ends := step_ends (Account.silent observer).keeps
    (evaluate_respects (.silent observer) host room) host code frame instruction machine
  refine ⟨?_, fun fine => ⟨?_, fun short => ?_⟩, Instruction.counted_iff⟩
  · intro outcome after done
    exact (ends.of_ok done).1.replaces
  · rintro ⟨after, underflow⟩
    exact (ends.of_error underflow).2.2 rfl
  · obtain ⟨operands, missing⟩ :=
      step_eq_stackUnderflow host observer (evaluate host observer room) code frame fine short
    exact ⟨_, missing⟩

/-- A sum whose descriptor names a method without arguments. -/
def inspectSum : Instruction :=
  .operate .plus ⟨some "inspect", 0, .none⟩

/-- The catalog counts two operands for it, but it runs in a frame that has one. -/
theorem inspectSum_goes_on_with_one_operand :
    inspectSum.reads = 2 ∧ ∃ code,
      Assembly.top.assemble [.emit .putNil, .emit inspectSum, .emit .leave] = .ok code ∧
      (Machine.run ObjectModel.host .silent .usual (.withTables .empty .empty) () .empty code).1 =
        .ok (.string "nil") ∧
      ∃ machine after : Machine ObjectModel Unit, machine.context.operands = [.nil] ∧
        step ObjectModel.host .silent (evaluate ObjectModel.host .silent 0) code 0 inspectSum
          machine = .ok .next after := by
  refine ⟨rfl, _, rfl, rfl, ?_⟩
  exact ⟨⟨Context.empty.withOperands [.nil], .usual, 0, 0, .withTables .empty .empty, ()⟩,
    _, rfl, rfl⟩

end Execution

end StackCode
