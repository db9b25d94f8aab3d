import StackCode.Machine.Run
import StackCode.Proofs.Machine.Operands

/-!
# How executions end

An execution ends with a result or with an exit, and it leaves a machine behind
either way.  `Ends` says what holds of the two endings.  It is computed along
the execution: what a sequence of executions ends with is what its last part
ends with, started on the machine that the first part left.
-/

namespace StackCode

/-- The result of a run is one more operand. -/
theorem Machine.keepResult_ok {σ τ : Type} (machine : Machine σ τ) (value : Value) :
    machine.keepResult (.ok value) = machine.withOperands (value :: machine.context.operands) := by
  rw [keepResult, Context.push_eq]
  rfl

namespace Execution

variable {σ τ α β : Type}

/-- The machine that an execution leaves behind, however it ends. -/
def final (execution : Execution σ τ α) (machine : Machine σ τ) : Machine σ τ :=
  match execution machine with
  | .ok _ after | .error _ after => after

/-- What holds of a result and its machine, or of an exit and its machine. -/
def Ends (execution : Execution σ τ α) (machine : Machine σ τ)
    (returns : α → Machine σ τ → Prop) (exits : Exit → Machine σ τ → Prop) : Prop :=
  match execution machine with
  | .ok value after => returns value after
  | .error exit after => exits exit after

variable {execution : Execution σ τ α} {machine : Machine σ τ}
  {returns : α → Machine σ τ → Prop} {exits : Exit → Machine σ τ → Prop}

/-- What holds at both endings holds of the machine left behind. -/
theorem final_of_ends {property : Machine σ τ → Prop}
    (ends : Ends execution machine (fun _ => property) (fun _ => property)) :
    property (execution.final machine) := by
  unfold Ends at ends
  unfold final
  cases ended : execution machine <;> simpa [ended] using ends

/-- Endings may be described more loosely. -/
theorem Ends.mono {returns' : α → Machine σ τ → Prop} {exits' : Exit → Machine σ τ → Prop}
    (ends : Ends execution machine returns exits)
    (onReturn : ∀ value after, returns value after → returns' value after)
    (onExit : ∀ exit after, exits exit after → exits' exit after) :
    Ends execution machine returns' exits' := by
  unfold Ends at ends ⊢
  cases ended : execution machine with
  | ok value after => exact onReturn value after (by simpa [ended] using ends)
  | error exit after => exact onExit exit after (by simpa [ended] using ends)

/-- What is known of the endings on two grounds is known together. -/
theorem Ends.and {returns' : α → Machine σ τ → Prop} {exits' : Exit → Machine σ τ → Prop}
    (ends : Ends execution machine returns exits)
    (ends' : Ends execution machine returns' exits') :
    Ends execution machine (fun value after => returns value after ∧ returns' value after)
      (fun exit after => exits exit after ∧ exits' exit after) := by
  unfold Ends at ends ends' ⊢
  cases ended : execution machine with
  | ok value after =>
      rw [ended] at ends ends'
      exact ⟨ends, ends'⟩
  | error exit after =>
      rw [ended] at ends ends'
      exact ⟨ends, ends'⟩

theorem Ends.of_ok {value : α} {after : Machine σ τ}
    (ends : Ends execution machine returns exits) (ended : execution machine = .ok value after) :
    returns value after := by
  simpa [Ends, ended] using ends

theorem Ends.of_error {exit : Exit} {after : Machine σ τ}
    (ends : Ends execution machine returns exits)
    (ended : execution machine = .error exit after) : exits exit after := by
  simpa [Ends, ended] using ends

@[simp] theorem ends_pure (value : α) :
    Ends (pure value : Execution σ τ α) machine returns exits ↔ returns value machine :=
  Iff.rfl

@[simp] theorem ends_bind (first : Execution σ τ β) (next : β → Execution σ τ α) :
    Ends (first >>= next) machine returns exits ↔
      Ends first machine (fun value after => Ends (next value) after returns exits) exits := by
  unfold Ends
  change (match EStateM.bind first next machine with
    | .ok value after => returns value after
    | .error exit after => exits exit after) ↔ _
  unfold EStateM.bind
  cases first machine <;> exact Iff.rfl

/-- After a first part that returns, a sequence of executions does what the rest does. -/
theorem bind_eq_of_ok {first : Execution σ τ β} {next : β → Execution σ τ α}
    {machine after : Machine σ τ} {value : β} (done : first machine = .ok value after) :
    (first >>= next) machine = next value after := by
  change EStateM.bind first next machine = next value after
  rw [EStateM.bind, done]

/-- With a first part that exits, a sequence of executions exits like it. -/
theorem bind_eq_of_error {first : Execution σ τ β} {next : β → Execution σ τ α}
    {machine after : Machine σ τ} {exit : Exit} (failed : first machine = .error exit after) :
    (first >>= next) machine = .error exit after := by
  change EStateM.bind first next machine = .error exit after
  rw [EStateM.bind, failed]

/-- First parts that do the same here may stand for each other. -/
theorem bind_eq_of_eq {first first' : Execution σ τ β} {next : β → Execution σ τ α}
    {machine : Machine σ τ} (same : first machine = first' machine) :
    (first >>= next) machine = (first' >>= next) machine := by
  change EStateM.bind first next machine = EStateM.bind first' next machine
  rw [EStateM.bind, EStateM.bind, same]

theorem ends_bind_of_ok {first : Execution σ τ β} {next : β → Execution σ τ α}
    {after : Machine σ τ} {value : β} (done : first machine = .ok value after) :
    Ends (first >>= next) machine returns exits ↔ Ends (next value) after returns exits := by
  unfold Ends
  rw [bind_eq_of_ok done]

theorem ends_bind_of_error {first : Execution σ τ β} {next : β → Execution σ τ α}
    {after : Machine σ τ} {exit : Exit} (failed : first machine = .error exit after) :
    Ends (first >>= next) machine returns exits ↔ exits exit after := by
  unfold Ends
  rw [bind_eq_of_error failed]

@[simp] theorem ends_map (change : β → α) (first : Execution σ τ β) :
    Ends (change <$> first) machine returns exits ↔
      Ends first machine (fun value => returns (change value)) exits := by
  rw [← bind_pure_comp, ends_bind]
  exact Iff.rfl

@[simp] theorem ends_throw (exit : Exit) :
    Ends (throw exit : Execution σ τ α) machine returns exits ↔ exits exit machine :=
  Iff.rfl

@[simp] theorem ends_fail (error : RunError) :
    Ends (fail error : Execution σ τ α) machine returns exits ↔ exits (.raise error) machine :=
  Iff.rfl

@[simp] theorem ends_get {returns : Machine σ τ → Machine σ τ → Prop} :
    Ends (get : Execution σ τ (Machine σ τ)) machine returns exits ↔ returns machine machine :=
  Iff.rfl

@[simp] theorem ends_modify {returns : PUnit → Machine σ τ → Prop}
    (change : Machine σ τ → Machine σ τ) :
    Ends (modify change : Execution σ τ PUnit) machine returns exits ↔
      returns ⟨⟩ (change machine) :=
  Iff.rfl

@[simp] theorem ends_context {returns : Context → Machine σ τ → Prop} :
    Ends (context : Execution σ τ Context) machine returns exits ↔
      returns machine.context machine :=
  Iff.rfl

@[simp] theorem ends_modifyContext {returns : Unit → Machine σ τ → Prop}
    (change : Context → Context) :
    Ends (modifyContext change) machine returns exits ↔
      returns () { machine with context := change machine.context } :=
  Iff.rfl

@[simp] theorem ends_askHost (question : σ → α × σ) :
    Ends (askHost question : Execution σ τ α) machine returns exits ↔
      returns (question machine.host).1 { machine with host := (question machine.host).2 } :=
  Iff.rfl

@[simp] theorem ends_report {returns : Unit → Machine σ τ → Prop} (observer : Observer τ)
    (event : Event) :
    Ends (report observer event) machine returns exits ↔
      returns () (machine.noting observer event) :=
  Iff.rfl

@[simp] theorem ends_push {returns : Unit → Machine σ τ → Prop} (values : List Value) :
    Ends (push values) machine returns exits ↔
      returns () (machine.withOperands (values.reverse ++ machine.context.operands)) := by
  unfold Ends
  rw [push_eq]

theorem ends_attempt {returns : Except Exit α → Machine σ τ → Prop} :
    Ends (attempt execution) machine returns exits ↔
      Ends execution machine (fun value => returns (.ok value))
        (fun exit => returns (.error exit)) := by
  unfold Ends attempt
  cases execution machine <;> exact Iff.rfl

theorem ends_popMany {returns : List Value → Machine σ τ → Prop} (count : Nat) :
    Ends (popMany count) machine returns exits ↔
      if count ≤ machine.context.operands.length then
        returns (machine.context.operands.take count).reverse
          (machine.withOperands (machine.context.operands.drop count))
      else exits (.raise .stackUnderflow) machine := by
  unfold Ends
  rw [popMany_eq]
  by_cases enough : count ≤ machine.context.operands.length <;> simp [enough]

/-- The report of an instruction is an event like any other; who does not want it is not told. -/
theorem reportInstruction_eq (observer : Observer τ) (code : Sequence) (pc : Nat)
    (instruction : Instruction) (machine : Machine σ τ) :
    reportInstruction observer code pc instruction machine =
      .ok () (machine.noting observer
        (.instruction code pc instruction machine.context.depth)) := by
  unfold reportInstruction
  by_cases wanted : observer.mask.instruction = true
  · rw [if_pos wanted]
    rfl
  · rw [if_neg wanted]
    change EStateM.Result.ok _ _ = EStateM.Result.ok _ _
    simp [wanted, Machine.noting, Observer.see, TraceMask.contains, Event.eventClass]

theorem ends_reportInstruction {returns : Unit → Machine σ τ → Prop} (observer : Observer τ)
    (code : Sequence) (pc : Nat) (instruction : Instruction) :
    Ends (reportInstruction observer code pc instruction) machine returns exits ↔
      returns ()
        (machine.noting observer (.instruction code pc instruction machine.context.depth)) := by
  unfold Ends
  rw [reportInstruction_eq]

/-- An instruction is paid for before it runs. -/
theorem burn_eq (machine : Machine σ τ) :
    burn machine =
      if machine.fuel = 0 then .error (.raise .fuelExceeded) machine
      else .ok () { machine with fuel := machine.fuel - 1 } := by
  change (if machine.fuel = 0 then _ else _ : Execution σ τ Unit) machine = _
  split <;> rfl

theorem ends_burn {returns : Unit → Machine σ τ → Prop} :
    Ends burn machine returns exits ↔
      if machine.fuel = 0 then exits (.raise .fuelExceeded) machine
      else returns () { machine with fuel := machine.fuel - 1 } := by
  unfold Ends
  rw [burn_eq]
  by_cases spent : machine.fuel = 0 <;> simp [spent]

/-- A call is counted before the host has it, unless the limit is reached. -/
theorem countHostCall_eq (machine : Machine σ τ) :
    countHostCall machine =
      if machine.limits.hostCalls ≤ machine.hostCalls then
        .error (.raise .hostCallLimitExceeded) machine
      else .ok () { machine with hostCalls := machine.hostCalls + 1 } := by
  change (if machine.limits.hostCalls ≤ machine.hostCalls then _ else _ : Execution σ τ Unit)
    machine = _
  split <;> rfl

theorem ends_countHostCall {returns : Unit → Machine σ τ → Prop} :
    Ends countHostCall machine returns exits ↔
      if machine.limits.hostCalls ≤ machine.hostCalls then
        exits (.raise .hostCallLimitExceeded) machine
      else returns () { machine with hostCalls := machine.hostCalls + 1 } := by
  unfold Ends
  rw [countHostCall_eq]
  by_cases reached : machine.limits.hostCalls ≤ machine.hostCalls <;> simp [reached]

/-- An exit without a place gets one; nothing else changes. -/
theorem ends_locatedAt (code : Sequence) (pc : Nat) :
    Ends (locatedAt code pc execution) machine returns exits ↔
      Ends execution machine returns
        (fun exit => exits (.located (exit.locate code.name pc))) := by
  unfold locatedAt
  rw [ends_bind, ends_attempt]
  exact Iff.rfl

/-- To return a value is to end with it, and in no other way. -/
theorem ends_ok_iff {value : α} {left : Machine σ τ → Prop} :
    Ends execution machine (fun returned after => returned = value ∧ left after)
      (fun _ _ => False) ↔ ∃ after, execution machine = .ok value after ∧ left after := by
  unfold Ends
  cases execution machine <;> simp [and_assoc]

/-- To exit in some way is to end with it, and in no other way. -/
theorem ends_error_iff {exit : Exit} {left : Machine σ τ → Prop} :
    Ends execution machine (fun _ _ => False)
      (fun exited after => exited = exit ∧ left after) ↔
      ∃ after, execution machine = .error exit after ∧ left after := by
  unfold Ends
  cases execution machine <;> simp [and_assoc]

end Execution

end StackCode
