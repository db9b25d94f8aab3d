import StackCode.Proofs.Machine.Concord

/-!
# Executions side by side

Two executions go alongside each other if, started on related machines, they
end in the same way and leave related machines behind.  What an instruction does
beside asking its host and entering frames is the same on both sides; so if the
relation survives moving operands and writing variables, and the hosts and the
frames entered go alongside, then the instruction goes alongside itself.

What is known of the machines where an execution stops early may be more than
that they are related: a reason is a relation of its own for each exit.
-/

namespace StackCode

namespace Execution

variable {σ σ' τ τ' α β : Type}

/-- Two executions end in the same way, and the machines they leave are as said. -/
def Meets (execution : Execution σ τ α) (execution' : Execution σ' τ' α) (machine : Machine σ τ)
    (machine' : Machine σ' τ') (returns : α → Machine σ τ → Machine σ' τ' → Prop)
    (exits : Exit → Machine σ τ → Machine σ' τ' → Prop) : Prop :=
  match execution machine, execution' machine' with
  | .ok value after, .ok value' after' => value' = value ∧ returns value after after'
  | .error exit after, .error exit' after' => exit' = exit ∧ exits exit after after'
  | _, _ => False

section Meets

variable {execution : Execution σ τ α} {execution' : Execution σ' τ' α} {machine : Machine σ τ}
  {machine' : Machine σ' τ'} {returns : α → Machine σ τ → Machine σ' τ' → Prop}
  {exits : Exit → Machine σ τ → Machine σ' τ' → Prop}

theorem Meets.mono {returns' : α → Machine σ τ → Machine σ' τ' → Prop}
    {exits' : Exit → Machine σ τ → Machine σ' τ' → Prop}
    (meets : Meets execution execution' machine machine' returns exits)
    (onReturn : ∀ value after after', returns value after after' → returns' value after after')
    (onExit : ∀ exit after after', exits exit after after' → exits' exit after after') :
    Meets execution execution' machine machine' returns' exits' := by
  revert meets
  unfold Meets
  cases execution machine <;> cases execution' machine' <;> intro meets
  · exact ⟨meets.1, onReturn _ _ _ meets.2⟩
  · exact meets
  · exact meets
  · exact ⟨meets.1, onExit _ _ _ meets.2⟩

theorem Meets.bind {first : Execution σ τ β} {first' : Execution σ' τ' β}
    {next : β → Execution σ τ α} {next' : β → Execution σ' τ' α}
    (meets : Meets first first' machine machine'
      (fun value after after' => Meets (next value) (next' value) after after' returns exits)
      exits) :
    Meets (first >>= next) (first' >>= next') machine machine' returns exits := by
  revert meets
  change _ → (match EStateM.bind first next machine, EStateM.bind first' next' machine' with
    | .ok value after, .ok value' after' => value' = value ∧ returns value after after'
    | .error exit after, .error exit' after' => exit' = exit ∧ exits exit after after'
    | _, _ => False)
  unfold Meets EStateM.bind
  cases first machine <;> cases first' machine' <;> intro meets
  · obtain ⟨rfl, meets⟩ := meets
    exact meets
  · exact meets.elim
  · exact meets.elim
  · exact meets

/-- Each side looks at its own machine. -/
theorem meets_get {next : Machine σ τ → Execution σ τ α} {next' : Machine σ' τ' → Execution σ' τ' α}
    (meets : Meets (next machine) (next' machine') machine machine' returns exits) :
    Meets (get >>= next) (get >>= next') machine machine' returns exits :=
  meets

theorem meets_modifyContext {next : Unit → Execution σ τ α} {next' : Unit → Execution σ' τ' α}
    {change change' : Context → Context}
    (meets : Meets (next ()) (next' ()) { machine with context := change machine.context }
      { machine' with context := change' machine'.context } returns exits) :
    Meets (modifyContext change >>= next) (modifyContext change' >>= next') machine machine'
      returns exits :=
  meets

theorem meets_report {next : Unit → Execution σ τ α} {next' : Unit → Execution σ' τ' α}
    {observer : Observer τ} {observer' : Observer τ'} {event event' : Event}
    (meets : Meets (next ()) (next' ()) (machine.noting observer event)
      (machine'.noting observer' event') returns exits) :
    Meets (report observer event >>= next) (report observer' event' >>= next') machine machine'
      returns exits :=
  meets

theorem meets_attempt {returns : Except Exit α → Machine σ τ → Machine σ' τ' → Prop}
    (meets : Meets execution execution' machine machine' (fun value => returns (.ok value))
      (fun exit => returns (.error exit))) :
    Meets (attempt execution) (attempt execution') machine machine' returns exits := by
  revert meets
  unfold Meets attempt
  cases execution machine <;> cases execution' machine' <;> intro meets
  · exact ⟨congrArg _ meets.1, meets.2⟩
  · exact meets.elim
  · exact meets.elim
  · exact ⟨congrArg _ meets.1, meets.2⟩

/-- Taking operands fails on both sides or on none, if both have the same. -/
theorem meets_popMany {returns : List Value → Machine σ τ → Machine σ' τ' → Prop} (count : Nat)
    (same : machine'.context.operands = machine.context.operands)
    (taken : ∀ operands, returns operands
      (machine.withOperands (machine.context.operands.drop count))
      (machine'.withOperands (machine'.context.operands.drop count)))
    (missing : exits (.raise .stackUnderflow) machine machine') :
    Meets (popMany count) (popMany count) machine machine' returns exits := by
  unfold Meets
  rw [popMany_eq, popMany_eq, same]
  rw [same] at taken
  by_cases enough : count ≤ machine.context.operands.length
  · rw [if_pos enough, if_pos enough]
    exact ⟨rfl, taken _⟩
  · rw [if_neg enough, if_neg enough]
    exact ⟨rfl, missing⟩

theorem meets_push {returns : Unit → Machine σ τ → Machine σ' τ' → Prop} (values : List Value)
    (pushed : returns ()
      (machine.withOperands (values.reverse ++ machine.context.operands))
      (machine'.withOperands (values.reverse ++ machine'.context.operands))) :
    Meets (push values) (push values) machine machine' returns exits := by
  unfold Meets
  rw [push_eq, push_eq]
  exact ⟨rfl, pushed⟩

/-- Where an exit arose is told in the same way on both sides. -/
theorem meets_locatedAt (code : Sequence) (pc : Nat)
    (meets : Meets execution execution' machine machine' returns
      (fun exit => exits (.located (exit.locate code.name pc)))) :
    Meets (locatedAt code pc execution) (locatedAt code pc execution') machine machine'
      returns exits := by
  apply Meets.bind
  apply meets_attempt
  apply meets.mono
  · intro value after after' returned
    exact ⟨rfl, returned⟩
  · intro exit after after' exited
    exact ⟨rfl, exited⟩

/-- Fuel runs out on both sides or on none, if both have as much. -/
theorem meets_burn {returns : Unit → Machine σ τ → Machine σ' τ' → Prop}
    (same : machine'.fuel = machine.fuel)
    (spent : machine.fuel = 0 → exits (.raise .fuelExceeded) machine machine')
    (paid : machine.fuel ≠ 0 → returns () { machine with fuel := machine.fuel - 1 }
      { machine' with fuel := machine'.fuel - 1 }) :
    Meets burn burn machine machine' returns exits := by
  unfold Meets
  rw [burn_eq, burn_eq, same]
  rw [same] at paid
  by_cases empty : machine.fuel = 0
  · rw [if_pos empty, if_pos empty]
    exact ⟨rfl, spent empty⟩
  · rw [if_neg empty, if_neg empty]
    exact ⟨rfl, paid empty⟩

/-- A call is refused on both sides or on none, if both have counted as many. -/
theorem meets_countHostCall {returns : Unit → Machine σ τ → Machine σ' τ' → Prop}
    (limits : machine'.limits = machine.limits) (made : machine'.hostCalls = machine.hostCalls)
    (refused : machine.limits.hostCalls ≤ machine.hostCalls →
      exits (.raise .hostCallLimitExceeded) machine machine')
    (counted : machine.hostCalls < machine.limits.hostCalls →
      returns () { machine with hostCalls := machine.hostCalls + 1 }
        { machine' with hostCalls := machine'.hostCalls + 1 }) :
    Meets countHostCall countHostCall machine machine' returns exits := by
  unfold Meets
  rw [countHostCall_eq, countHostCall_eq, made, congrArg Limits.hostCalls limits]
  rw [made] at counted
  by_cases reached : machine.limits.hostCalls ≤ machine.hostCalls
  · rw [if_pos reached, if_pos reached]
    exact ⟨rfl, refused reached⟩
  · rw [if_neg reached, if_neg reached]
    exact ⟨rfl, counted (Nat.lt_of_not_le reached)⟩

/-- The instruction is reported on both sides; who does not want to know it is not told. -/
theorem meets_reportInstruction {observer : Observer τ} {observer' : Observer τ'}
    {code : Sequence} {pc : Nat} {instruction : Instruction}
    {returns : Unit → Machine σ τ → Machine σ' τ' → Prop}
    (reported : returns ()
      (machine.noting observer (.instruction code pc instruction machine.context.depth))
      (machine'.noting observer' (.instruction code pc instruction machine'.context.depth))) :
    Meets (reportInstruction observer code pc instruction)
      (reportInstruction observer' code pc instruction) machine machine' returns exits := by
  unfold Meets
  rw [reportInstruction_eq, reportInstruction_eq]
  exact ⟨rfl, reported⟩

end Meets

/--
On related machines two executions end in the same way and leave related
machines, for which there is a reason if they stop early.
-/
def Alongside (related : Machine σ τ → Machine σ' τ' → Prop)
    (reason : Exit → Machine σ τ → Machine σ' τ' → Prop) (execution : Execution σ τ α)
    (execution' : Execution σ' τ' α) : Prop :=
  ∀ machine machine', related machine machine' →
    Meets execution execution' machine machine' (fun _ => related)
      (fun exit after after' => related after after' ∧ reason exit after after')

end Execution

/-- The relation survives what an instruction does by itself. -/
structure Tandem {σ σ' τ τ' : Type} (related : Machine σ τ → Machine σ' τ' → Prop)
    (reason : Exit → Machine σ τ → Machine σ' τ' → Prop) : Prop where
  context : ∀ {machine machine'}, related machine machine' → machine'.context = machine.context
  moved : ∀ {machine machine'}, related machine machine' → ∀ operands,
    related (machine.withOperands operands) (machine'.withOperands operands)
  jumped : ∀ {machine machine'}, related machine machine' → ∀ pc, related
    { machine with context := { machine.context with pc } }
    { machine' with context := { machine'.context with pc } }
  globalSet : ∀ {machine machine'}, related machine machine' → ∀ name value, related
    { machine with context := machine.context.setGlobal name value }
    { machine' with context := machine'.context.setGlobal name value }
  methodDefined : ∀ {machine machine'}, related machine machine' → ∀ className name body, related
    { machine with context := machine.context.defineMethod className name body }
    { machine' with context := machine'.context.defineMethod className name body }
  localSet : ∀ {machine machine'}, related machine machine' →
    ∀ frame slot level value context,
      machine.context.setLocal? frame slot level value = some context →
      related { machine with context } { machine' with context }
  failed : ∀ {machine machine'}, related machine machine' → ∀ error : RunError,
    error.ofLimit = false → reason (.raise error) machine machine'
  passed : ∀ {machine machine'}, related machine machine' → ∀ fault,
    reason (.located fault) machine machine'

namespace Execution

variable {σ σ' τ τ' α β : Type} {related : Machine σ τ → Machine σ' τ' → Prop}
  {reason : Exit → Machine σ τ → Machine σ' τ' → Prop}

namespace Alongside

theorem pure (value : α) : Alongside related reason (Pure.pure value) (Pure.pure value) :=
  fun _ _ both => ⟨rfl, both⟩

theorem bind {first : Execution σ τ β} {first' : Execution σ' τ' β}
    {next : β → Execution σ τ α} {next' : β → Execution σ' τ' α}
    (firsts : Alongside related reason first first')
    (nexts : ∀ value, Alongside related reason (next value) (next' value)) :
    Alongside related reason (first >>= next) (first' >>= next') := by
  intro machine machine' both
  apply Meets.bind
  apply (firsts machine machine' both).mono
  · intro value after after' both
    exact nexts value after after' both
  · intro exit after after' exits
    exact exits

theorem attempt {execution : Execution σ τ α} {execution' : Execution σ' τ' α}
    (executions : Alongside related reason execution execution') :
    Alongside related reason (attempt execution) (attempt execution') := by
  intro machine machine' both
  apply meets_attempt
  apply (executions machine machine' both).mono
  · intro value after after' both
    exact both
  · intro exit after after' exits
    exact exits.1

variable (tandem : Tandem related reason)
include tandem

theorem fail {error : RunError} (plain : error.ofLimit = false) :
    Alongside related reason (fail (α := α) error) (fail error) :=
  fun _ _ both => ⟨rfl, both, tandem.failed both error plain⟩

theorem throwHostError (error : HostError) :
    Alongside related reason (throw (.ofHostError error) : Execution σ τ α)
      (throw (.ofHostError error)) := by
  intro machine machine' both
  refine ⟨rfl, both, ?_⟩
  cases error with
  | block fault => exact tandem.passed both fault
  | _ => exact tandem.failed both _ rfl

theorem context : Alongside related reason context context :=
  fun _ _ both => ⟨tandem.context both, both⟩

theorem popMany (count : Nat) : Alongside related reason (popMany count) (popMany count) := by
  intro machine machine' both
  have same := tandem.context both
  refine meets_popMany count (congrArg Context.operands same) (fun _ => ?_)
    ⟨both, tandem.failed both _ rfl⟩
  rw [same]
  exact tandem.moved both _

theorem push (values : List Value) : Alongside related reason (push values) (push values) := by
  intro machine machine' both
  refine meets_push values ?_
  rw [tandem.context both]
  exact tandem.moved both _

theorem jump (pc : Nat) :
    Alongside related reason (modifyContext fun context => { context with pc })
      (modifyContext fun context => { context with pc }) :=
  fun _ _ both => ⟨rfl, tandem.jumped both pc⟩

theorem setGlobal (name : String) (value : Value) :
    Alongside related reason (modifyContext fun context => context.setGlobal name value)
      (modifyContext fun context => context.setGlobal name value) :=
  fun _ _ both => ⟨rfl, tandem.globalSet both name value⟩

theorem defineMethod (frame : Nat) (name : String) (body : Sequence) :
    Alongside related reason
      (modifyContext fun context =>
        context.defineMethod (context.selfOf frame).className name body)
      (modifyContext fun context =>
        context.defineMethod (context.selfOf frame).className name body) := by
  intro machine machine' both
  have same := tandem.context both
  refine ⟨rfl, ?_⟩
  simpa only [same] using
    tandem.methodDefined both (machine.context.selfOf frame).className name body

theorem writeLocal (frame : Nat) (name : String) (slot level : Nat) (value : Value) :
    Alongside related reason (writeLocal frame name slot level value)
      (writeLocal frame name slot level value) := by
  intro machine machine' both
  apply Meets.bind
  refine ⟨tandem.context both, ?_⟩
  dsimp only
  cases assigned : machine.context.setLocal? frame slot level value with
  | none => exact ⟨rfl, both, tandem.failed both _ rfl⟩
  | some context => exact ⟨rfl, tandem.localSet both frame slot level value context assigned⟩

end Alongside

/-! ## Instructions -/

structure Partners (related : Machine σ τ → Machine σ' τ' → Prop)
    (reason : Exit → Machine σ τ → Machine σ' τ' → Prop) (host : Host σ) (host' : Host σ')
    (observer : Observer τ) (observer' : Observer τ') (enter : Activation → Execution σ τ Value)
    (enter' : Activation → Execution σ' τ' Value) : Prop where
  /-- The hosts are asked for globals only that some related machines do not have. -/
  globals : ∀ {machine machine'} name, related machine machine' →
    machine.context.global? name = none →
    Alongside related reason (askHost fun state => host.global state name)
      (askHost fun state => host'.global state name)
  constants : ∀ scope name, Alongside related reason
    (askHost fun state => host.constant state scope name)
    (askHost fun state => host'.constant state scope name)
  methods : ∀ receiver name, Alongside related reason
    (askHost fun state => host.respondsTo state receiver name)
    (askHost fun state => host'.respondsTo state receiver name)
  calls : ∀ receiver method arguments block, Alongside related reason
    (callHost host observer enter receiver method arguments block)
    (callHost host' observer' enter' receiver method arguments block)
  enters : ∀ activation, Alongside related reason (enter activation) (enter' activation)

section Instructions

variable {host : Host σ} {host' : Host σ'} {observer : Observer τ} {observer' : Observer τ'}
  {enter : Activation → Execution σ τ Value} {enter' : Activation → Execution σ' τ' Value}
  (tandem : Tandem related reason)
  (partners : Partners related reason host host' observer observer' enter enter')

def concord : Concord σ τ σ' τ' where
  agree _ := Alongside related reason
  known context := ∃ machine machine', related machine machine' ∧ machine.context = context
  lends _ := True
  pure := .pure
  bind := .bind
  after := .bind
  fail := .fail tandem
  look nexts machine machine' both :=
    Meets.bind ⟨tandem.context both,
      nexts _ _ (.refl _) ⟨machine, machine', both, rfl⟩ machine machine' both⟩
  popMany := .popMany tandem
  push := .push tandem
  setGlobal := .setGlobal tandem
  defineMethod := .defineMethod tandem
  writeLocal _ := .writeLocal tandem _

include partners

theorem concord_partners :
    (concord tandem).Partners host host' observer observer' enter enter' where
  globals := by
    rintro _ name ⟨machine, machine', both, rfl⟩ missing
    exact partners.globals name both missing
  constants := partners.constants
  methods := partners.methods
  calls receiver method arguments block _ := partners.calls receiver method arguments block
  enters _ _ _ _ _ := partners.enters _
  invokes _ _ _ := .bind (.context tandem) fun _ => partners.enters _

include tandem

/-- An instruction goes alongside itself. -/
theorem step_alongside (code : Sequence) (frame : Nat) (instruction : Instruction) :
    Alongside related reason (step host observer enter code frame instruction)
      (step host' observer' enter' code frame instruction) :=
  Concord.step (concord_partners tandem partners) code
    ⟨trivial, fun _ _ => trivial, fun _ _ => trivial⟩

/-- An instruction that is paid for on both sides goes alongside itself. -/
theorem advance_meets {exits : Exit → Machine σ τ → Machine σ' τ' → Prop} {machine : Machine σ τ}
    {machine' : Machine σ' τ'} (code : Sequence) (frame pc : Nat) (instruction : Instruction)
    (same : machine'.fuel = machine.fuel)
    (spent : machine.fuel = 0 → exits (.raise .fuelExceeded) machine machine')
    (paid : machine.fuel ≠ 0 → related
      (({ machine with fuel := machine.fuel - 1 } : Machine σ τ).noting observer
        (.instruction code pc instruction machine.context.depth))
      (({ machine' with fuel := machine'.fuel - 1 } : Machine σ' τ').noting observer'
        (.instruction code pc instruction machine'.context.depth)))
    (stopped : ∀ exit after after',
      related after after' → reason exit after after' → exits exit after after') :
    Meets (advance host observer enter code frame pc instruction)
      (advance host' observer' enter' code frame pc instruction) machine machine'
      (fun _ => related) exits := by
  apply Meets.bind
  refine meets_burn same spent fun left => ?_
  apply Meets.bind
  apply meets_reportInstruction
  apply Meets.mono ?_ (fun _ _ _ both => both)
    (fun exit after after' (exited : related after after' ∧ reason exit after after') =>
      stopped exit after after' exited.1 exited.2)
  refine Alongside.bind (.jump tandem (pc + 1)) (fun _ => ?_) _ _ (paid left)
  refine .bind (step_alongside tandem partners code frame instruction) fun outcome => ?_
  cases outcome with
  | jump target => exact .bind (.jump tandem target) fun _ => .pure _
  | next | leave => exact .bind (.pure _) fun _ => .pure _

end Instructions

end Execution

end StackCode
