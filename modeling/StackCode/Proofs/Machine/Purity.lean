import StackCode.ObjectModel.Host
import StackCode.Proofs.Machine.AtOnce

/-!
# Instructions that may be moved about

The catalog says of some instructions that they only rearrange operands.  The
value graph orders them by the values they consume alone, so what they do may
depend on those and on the receiver of their frame, and they may change nothing
but operands.

All of them keep to this but the tests of whether a global, a constant or a
method is defined, which ask the context and the host.
-/

namespace StackCode

def Instruction.asks : Instruction → Bool
  | .defined .globalVariable .. | .defined .constant .. | .defined .method .. => true
  | _ => false

namespace Execution

variable {σ τ : Type}

def finish (result : Except RunError (List Value)) : Execution σ τ Upshot :=
  match result with
  | .ok values => return .push values
  | .error error => fail error

/--
The execution comes to a result: it puts values in the place of some operands or
stops with an error, and it changes nothing but operands.
-/
def ComesTo (execution : Execution σ τ Outcome) (machine : Machine σ τ) (count : Nat) :
    Except RunError (List Value) → Prop
  | .ok values =>
      execution machine = .ok .next
        (machine.withOperands (values.reverse ++ machine.context.operands.drop count))
  | .error error =>
      ∃ operands, execution machine = .error (.raise error) (machine.withOperands operands)

/-- What a pure instruction makes of its operands depends on nothing but the receiver. -/
theorem exists_finish {instruction : Instruction} (pure : instruction.hasSideEffects = false)
    (quiet : instruction.asks = false) (self : Value) {operands : List Value}
    (enough : operands.length = instruction.demand) :
    ∃ result, ∀ {σ τ : Type} (host : Host σ) (observer : Observer τ)
      (enter : Activation → Execution σ τ Value) (code : Sequence) (frame : Nat)
      (machine : Machine σ τ), machine.context.selfOf frame = self →
      perform host observer enter code frame instruction operands machine =
        finish result machine := by
  cases instruction with
  | nop | adjustStack | dup | dupN | topN | setN | putNil | getInlineCache | putObject
  | dupArray | dupHash | putZero | putOne | putString | frozenString | sharedString
  | putSpecialObject | newArray | newHash | concatStrings | toRegexp | setInlineCache =>
      exact ⟨.ok _, fun _ _ _ _ _ _ _ => rfl⟩
  | putSelf =>
      refine ⟨.ok [self], ?_⟩
      rintro σ τ host observer enter code frame machine rfl
      rfl
  | swap | newRange | concatArray | anyToString =>
      match operands, enough with
      | [below, top], _ => exact ⟨.ok _, fun _ _ _ _ _ _ _ => rfl⟩
  | pop | splatArray | expandArray =>
      match operands, enough with
      | [value], _ => exact ⟨.ok _, fun _ _ _ _ _ _ _ => rfl⟩
  | intern =>
      match operands, enough with
      | [value], _ =>
          cases value with
          | string name => exact ⟨.ok [.symbol name], fun _ _ _ _ _ _ _ => rfl⟩
          | symbol name => exact ⟨.ok [.symbol name], fun _ _ _ _ _ _ _ => rfl⟩
          | _ => exact ⟨.error _, fun _ _ _ _ _ _ _ => rfl⟩
  | defined kind object value =>
      match operands, enough with
      | [operand], _ =>
          cases kind with
          | nil | self | trueLiteral | falseLiteral | assignment | expression | localVariable =>
              exact ⟨.ok [value], fun _ _ _ _ _ _ _ => rfl⟩
          | instanceVariable | classVariable | blockCall | parentMethod =>
              exact ⟨.error _, fun _ _ _ _ _ _ _ => rfl⟩
          | globalVariable | constant | method => cases quiet
  | _ => cases pure

theorem checkForm_cases (instruction : Instruction) :
    (∃ error, ∀ {σ τ : Type}, checkForm (σ := σ) (τ := τ) instruction = fail error) ∨
      ∀ {σ τ : Type}, checkForm (σ := σ) (τ := τ) instruction = pure () := by
  cases instruction with
  | expandArray size flag =>
      by_cases plain : flag = 0
      · exact .inr (by simp [checkForm, plain])
      · exact .inl ⟨.unsupported "expandarray" "splat or post flags", by simp [checkForm, plain]⟩
  | _ => exact .inr rfl

/-- One result for all states in which a frame has the same receiver and operands. -/
theorem exists_comesTo {instruction : Instruction} (pure : instruction.hasSideEffects = false)
    (quiet : instruction.asks = false) (self : Value) (available : List Value) :
    ∃ result, ∀ {σ τ : Type} (host : Host σ) (observer : Observer τ)
      (enter : Activation → Execution σ τ Value) (code : Sequence) (frame : Nat)
      (machine : Machine σ τ), machine.context.selfOf frame = self →
      machine.context.operands.take instruction.demand = available →
      ComesTo (step host observer enter code frame instruction) machine instruction.demand
        result := by
  rcases checkForm_cases instruction with ⟨error, refused⟩ | passes
  · refine ⟨.error error, ?_⟩
    intro σ τ host observer enter code frame machine _ _
    rw [step_eq, refused]
    exact ⟨machine.context.operands, by rw [Machine.withOperands_self]; rfl⟩
  · have count (operands : List Value) (same : operands.take instruction.demand = available) :
        instruction.demand ≤ operands.length ↔ available.length = instruction.demand := by
      rw [← same, List.length_take]
      omega
    by_cases enough : available.length = instruction.demand
    · obtain ⟨result, performed⟩ :=
        exists_finish pure quiet self ((List.length_reverse).trans enough)
      refine ⟨result, ?_⟩
      intro σ τ host observer enter code frame machine own same
      have took : gather instruction.takes machine = .ok available.reverse
          (machine.withOperands (machine.context.operands.drop instruction.demand)) := by
        rw [gather_eq_of_le ((count _ same).mpr enough), ← same]
        rfl
      have acted := performed host observer enter code frame
        (machine.withOperands (machine.context.operands.drop instruction.demand)) own
      rw [step_eq, passes, pure_bind]
      cases result with
      | ok values =>
          refine (bind_eq_of_ok took).trans ((bind_eq_of_ok acted).trans ?_)
          rw [settle, bind_eq_of_ok (push_eq _ _), Machine.context_withOperands,
            Context.operands_withOperands, Machine.withOperands_withOperands]
          rfl
      | error error =>
          refine ⟨machine.context.operands.drop instruction.demand, ?_⟩
          exact (bind_eq_of_ok took).trans (bind_eq_of_error acted)
    · refine ⟨.error .stackUnderflow, ?_⟩
      intro σ τ host observer enter code frame machine _ same
      obtain ⟨operands, missing⟩ :=
        gather_eq_of_lt (Nat.lt_of_not_le (mt (count _ same).mp enough))
      rw [step_eq, passes, pure_bind]
      exact ⟨operands, bind_eq_of_error missing⟩

/--
A pure instruction that asks nobody comes to the same result in any two states,
under any two hosts, in which its frame has the same receiver and the same
operands for it; and it changes nothing but operands in either.
-/
theorem pure_instructions_float {instruction : Instruction}
    (pure : instruction.hasSideEffects = false) (quiet : instruction.asks = false)
    {σ τ σ' τ' : Type} (host : Host σ) (observer : Observer τ)
    (enter : Activation → Execution σ τ Value) (code : Sequence) (frame : Nat)
    (machine : Machine σ τ) (host' : Host σ') (observer' : Observer τ')
    (enter' : Activation → Execution σ' τ' Value) (code' : Sequence) (frame' : Nat)
    (machine' : Machine σ' τ')
    (self : machine.context.selfOf frame = machine'.context.selfOf frame')
    (operands : machine.context.operands.take instruction.demand =
      machine'.context.operands.take instruction.demand) :
    ∃ result,
      ComesTo (step host observer enter code frame instruction) machine instruction.demand
        result ∧
      ComesTo (step host' observer' enter' code' frame' instruction) machine' instruction.demand
        result := by
  obtain ⟨result, comes⟩ := exists_comesTo pure quiet (machine'.context.selfOf frame')
    (machine'.context.operands.take instruction.demand)
  exact ⟨result, comes host observer enter code frame machine self operands,
    comes host' observer' enter' code' frame' machine' rfl rfl⟩

/-- A machine between two instructions of its first frame. -/
def amid (host : ObjectModel) (operands : List Value) : Machine ObjectModel Unit where
  context := Context.empty.withOperands operands
  limits := .usual
  fuel := Limits.usual.fuel
  hostCalls := 0
  host
  trace := ()

def oneGlobal : ObjectModel :=
  .withTables (Table.empty.insert "$x" .main) .empty

def swapOnly : Sequence where
  name := "<compiled>"
  kind := .top
  code := #[.swap]
  labels := #[]
  locals := []
  parameters := .none
  handlers := []

/-- A swap of two operands does not mind the globals of the host, or what lies below. -/
theorem pure_instructions_float_swap :
    Instruction.swap.hasSideEffects = false ∧ Instruction.swap.asks = false ∧ ∃ result,
      ComesTo (step ObjectModel.host .silent (fun _ => fail .callDepthExceeded) swapOnly 0 .swap)
        (amid (.withTables .empty .empty) [.nil, .main]) 2 result ∧
      ComesTo (step ObjectModel.host .silent (fun _ => fail .callDepthExceeded) swapOnly 0 .swap)
        (amid oneGlobal [.nil, .main, .nil]) 2 result := by
  refine ⟨rfl, rfl, ?_⟩
  exact pure_instructions_float rfl rfl ObjectModel.host .silent _ swapOnly 0 _ ObjectModel.host
    .silent _ swapOnly 0 _ rfl rfl

/-! ## Tests of globals -/

/-- A test of a global that only the host knows makes it a global of the program. -/
theorem ends_step_defined_global (host : Host σ) (observer : Observer τ)
    (enter : Activation → Execution σ τ Value) (code : Sequence) (frame : Nat)
    (machine : Machine σ τ) (object value known : Value) {operand : Value} {below : List Value}
    (operands : machine.context.operands = operand :: below)
    (untracked : machine.context.global? object.toName = none)
    (found : (host.global machine.host object.toName).1 = some known) :
    Ends (step host observer enter code frame (.defined .globalVariable object value)) machine
      (fun _ after => after.context.global? object.toName = some known) fun _ _ => False := by
  have popped : pop machine = .ok operand (machine.withOperands below) := by
    rw [pop_eq, operands]
  have untracked : (machine.withOperands below).context.global? object.toName = none := untracked
  have found : (host.global (machine.withOperands below).host object.toName).1 = some known :=
    found
  rw [step, ends_bind_of_ok popped]
  simp only [isDefined, findGlobal, ends_bind, ends_context, untracked, ends_askHost, found,
    ends_modifyContext, ends_push, ends_pure]
  exact Table.get?_insert_self _ _ _

/-- The catalog calls the test pure, but it changes more than operands. -/
theorem defined_does_not_float :
    (Instruction.defined .globalVariable (.symbol "$x") .main).hasSideEffects = false ∧
    ∀ result, ¬ ComesTo (step ObjectModel.host .silent (fun _ => fail .callDepthExceeded) swapOnly 0
      (.defined .globalVariable (.symbol "$x") .main)) (amid oneGlobal [.nil]) 1 result := by
  refine ⟨rfl, ?_⟩
  have tracked := ends_step_defined_global ObjectModel.host .silent
    (fun _ => fail .callDepthExceeded) swapOnly 0 (amid oneGlobal [.nil]) (.symbol "$x") .main
    .main rfl rfl rfl
  rintro (error | values) comes
  · obtain ⟨operands, failed⟩ := comes
    exact tracked.of_error failed
  · cases tracked.of_ok comes

end Execution

end StackCode
