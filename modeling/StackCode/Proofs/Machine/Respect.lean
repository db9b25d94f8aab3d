import StackCode.Proofs.Machine.AtOnce

/-!
# What instructions respect

A relation between machines is lasting if nothing that an instruction does
beside moving operands and entering frames breaks it.  If entering frames does
not break it either, acting on the operands of any instruction respects it, and
the outcome is of the kind that the catalog gives for the instruction.  Nor
does acting on operands ever complain that operands are missing: that happens
only when they are taken off the stack.
-/

namespace StackCode

/-- The kind of outcome that the catalog gives for an instruction. -/
def Instruction.Yields (code : Sequence) (instruction : Instruction) : Outcome → Prop
  | .next => instruction.continues = true
  | .jump target => ∃ label ∈ instruction.branchLabels, code.labelTarget? label = some target
  | .leave _ => instruction.leaves = true

structure Instruction.Makes (code : Sequence) (instruction : Instruction) (upshot : Upshot) :
    Prop where
  yields : instruction.Yields code upshot.outcome
  length_values : upshot.values.length = instruction.supply

/-- Nothing but moving operands and entering frames can break the relation. -/
structure Lasting {σ τ : Type} (observer : Observer τ)
    (relation : Machine σ τ → Machine σ τ → Prop) : Prop where
  refl : ∀ machine, relation machine machine
  trans : ∀ {first middle last}, relation first middle → relation middle last →
    relation first last
  asked : ∀ machine host, relation machine { machine with host }
  counted : ∀ machine, relation machine { machine with hostCalls := machine.hostCalls + 1 }
  noted : ∀ machine event, event.eventClass = .host →
    relation machine (machine.noting observer event)
  globalSet : ∀ machine name value,
    relation machine { machine with context := machine.context.setGlobal name value }
  methodDefined : ∀ machine className name body,
    relation machine { machine with context := machine.context.defineMethod className name body }
  localSet : ∀ machine frame slot level value context,
    machine.context.setLocal? frame slot level value = some context →
      relation machine { machine with context }

namespace Execution

variable {σ τ α β : Type}

/-- However an execution ends, the relation holds, and operands were not missing. -/
def Respects (relation : Machine σ τ → Machine σ τ → Prop) (execution : Execution σ τ α)
    (gives : α → Prop) : Prop :=
  ∀ machine, Ends execution machine
    (fun value after => relation machine after ∧ gives value)
    (fun exit after => relation machine after ∧ exit ≠ .raise .stackUnderflow)

variable {observer : Observer τ} {relation : Machine σ τ → Machine σ τ → Prop}
  {gives : α → Prop}

namespace Respects

variable (lasting : Lasting observer relation)
include lasting

theorem pure {value : α} (given : gives value) :
    Respects relation (Pure.pure value) gives := fun machine =>
  (ends_pure value).mpr ⟨lasting.refl machine, given⟩

theorem fail {error : RunError} (other : error ≠ .stackUnderflow) :
    Respects relation (fail error) gives := fun machine =>
  (ends_fail error).mpr ⟨lasting.refl machine, fun same => other (Exit.raise.inj same)⟩

theorem bind {middle : β → Prop} {first : Execution σ τ β} {next : β → Execution σ τ α}
    (firstRespects : Respects relation first middle)
    (nextRespects : ∀ value, middle value → Respects relation (next value) gives) :
    Respects relation (first >>= next) gives := by
  intro machine
  rw [ends_bind]
  refine (firstRespects machine).mono ?_ (fun _ _ holds => holds)
  rintro value after ⟨related, given⟩
  exact (nextRespects value given after).mono
    (fun _ _ holds => ⟨lasting.trans related holds.1, holds.2⟩)
    (fun _ _ holds => ⟨lasting.trans related holds.1, holds.2⟩)

theorem get : Respects relation (MonadState.get : Execution σ τ (Machine σ τ)) fun _ => True :=
  fun machine => ends_get.mpr ⟨lasting.refl machine, trivial⟩

theorem context : Respects relation (context : Execution σ τ Context) fun _ => True :=
  fun machine => ends_context.mpr ⟨lasting.refl machine, trivial⟩

theorem askHost (question : σ → α × σ) :
    Respects relation (askHost question) fun _ => True := fun machine =>
  (ends_askHost question).mpr ⟨lasting.asked machine _, trivial⟩

omit lasting in
theorem attempt {execution : Execution σ τ α} (respects : Respects relation execution gives) :
    Respects relation (attempt execution) fun _ => True := fun machine =>
  ends_attempt.mpr <| (respects machine).mono (fun _ _ holds => ⟨holds.1, trivial⟩)
    (fun _ _ holds => ⟨holds.1, trivial⟩)

theorem report {event : Event} (ofHost : event.eventClass = .host) :
    Respects relation (report observer event) fun _ => True := fun machine =>
  (ends_report observer event).mpr ⟨lasting.noted machine event ofHost, trivial⟩

theorem setGlobal (name : String) (value : Value) :
    Respects relation (modifyContext fun context => context.setGlobal name value)
      fun _ => True := fun machine =>
  (ends_modifyContext _).mpr ⟨lasting.globalSet machine name value, trivial⟩

theorem defineMethod (frame : Nat) (name : String) (body : Sequence) :
    Respects relation (modifyContext fun context =>
      context.defineMethod (context.selfOf frame).className name body) fun _ => True :=
  fun machine => (ends_modifyContext _).mpr ⟨lasting.methodDefined machine _ name body, trivial⟩

end Respects

/-! ## Calls -/

section Calls

variable (lasting : Lasting observer relation) {enter : Activation → Execution σ τ Value}
  (entering : ∀ activation, Respects relation (enter activation) fun _ => True)
include lasting entering

theorem invoke_respects (block : Closure) (arguments : List Value) :
    Respects relation (invoke enter block arguments) fun _ => True :=
  .bind lasting (.context lasting) fun _ _ => entering _

theorem invokeForHost_respects (block : Closure) (arguments : List Value) :
    Respects relation (invokeForHost enter block arguments) fun _ => True := by
  refine .bind lasting (.attempt (invoke_respects lasting entering block arguments)) ?_
  intro outcome _
  cases outcome <;> exact .pure lasting trivial

/-- However often the host runs the block and whatever it makes of the outcomes. -/
theorem converse_respects (block : Closure) (conversation : Conversation σ) :
    Respects relation (converse enter block conversation) fun _ => True := by
  induction conversation with
  | done result state => exact .askHost lasting _
  | yield arguments state resume ih =>
      refine .bind lasting (.askHost lasting _) fun _ _ => ?_
      refine .bind lasting (invokeForHost_respects lasting entering block arguments)
        fun answer _ => ?_
      exact .bind lasting (.get lasting) fun machine _ => ih answer machine.host

theorem converseWithHost_respects (host : Host σ) (receiver : Value) (method : String)
    (arguments : List Value) (block : Option Closure) :
    Respects relation (converseWithHost host enter receiver method arguments block)
      fun _ => True := by
  cases block with
  | none => exact .askHost lasting fun state => host.send state receiver method arguments
  | some block =>
      exact .bind lasting (.get lasting) fun _ _ => converse_respects lasting entering block _

omit entering in
theorem countHostCall_respects : Respects relation (countHostCall (σ := σ)) fun _ => True := by
  intro machine
  unfold countHostCall
  by_cases reached : machine.limits.hostCalls ≤ machine.hostCalls
  · simp [reached, lasting.refl machine]
  · simp [reached, lasting.counted machine]

theorem callHost_respects (host : Host σ) (receiver : Value) (method : String)
    (arguments : List Value) (block : Option Closure) :
    Respects relation (callHost host observer enter receiver method arguments block)
      fun _ => True := by
  refine .bind lasting (countHostCall_respects lasting) fun _ _ => ?_
  refine .bind lasting (.context lasting) fun _ _ => ?_
  refine .bind lasting (.report lasting rfl) fun _ _ => ?_
  refine .bind lasting
    (converseWithHost_respects lasting entering host receiver method arguments block)
    fun result _ => ?_
  refine .bind lasting (.report lasting rfl) fun _ _ => ?_
  cases result with
  | ok value => exact .pure lasting trivial
  | error error =>
      intro machine
      refine (ends_throw _).mpr ⟨lasting.refl machine, ?_⟩
      cases error <;> simp [Exit.ofHostError]

theorem call_respects (host : Host σ) (receiver : Value) (method : String)
    (arguments : List Value) (block : Option Closure) :
    Respects relation (call host observer enter receiver method arguments block)
      fun _ => True := by
  refine .bind lasting (.context lasting) fun context _ => ?_
  cases context.method? receiver.className method with
  | none => exact callHost_respects lasting entering host receiver method arguments block
  | some body =>
      by_cases fits : binds body.parameters arguments = true
      · simpa [fits] using entering ⟨body, receiver, none, block, arguments⟩
      · simpa [fits] using .fail lasting (by simp)

theorem yieldTo_respects (frame : Nat) (arguments : List Value) :
    Respects relation (yieldTo enter frame arguments) fun _ => True := by
  refine .bind lasting (.context lasting) fun context _ => ?_
  cases context.blockOf? frame with
  | none => exact .fail lasting (by simp)
  | some block => exact invoke_respects lasting entering block arguments

end Calls

/-! ## Locals, globals, constants and tests -/

section Places

variable (lasting : Lasting observer relation)
include lasting

theorem readLocal_respects (frame : Nat) (name : String) (slot level : Nat) :
    Respects relation (readLocal frame name slot level) fun _ => True := by
  refine .bind lasting (.context lasting) fun context _ => ?_
  cases context.local? frame slot level with
  | none => exact .fail lasting (by simp)
  | some value => exact .pure lasting trivial

theorem writeLocal_respects (frame : Nat) (name : String) (slot level : Nat) (value : Value) :
    Respects relation (writeLocal frame name slot level value) fun _ => True := by
  intro machine
  unfold writeLocal
  rw [ends_bind, ends_context]
  cases assigned : machine.context.setLocal? frame slot level value with
  | none => simpa using lasting.refl machine
  | some context =>
      simpa using lasting.localSet machine frame slot level value context assigned

theorem findGlobal_respects (host : Host σ) (name : String) :
    Respects relation (findGlobal host name) fun _ => True := by
  refine .bind lasting (.context lasting) fun context _ => ?_
  cases context.global? name with
  | some value => exact .pure lasting trivial
  | none =>
      refine .bind lasting (.askHost lasting _) fun answer _ => ?_
      cases answer with
      | none => exact .pure lasting trivial
      | some value =>
          exact .bind lasting (.setGlobal lasting name value) fun _ _ => .pure lasting trivial

theorem findConstant_respects (host : Host σ) (name : String) (scope lexically : Value) :
    Respects relation (findConstant host name scope lexically) fun _ => True := by
  unfold findConstant
  split
  · split
    · exact .askHost lasting _
    · exact .pure lasting trivial
  · exact .askHost lasting _

theorem readConstant_respects (host : Host σ) (name : String) (scope lexically : Value) :
    Respects relation (readConstant host name scope lexically) fun _ => True := by
  refine .bind lasting (findConstant_respects lasting host name scope lexically) fun found _ => ?_
  cases found with
  | none => exact .fail lasting (by simp)
  | some value => exact .pure lasting trivial

theorem symbolOf_respects (value : Value) :
    Respects relation (symbolOf value) fun _ => True := by
  cases value <;> first
    | exact .pure lasting trivial
    | exact .fail lasting (by simp)

theorem isDefined_respects (host : Host σ) (kind : DefinedKind) (object operand : Value) :
    Respects relation (isDefined host kind object operand) fun _ => True := by
  cases kind with
  | nil | self | trueLiteral | falseLiteral | assignment | expression | localVariable =>
      exact .pure lasting trivial
  | instanceVariable | classVariable | blockCall | parentMethod =>
      exact .fail lasting (by simp)
  | globalVariable =>
      exact .bind lasting (findGlobal_respects lasting host _) fun _ _ => .pure lasting trivial
  | constant =>
      exact .bind lasting (.askHost lasting _) fun _ _ => .pure lasting trivial
  | method =>
      refine .bind lasting (.context lasting) fun context _ => ?_
      split
      · exact .pure lasting trivial
      · exact .askHost lasting _

theorem targetOf_respects (code : Sequence) (label : Label) :
    Respects relation (targetOf code label) fun target =>
      code.labelTarget? label = some target := by
  unfold targetOf
  cases bound : code.labelTarget? label with
  | none => exact .fail lasting (by simp)
  | some target => exact .pure lasting rfl

end Places

end Execution

end StackCode
