import StackCode.Proofs.Machine.Effect

/-!
# One instruction, case by case

An instruction either acts by itself or makes one call.  By itself it asks the
host one question at most, writes one variable or one method at most, and fails
with an error of its own.  A call is the last thing that an instruction does,
but for pushing the result; it comes with no block but one in the code of the
instruction, and a block that is run is the one of the frame.

So whatever survives the deeds of an instruction and its call survives the
instruction.
-/

namespace StackCode

def Instruction.global? : Instruction → Option String
  | .getGlobal name => some name
  | .defined .globalVariable object _ => some object.toName
  | _ => none

def Instruction.MayRaise (instruction : Instruction) (code : Sequence) : RunError → Prop
  | .badLabel label => label ∈ instruction.branchLabels ∧ code.labelTarget? label = none
  | .stackUnderflow | .undefinedLocal .. | .undefinedConstant _ | .noBlockGiven
  | .typeMismatch .. | .unsupported .. => True
  | .unsupportedCallShape .. | .pcOutOfRange _ | .host _ | .fuelExceeded | .callDepthExceeded
  | .hostCallLimitExceeded => False

namespace Execution

variable {σ τ : Type}

/-- What an instruction does by itself to the machine of its frame, operands apart. -/
inductive Deed (host : Host σ) (instruction : Instruction) (frame : Nat)
    (machine : Machine σ τ) : Machine σ τ → Prop where
  | nothing : Deed host instruction frame machine machine
  | askConstant (scope : Option Value) (name : String) :
      Deed host instruction frame machine
        { machine with host := (host.constant machine.host scope name).2 }
  | askMethod (receiver : Value) (name : String) :
      Deed host instruction frame machine
        { machine with host := (host.respondsTo machine.host receiver name).2 }
  /-- The host does not know the global either. -/
  | missGlobal (name : String) : instruction.global? = some name →
      machine.context.global? name = none → (host.global machine.host name).1 = none →
      Deed host instruction frame machine
        { machine with host := (host.global machine.host name).2 }
  /-- The host knows the global, and from now on the context does. -/
  | findGlobal (name : String) (value : Value) : instruction.global? = some name →
      machine.context.global? name = none → (host.global machine.host name).1 = some value →
      Deed host instruction frame machine
        { machine with
          host := (host.global machine.host name).2
          context := machine.context.setGlobal name value }
  | setGlobal (name : String) (value : Value) :
      Deed host instruction frame machine
        { machine with context := machine.context.setGlobal name value }
  | setLocal {slot level : Nat} {value : Value} {context : Context} :
      machine.context.setLocal? frame slot level value = some context →
      Deed host instruction frame machine { machine with context }
  | defineMethod (name : String) (body : Sequence) : instruction = .defineMethod name body →
      Deed host instruction frame machine
        { machine with context :=
          machine.context.defineMethod (machine.context.selfOf frame).className name body }

/-- What an instruction calls: a method, with a block of its own or none, or the frame's block. -/
inductive Outgoing (host : Host σ) (observer : Observer τ)
    (enter : Activation → Execution σ τ Value) (instruction : Instruction) (frame : Nat)
    (machine : Machine σ τ) : Execution σ τ Value → Prop where
  | plain (receiver : Value) (method : String) (arguments : List Value) :
      Outgoing host observer enter instruction frame machine
        (call host observer enter receiver method arguments none)
  | withBlock {site : CallSite} {body : Sequence} (receiver : Value) (arguments : List Value) :
      instruction = .send site (some body) →
      Outgoing host observer enter instruction frame machine
        (call host observer enter receiver site.method arguments
          (some ⟨body, machine.context.selfOf frame, frame⟩))
  | block {closure : Closure} (arguments : List Value) :
      machine.context.blockOf? frame = some closure →
      Outgoing host observer enter instruction frame machine (invoke enter closure arguments)

section Cases

variable {host : Host σ} {observer : Observer τ} {enter : Activation → Execution σ τ Value}
  {code : Sequence} {frame : Nat} {instruction : Instruction} {machine : Machine σ τ}

def Alone {α : Type} (host : Host σ) (code : Sequence) (frame : Nat) (instruction : Instruction)
    (execution : Execution σ τ α) (machine : Machine σ τ) : Prop :=
  Ends execution machine (fun _ after => Deed host instruction frame machine after)
    (fun exit after => Deed host instruction frame machine after ∧
      ∃ error, exit = .raise error ∧ instruction.MayRaise code error)

/-- On the machine the execution acts by itself, or else it pushes the result of a call. -/
def AloneOrCalls (host : Host σ) (observer : Observer τ)
    (enter : Activation → Execution σ τ Value) (code : Sequence) (frame : Nat)
    (instruction : Instruction) (execution : Execution σ τ Upshot) (machine : Machine σ τ) :
    Prop :=
  Alone host code frame instruction execution machine ∨
    ∃ called, Outgoing host observer enter instruction frame machine called ∧
      execution machine = (do return Upshot.push [← called]) machine

theorem Alone.pure {α : Type} (value : α) :
    Alone host code frame instruction (Pure.pure value) machine :=
  Deed.nothing

theorem Alone.fail {α : Type} {error : RunError} (own : instruction.MayRaise code error) :
    Alone host code frame instruction (fail (α := α) error) machine :=
  ⟨.nothing, error, rfl, own⟩

/-- What comes after may not do anything of its own. -/
theorem Alone.map {α β : Type} {execution : Execution σ τ α} (change : α → β)
    (alone : Alone host code frame instruction execution machine) :
    Alone host code frame instruction (do return change (← execution)) machine :=
  (ends_bind _ _).mpr alone

/-- To look at the context is to do nothing. -/
theorem Alone.look {α : Type} {next : Context → Execution σ τ α}
    (alone : Alone host code frame instruction (next machine.context) machine) :
    Alone host code frame instruction (context >>= next) machine :=
  (ends_bind _ _).mpr (ends_context.mpr alone)

theorem AloneOrCalls.pure (upshot : Upshot) :
    AloneOrCalls host observer enter code frame instruction (Pure.pure upshot) machine :=
  .inl (.pure upshot)

theorem AloneOrCalls.withOne (operands : List Value) {act : Value → Execution σ τ Upshot}
    (acts : ∀ value,
      AloneOrCalls host observer enter code frame instruction (act value) machine) :
    AloneOrCalls host observer enter code frame instruction (Execution.withOne operands act)
      machine := by
  unfold Execution.withOne
  split
  · exact acts _
  · exact .inl (.fail trivial)

theorem AloneOrCalls.withTwo (operands : List Value)
    {act : Value → Value → Execution σ τ Upshot}
    (acts : ∀ below top,
      AloneOrCalls host observer enter code frame instruction (act below top) machine) :
    AloneOrCalls host observer enter code frame instruction (Execution.withTwo operands act)
      machine := by
  unfold Execution.withTwo
  split
  · exact acts _ _
  · exact .inl (.fail trivial)

theorem AloneOrCalls.withReceiver (operands : List Value)
    {act : Value → List Value → Execution σ τ Upshot}
    (acts : ∀ receiver arguments,
      AloneOrCalls host observer enter code frame instruction (act receiver arguments) machine) :
    AloneOrCalls host observer enter code frame instruction
      (Execution.withReceiver operands act) machine := by
  unfold Execution.withReceiver
  split
  · exact acts _ _
  · exact .inl (.fail trivial)

theorem targetOf_alone {label : Label} (tried : label ∈ instruction.branchLabels) :
    Alone host code frame instruction (targetOf code label) machine := by
  unfold targetOf
  cases bound : code.labelTarget? label with
  | some target => exact .pure _
  | none => exact .fail ⟨tried, bound⟩

theorem symbolOf_alone (value : Value) :
    Alone host code frame instruction (symbolOf value) machine := by
  cases value <;> first
    | exact .pure _
    | exact .fail trivial

theorem readLocal_alone (name : String) (slot level : Nat) :
    Alone host code frame instruction (readLocal frame name slot level) machine := by
  apply Alone.look
  cases machine.context.local? frame slot level with
  | some value => exact .pure _
  | none => exact .fail trivial

theorem writeLocal_alone (name : String) (slot level : Nat) (value : Value) :
    Alone host code frame instruction (writeLocal frame name slot level value) machine := by
  apply Alone.look
  cases assigned : machine.context.setLocal? frame slot level value with
  | some context => exact Deed.setLocal assigned
  | none => exact .fail trivial

theorem findGlobal_alone {name : String} (looked : instruction.global? = some name) :
    Alone host code frame instruction (findGlobal host name) machine := by
  apply Alone.look
  cases tracked : machine.context.global? name with
  | some value => exact Deed.nothing
  | none =>
      refine (ends_bind _ _).mpr ((ends_askHost _).mpr ?_)
      cases known : (host.global machine.host name).1 with
      | none => exact Deed.missGlobal name looked tracked known
      | some value => exact Deed.findGlobal name value looked tracked known

theorem findConstant_alone (name : String) (scope lexically : Value) :
    Alone host code frame instruction (findConstant host name scope lexically) machine := by
  unfold findConstant
  split
  · split
    · exact Deed.askConstant none name
    · exact .pure _
  · exact Deed.askConstant (some scope) name

theorem readConstant_alone (name : String) (scope lexically : Value) :
    Alone host code frame instruction (readConstant host name scope lexically) machine := by
  have sought : Alone host code frame instruction (findConstant host name scope lexically)
      machine := findConstant_alone name scope lexically
  refine (ends_bind _ _).mpr (sought.mono ?_ ?_)
  · intro found after done
    cases found with
    | some value => exact done
    | none => exact ⟨done, _, rfl, trivial⟩
  · exact fun _ _ failed => failed

theorem isDefined_alone {kind : DefinedKind} {object value : Value} (operand : Value) :
    Alone host code frame (.defined kind object value) (isDefined host kind object operand)
      machine := by
  cases kind with
  | nil | self | trueLiteral | falseLiteral | assignment | expression | localVariable =>
      exact .pure _
  | instanceVariable | classVariable | blockCall | parentMethod => exact .fail trivial
  | globalVariable => exact (findGlobal_alone rfl).map _
  | constant =>
      refine Alone.map (α := Option Value) _ ?_
      exact Deed.askConstant _ _
  | method =>
      apply Alone.look
      split
      · exact .pure _
      · exact Deed.askMethod operand _

/-- Acting on its operands an instruction acts by itself, or it pushes the result of one call. -/
theorem perform_cases (host : Host σ) (observer : Observer τ)
    (enter : Activation → Execution σ τ Value) (code : Sequence) (frame : Nat)
    (instruction : Instruction) (operands : List Value) (machine : Machine σ τ) :
    AloneOrCalls host observer enter code frame instruction
      (perform host observer enter code frame instruction operands) machine := by
  have calls (receiver : Value) (method : String) (arguments : List Value) :
      AloneOrCalls host observer enter code frame instruction
        (do return .push [← call host observer enter receiver method arguments none]) machine :=
    .inr ⟨_, .plain receiver method arguments, rfl⟩
  cases instruction with
  | nop | adjustStack | dup | dupN | topN | setN | putNil | getInlineCache | putObject
  | dupArray | dupHash | putZero | putOne | putString | frozenString | sharedString
  | putSpecialObject | newArray | newHash | concatStrings | toRegexp | setInlineCache =>
      exact .pure _
  | putSelf => exact .inl (.look (.pure _))
  | swap | newRange | concatArray | anyToString => exact .withTwo operands fun _ _ => .pure _
  | pop | splatArray | expandArray => exact .withOne operands fun _ => .pure _
  | intern => exact .withOne operands fun value => .inl ((symbolOf_alone value).map _)
  | objectToString site =>
      refine .withOne operands fun value => ?_
      split
      · exact .pure _
      · exact calls _ _ _
  | newArrayMin | newArrayMax => exact calls _ _ _
  | getLocal | getOwnLocal | getOuterLocal => exact .inl ((readLocal_alone _ _ _).map _)
  | setLocal | setOwnLocal | setOuterLocal =>
      exact .withOne operands fun _ => .inl ((writeLocal_alone _ _ _ _).map _)
  | getGlobal name => exact .inl ((findGlobal_alone rfl).map _)
  | setGlobal name => exact .withOne operands fun value => .inl (Deed.setGlobal name value)
  | getConstant name =>
      exact .withTwo operands fun scope lexically =>
        .inl ((readConstant_alone name scope lexically).map _)
  | jump label => exact .inl ((targetOf_alone (List.mem_singleton.mpr rfl)).map _)
  | branchIf | branchUnless | branchNil =>
      refine .withOne operands fun value => ?_
      dsimp only
      split
      · exact .inl ((targetOf_alone (List.mem_singleton.mpr rfl)).map _)
      · exact .pure _
  | caseDispatch cases otherwise =>
      exact .withOne operands fun key =>
        .inl ((targetOf_alone (dispatchLabel_mem cases otherwise key)).map _)
  | leave => exact .withOne operands fun _ => .pure _
  | send site block =>
      refine .withReceiver operands fun receiver arguments => ?_
      cases block with
      | none => exact calls receiver site.method arguments
      | some body => exact .inr ⟨_, .withBlock receiver arguments rfl, rfl⟩
  | sendWithoutBlock | operate | notEqual =>
      exact .withReceiver operands fun _ _ => calls _ _ _
  | elementWith => exact .withOne operands fun _ => calls _ _ _
  | setElementWith => exact .withTwo operands fun _ _ => calls _ _ _
  | invokeBlock site =>
      cases held : machine.context.blockOf? frame with
      | none =>
          refine .inl (Alone.map _ (.look ?_))
          rw [held]
          exact .fail trivial
      | some closure =>
          refine .inr ⟨_, .block operands held, bind_eq_of_eq ?_⟩
          rw [yieldTo, bind_eq_of_ok (show context machine = .ok machine.context machine from rfl),
            held]
  | defineMethod name body => exact .inl (Deed.defineMethod name body rfl)
  | defined kind object value =>
      exact .withOne operands fun operand => .inl ((isDefined_alone operand).map _)

end Cases

/--
What holds before an instruction survives its deeds, and its call leads to what
holds after it or to an exit with what holds there.
-/
structure Governs (host : Host σ) (observer : Observer τ)
    (enter : Activation → Execution σ τ Value) (code : Sequence) (frame : Nat)
    (instruction : Instruction) (before after : Machine σ τ → Prop)
    (stops : Exit → Machine σ τ → Prop) : Prop where
  moved : ∀ {machine} operands, before machine → before (machine.withOperands operands)
  pushed : ∀ {machine} operands, after machine → after (machine.withOperands operands)
  acts : ∀ {machine machine'}, before machine → Deed host instruction frame machine machine' →
    before machine'
  ends : ∀ {machine}, before machine → after machine
  fails : ∀ {machine error}, before machine → instruction.MayRaise code error →
    stops (.raise error) machine
  calls : ∀ {machine called}, before machine →
    Outgoing host observer enter instruction frame machine called →
    Ends called machine (fun _ => after) stops

namespace Governs

variable {host : Host σ} {observer : Observer τ} {enter : Activation → Execution σ τ Value}
  {code : Sequence} {frame : Nat} {instruction : Instruction} {before after : Machine σ τ → Prop}
  {stops : Exit → Machine σ τ → Prop}
  (governs : Governs host observer enter code frame instruction before after stops)
include governs

/-- What an execution acting by itself comes to. -/
theorem alone {α : Type} {execution : Execution σ τ α} {machine : Machine σ τ}
    (alone : Alone host code frame instruction execution machine) (start : before machine) :
    Ends execution machine (fun _ => before) stops := by
  refine alone.mono (fun _ _ deed => governs.acts start deed) ?_
  rintro _ _ ⟨deed, error, rfl, own⟩
  exact governs.fails (governs.acts start deed) own

theorem perform (operands : List Value) {machine : Machine σ τ} (start : before machine) :
    Ends (perform host observer enter code frame instruction operands) machine (fun _ => after)
      stops := by
  rcases perform_cases host observer enter code frame instruction operands machine with
    alone | ⟨called, outgoing, same⟩
  · exact (governs.alone alone start).mono (fun _ _ holds => governs.ends holds)
      (fun _ _ stopped => stopped)
  · unfold Ends
    rw [same]
    exact (ends_bind _ _).mpr (governs.calls start outgoing)

/-- A whole instruction is governed by what governs its deeds and its call. -/
theorem step {machine : Machine σ τ} (start : before machine) :
    Ends (step host observer enter code frame instruction) machine (fun _ => after) stops := by
  have formed : Alone host code frame instruction (checkForm instruction) machine := by
    cases instruction with
    | expandArray size flag =>
        dsimp only [checkForm]
        split
        · exact .fail trivial
        · exact .pure _
    | _ => exact .pure _
  rw [step_eq, ends_bind]
  refine (governs.alone formed start).mono (fun _ passed holds => ?_) (fun _ _ stopped => stopped)
  refine ends_gather_bind (fun _ => ?_)
    fun _ operands => governs.fails (governs.moved operands holds) trivial
  rw [ends_bind]
  refine (governs.perform _ (governs.moved _ holds)).mono ?_ (fun _ _ stopped => stopped)
  exact fun upshot left holds => ends_settle.mpr (governs.pushed _ holds)

end Governs

end Execution

end StackCode
