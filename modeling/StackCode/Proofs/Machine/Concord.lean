import StackCode.Proofs.Machine.AtOnce

/-!
# What instructions are made of

An instruction looks at its context, moves operands, writes variables, puts
questions to the host, and calls methods and blocks, one thing after another.  A
relation between executions that is closed under each of these relates every
instruction to itself.  It may compare two machines, or say something of one.

The relation may rely on what is known of the context, and the contexts of two
machines need not be the same: it is enough that they answer alike.  In return a
call comes with no blocks but those of the running frame: one in its code, with
the frame's own receiver, or the one that the frame was called with.

An instruction makes one call at most.  So the relation may be another one for
executions that make none, and it need not be closed under two calls in a row.
-/

namespace StackCode

def RunError.ofLimit : RunError → Bool
  | .fuelExceeded | .callDepthExceeded | .hostCallLimitExceeded => true
  | _ => false

/-- An instruction that asks both contexts learns the same. -/
structure Context.AnswersAlike (context context' : Context) : Prop where
  methods : ∀ className name, context'.method? className name = context.method? className name
  globals : ∀ name, context'.global? name = context.global? name
  locals : ∀ frame slot level, context'.local? frame slot level = context.local? frame slot level
  receivers : ∀ frame, context'.selfOf frame = context.selfOf frame
  blocks : ∀ frame, context'.blockOf? frame = context.blockOf? frame

theorem Context.AnswersAlike.refl (context : Context) : context.AnswersAlike context :=
  ⟨fun _ _ => rfl, fun _ => rfl, fun _ _ _ => rfl, fun _ => rfl, fun _ => rfl⟩

/-- A relation between executions, closed under what an instruction does by itself. -/
structure Concord (σ τ σ' τ' : Type) where
  /-- Whether the executions may make a call, and the two executions. -/
  agree : ∀ {α : Type}, Bool → Execution σ τ α → Execution σ' τ' α → Prop
  /-- What is known of every context that is looked at. -/
  known : Context → Prop
  /-- The blocks that a call may come with. -/
  lends : Closure → Prop
  /-- The frames whose instructions are meant. -/
  runs : Nat → Prop := fun _ => True
  pure : ∀ {α : Type} {calls : Bool} (value : α), agree calls (pure value) (pure value)
  bind : ∀ {α β : Type} {calls : Bool} {first : Execution σ τ β} {first' : Execution σ' τ' β}
    {next : β → Execution σ τ α} {next' : β → Execution σ' τ' α}, agree false first first' →
    (∀ value, agree calls (next value) (next' value)) →
    agree calls (first >>= next) (first' >>= next')
  /-- Nothing is called after the call. -/
  after : ∀ {α β : Type} {first : Execution σ τ β} {first' : Execution σ' τ' β}
    {next : β → Execution σ τ α} {next' : β → Execution σ' τ' α}, agree true first first' →
    (∀ value, agree false (next value) (next' value)) →
    agree true (first >>= next) (first' >>= next')
  fail : ∀ {α : Type} {calls : Bool} {error : RunError}, error.ofLimit = false →
    agree calls (Execution.fail (α := α) error) (Execution.fail error)
  look : ∀ {α : Type} {calls : Bool} {next : Context → Execution σ τ α}
    {next' : Context → Execution σ' τ' α},
    (∀ context context', context.AnswersAlike context' → known context →
      agree calls (next context) (next' context')) →
    agree calls (Execution.context >>= next) (Execution.context >>= next')
  popMany : ∀ count, agree false (Execution.popMany count) (Execution.popMany count)
  push : ∀ values, agree false (Execution.push values) (Execution.push values)
  setGlobal : ∀ name value,
    agree false (Execution.modifyContext fun context => context.setGlobal name value)
      (Execution.modifyContext fun context => context.setGlobal name value)
  defineMethod : ∀ frame name body,
    agree false
      (Execution.modifyContext fun context =>
        context.defineMethod (context.selfOf frame).className name body)
      (Execution.modifyContext fun context =>
        context.defineMethod (context.selfOf frame).className name body)
  writeLocal : ∀ {frame}, runs frame → ∀ name slot level value,
    agree false (Execution.writeLocal frame name slot level value)
      (Execution.writeLocal frame name slot level value)

namespace Concord

variable {σ σ' τ τ' : Type}

/-- The questions put to two hosts are related, and so are calls made with lent blocks. -/
structure Partners (concord : Concord σ τ σ' τ') (host : Host σ) (host' : Host σ')
    (observer : Observer τ) (observer' : Observer τ') (enter : Activation → Execution σ τ Value)
    (enter' : Activation → Execution σ' τ' Value) : Prop where
  /-- The host is asked for globals only that some context does not have. -/
  globals : ∀ {context} name, concord.known context → context.global? name = none →
    concord.agree false (Execution.askHost fun state => host.global state name)
      (Execution.askHost fun state => host'.global state name)
  constants : ∀ scope name, concord.agree false
    (Execution.askHost fun state => host.constant state scope name)
    (Execution.askHost fun state => host'.constant state scope name)
  methods : ∀ receiver name, concord.agree false
    (Execution.askHost fun state => host.respondsTo state receiver name)
    (Execution.askHost fun state => host'.respondsTo state receiver name)
  calls : ∀ receiver method arguments block, (∀ closure, block = some closure →
    concord.lends closure) → concord.agree true
      (Execution.callHost host observer enter receiver method arguments block)
      (Execution.callHost host' observer' enter' receiver method arguments block)
  enters : ∀ body receiver block arguments, (∀ closure, block = some closure →
    concord.lends closure) → concord.agree true (enter ⟨body, receiver, none, block, arguments⟩)
      (enter' ⟨body, receiver, none, block, arguments⟩)
  invokes : ∀ closure arguments, concord.lends closure →
    concord.agree true (Execution.invoke enter closure arguments)
      (Execution.invoke enter' closure arguments)

/-- The frame is meant, and the blocks that an instruction finds in it may be lent. -/
structure Supplies (concord : Concord σ τ σ' τ') (frame : Nat) (instruction : Instruction) :
    Prop where
  runs : concord.runs frame
  made : ∀ {site body context}, instruction = .send site (some body) → concord.known context →
    concord.lends ⟨body, context.selfOf frame, frame⟩
  held : ∀ {closure context}, concord.known context → context.blockOf? frame = some closure →
    concord.lends closure

variable {concord : Concord σ τ σ' τ'} {calls : Bool}

/-! ## Operands, locals and labels -/

theorem gather (counts : List Nat) :
    concord.agree false (Execution.gather counts) (Execution.gather counts) := by
  induction counts with
  | nil => exact concord.pure _
  | cons count counts ih =>
      exact concord.bind (concord.popMany count) fun _ => concord.bind ih fun _ => concord.pure _

section Operands

variable {α : Type} (operands : List Value)

theorem withOne {act : Value → Execution σ τ α} {act' : Value → Execution σ' τ' α}
    (acts : ∀ value, concord.agree calls (act value) (act' value)) :
    concord.agree calls (Execution.withOne operands act) (Execution.withOne operands act') := by
  unfold Execution.withOne
  split
  · exact acts _
  · exact concord.fail rfl

theorem withTwo {act : Value → Value → Execution σ τ α} {act' : Value → Value → Execution σ' τ' α}
    (acts : ∀ below top, concord.agree calls (act below top) (act' below top)) :
    concord.agree calls (Execution.withTwo operands act) (Execution.withTwo operands act') := by
  unfold Execution.withTwo
  split
  · exact acts _ _
  · exact concord.fail rfl

theorem withReceiver {act : Value → List Value → Execution σ τ α}
    {act' : Value → List Value → Execution σ' τ' α}
    (acts : ∀ receiver arguments,
      concord.agree calls (act receiver arguments) (act' receiver arguments)) :
    concord.agree calls (Execution.withReceiver operands act)
      (Execution.withReceiver operands act') := by
  unfold Execution.withReceiver
  split
  · exact acts _ _
  · exact concord.fail rfl

end Operands

theorem readLocal (frame : Nat) (name : String) (slot level : Nat) :
    concord.agree calls (Execution.readLocal frame name slot level)
      (Execution.readLocal frame name slot level) := by
  refine concord.look fun context context' alike _ => ?_
  rw [alike.locals]
  cases context.local? frame slot level with
  | some value => exact concord.pure _
  | none => exact concord.fail rfl

theorem symbolOf (value : Value) :
    concord.agree calls (Execution.symbolOf value) (Execution.symbolOf value) := by
  cases value <;> first
    | exact concord.pure _
    | exact concord.fail rfl

theorem targetOf (code : Sequence) (label : Label) :
    concord.agree calls (Execution.targetOf code label) (Execution.targetOf code label) := by
  unfold Execution.targetOf
  split
  · exact concord.pure _
  · exact concord.fail rfl

theorem checkForm (instruction : Instruction) :
    concord.agree false (Execution.checkForm instruction) (Execution.checkForm instruction) := by
  cases instruction with
  | expandArray size flag =>
      dsimp only [Execution.checkForm]
      split
      · exact concord.fail rfl
      · exact concord.pure _
  | _ => exact concord.pure _

/-! ## Calls and questions -/

section Partners

variable {host : Host σ} {host' : Host σ'} {observer : Observer τ} {observer' : Observer τ'}
  {enter : Activation → Execution σ τ Value} {enter' : Activation → Execution σ' τ' Value}
  (partners : concord.Partners host host' observer observer' enter enter')
include partners

theorem call (receiver : Value) (method : String) (arguments : List Value)
    (block : Option Closure) (lent : ∀ closure, block = some closure → concord.lends closure) :
    concord.agree true (Execution.call host observer enter receiver method arguments block)
      (Execution.call host' observer' enter' receiver method arguments block) := by
  refine concord.look fun context context' alike _ => ?_
  rw [alike.methods]
  cases context.method? receiver.className method with
  | none => exact partners.calls receiver method arguments block lent
  | some body =>
      dsimp only
      split
      · exact partners.enters body receiver block arguments lent
      · exact concord.fail rfl

/-- A call whose result is pushed. -/
theorem answer (receiver : Value) (method : String) (arguments : List Value)
    (block : Option Closure) (lent : ∀ closure, block = some closure → concord.lends closure) :
    concord.agree true
      (do
        let value ← Execution.call host observer enter receiver method arguments block
        return Upshot.push [value])
      (do
        let value ← Execution.call host' observer' enter' receiver method arguments block
        return Upshot.push [value]) :=
  concord.after (call partners receiver method arguments block lent) fun _ => concord.pure _

theorem findGlobal (name : String) :
    concord.agree false (Execution.findGlobal host name) (Execution.findGlobal host' name) := by
  refine concord.look fun context context' alike known => ?_
  rw [alike.globals]
  cases missing : context.global? name with
  | some value => exact concord.pure _
  | none =>
      refine concord.bind (partners.globals name known missing) fun found => ?_
      cases found with
      | some value => exact concord.bind (concord.setGlobal name value) fun _ => concord.pure _
      | none => exact concord.pure _

theorem findConstant (name : String) (scope lexically : Value) :
    concord.agree false (Execution.findConstant host name scope lexically)
      (Execution.findConstant host' name scope lexically) := by
  unfold Execution.findConstant
  split
  · split
    · exact partners.constants none name
    · exact concord.pure _
  · exact partners.constants (some scope) name

theorem readConstant (name : String) (scope lexically : Value) :
    concord.agree false (Execution.readConstant host name scope lexically)
      (Execution.readConstant host' name scope lexically) := by
  refine concord.bind (findConstant partners name scope lexically) fun found => ?_
  cases found with
  | some value => exact concord.pure _
  | none => exact concord.fail rfl

theorem isDefined (kind : DefinedKind) (object operand : Value) :
    concord.agree false (Execution.isDefined host kind object operand)
      (Execution.isDefined host' kind object operand) := by
  cases kind with
  | nil | self | trueLiteral | falseLiteral | assignment | expression | localVariable =>
      exact concord.pure _
  | globalVariable => exact concord.bind (findGlobal partners _) fun _ => concord.pure _
  | constant => exact concord.bind (partners.constants _ _) fun _ => concord.pure _
  | method =>
      refine concord.look fun context context' alike _ => ?_
      rw [alike.methods]
      split
      · exact concord.pure _
      · exact partners.methods operand _
  | instanceVariable | classVariable | blockCall | parentMethod => exact concord.fail rfl

theorem yieldTo {frame : Nat} {instruction : Instruction}
    (supplies : concord.Supplies frame instruction) (arguments : List Value) :
    concord.agree true (Execution.yieldTo enter frame arguments)
      (Execution.yieldTo enter' frame arguments) := by
  refine concord.look fun context context' alike known => ?_
  rw [alike.blocks]
  cases held : context.blockOf? frame with
  | none => exact concord.fail rfl
  | some closure => exact partners.invokes closure arguments (supplies.held known held)

/-! ## Instructions -/

/-- Acting on its operands an instruction is related to itself. -/
theorem perform (code : Sequence) {frame : Nat} {instruction : Instruction}
    (supplies : concord.Supplies frame instruction) (operands : List Value) :
    concord.agree true (Execution.perform host observer enter code frame instruction operands)
      (Execution.perform host' observer' enter' code frame instruction operands) := by
  have answers (receiver : Value) (method : String) (arguments : List Value) :=
    answer partners receiver method arguments none nofun
  cases instruction with
  | nop | adjustStack | dup | dupN | topN | setN | putNil | getInlineCache | putObject
  | dupArray | dupHash | putZero | putOne | putString | frozenString | sharedString
  | putSpecialObject | newArray | newHash | concatStrings | toRegexp | setInlineCache =>
      exact concord.pure _
  | putSelf =>
      refine concord.look fun context context' alike _ => ?_
      rw [alike.receivers]
      exact concord.pure _
  | swap | newRange | concatArray | anyToString => exact withTwo operands fun _ _ => concord.pure _
  | pop | splatArray | expandArray => exact withOne operands fun _ => concord.pure _
  | intern =>
      exact withOne operands fun value => concord.bind (symbolOf value) fun _ => concord.pure _
  | objectToString site =>
      refine withOne operands fun value => ?_
      split
      · exact concord.pure _
      · exact answers _ _ _
  | newArrayMin | newArrayMax => exact answers _ _ _
  | getLocal | getOwnLocal | getOuterLocal =>
      exact concord.bind (readLocal _ _ _ _) fun _ => concord.pure _
  | setLocal | setOwnLocal | setOuterLocal =>
      refine withOne operands fun value => ?_
      exact concord.bind (concord.writeLocal supplies.runs _ _ _ _) fun _ => concord.pure _
  | getGlobal name => exact concord.bind (findGlobal partners name) fun _ => concord.pure _
  | setGlobal name =>
      refine withOne operands fun value => ?_
      exact concord.bind (concord.setGlobal name value) fun _ => concord.pure _
  | getConstant name =>
      refine withTwo operands fun scope lexically => ?_
      exact concord.bind (readConstant partners name scope lexically) fun _ => concord.pure _
  | jump label => exact concord.bind (targetOf code label) fun _ => concord.pure _
  | branchIf | branchUnless | branchNil =>
      refine withOne operands fun value => ?_
      dsimp only
      split
      · exact concord.bind (targetOf code _) fun _ => concord.pure _
      · exact concord.pure _
  | caseDispatch =>
      exact withOne operands fun _ => concord.bind (targetOf code _) fun _ => concord.pure _
  | leave => exact withOne operands fun _ => concord.pure _
  | send site block =>
      refine withReceiver operands fun receiver arguments => ?_
      refine concord.look fun context context' alike known => ?_
      rw [alike.receivers]
      refine answer partners receiver site.method arguments _ fun closure lent => ?_
      obtain ⟨body, rfl, rfl⟩ := Option.map_eq_some_iff.mp lent
      exact supplies.made rfl known
  | sendWithoutBlock | operate | notEqual =>
      exact withReceiver operands fun _ _ => answers _ _ _
  | elementWith => exact withOne operands fun _ => answers _ _ _
  | setElementWith => exact withTwo operands fun _ _ => answers _ _ _
  | invokeBlock site =>
      exact concord.after (yieldTo partners supplies operands) fun _ => concord.pure _
  | defineMethod name body =>
      exact concord.bind (concord.defineMethod frame name body) fun _ => concord.pure _
  | defined kind object value =>
      refine withOne operands fun operand => ?_
      exact concord.bind (isDefined partners kind object operand) fun _ => concord.pure _

/-- An instruction is related to itself. -/
theorem step (code : Sequence) {frame : Nat} {instruction : Instruction}
    (supplies : concord.Supplies frame instruction) :
    concord.agree true (Execution.step host observer enter code frame instruction)
      (Execution.step host' observer' enter' code frame instruction) := by
  rw [Execution.step_eq, Execution.step_eq]
  refine concord.bind (checkForm instruction) fun _ => ?_
  refine concord.bind (gather _) fun operands => ?_
  refine concord.after (perform partners code supplies operands) fun upshot => ?_
  exact concord.bind (concord.push upshot.values) fun _ => concord.pure _

end Partners

end Concord

end StackCode
