import StackCode.Proofs.Machine.Conservation
import StackCode.Proofs.Machine.Watch

/-!
# Hosts that answer alike

A host answers from its state, and the machine hands the state on without looking
at it.  So runs under two hosts go alike if the hosts answer alike: on states that
are alike they give the same answers and keep states that are alike.

The host is asked for a global only while the program has none of that name.  The
hosts need not agree on globals that the program has, and it never loses one.
-/

namespace StackCode

section Likeness

variable {σ σ' : Type} (alike : σ → σ' → Prop) (owned : String → Prop)

/-- The same results and requests, with states that are alike. -/
inductive Conversation.Alike : Conversation σ → Conversation σ' → Prop where
  | done {state : σ} {state' : σ'} (result : Except HostError Value) : alike state state' →
      Alike (.done result state) (.done result state')
  | yield {arguments : List Value} {state : σ} {state' : σ'}
      {resume : Except HostError Value → σ → Conversation σ}
      {resume' : Except HostError Value → σ' → Conversation σ'} : alike state state' →
      (∀ answer next next', alike next next' → Alike (resume answer next) (resume' answer next')) →
      Alike (.yield arguments state resume) (.yield arguments state' resume')

structure Host.SameAnswer {α : Type} (given : α × σ) (given' : α × σ') : Prop where
  answer : given'.1 = given.1
  state : alike given.2 given'.2

/-- The hosts answer alike, except that they may disagree on the globals that the program owns. -/
structure Host.Alike (host : Host σ) (host' : Host σ') : Prop where
  send : ∀ {state state'}, alike state state' → ∀ receiver method arguments,
    SameAnswer alike (host.send state receiver method arguments)
      (host'.send state' receiver method arguments)
  sendWithBlock : ∀ {state state'}, alike state state' → ∀ receiver method arguments,
    (host.sendWithBlock state receiver method arguments).Alike alike
      (host'.sendWithBlock state' receiver method arguments)
  global : ∀ {state state'}, alike state state' → ∀ name, ¬ owned name →
    SameAnswer alike (host.global state name) (host'.global state' name)
  constant : ∀ {state state'}, alike state state' → ∀ scope name,
    SameAnswer alike (host.constant state scope name) (host'.constant state' scope name)
  respondsTo : ∀ {state state'}, alike state state' → ∀ receiver name,
    SameAnswer alike (host.respondsTo state receiver name) (host'.respondsTo state' receiver name)

def Context.Tracks (context : Context) (name : String) : Prop :=
  (context.global? name).isSome

/-- Setting a global loses none. -/
theorem Context.Tracks.setGlobal {context : Context} {name : String} (tracks : context.Tracks name)
    (other : String) (value : Value) : (context.setGlobal other value).Tracks name := by
  unfold Tracks global? Context.setGlobal
  rw [Table.get?_insert]
  split
  · rfl
  · exact tracks

theorem Context.tracks_setGlobal (context : Context) (name : String) (value : Value) :
    (context.setGlobal name value).Tracks name := by
  simp [Tracks, global?, Context.setGlobal]

def Machine.withHost {τ : Type} (machine : Machine σ τ) (host : σ') : Machine σ' τ :=
  { context := machine.context, limits := machine.limits, fuel := machine.fuel,
    hostCalls := machine.hostCalls, host, trace := machine.trace }

/-- Both are one machine but for the hosts, which are alike; and it has the globals it owns. -/
inductive Machine.Alike {τ : Type} : Machine σ τ → Machine σ' τ → Prop where
  | intro {machine : Machine σ τ} {state' : σ'} : alike machine.host state' →
      (∀ name, owned name → machine.context.Tracks name) →
      Alike machine (machine.withHost state')

namespace Machine.Alike

variable {alike owned} {τ : Type} {machine : Machine σ τ} {machine' : Machine σ' τ}
  (both : machine.Alike alike owned machine')
include both

theorem context : machine'.context = machine.context := by
  cases both
  rfl

theorem trace : machine'.trace = machine.trace := by
  cases both
  rfl

theorem host : alike machine.host machine'.host := by
  obtain ⟨like, -⟩ := both
  exact like

theorem tracks (name : String) (own : owned name) : machine.context.Tracks name := by
  obtain ⟨-, has⟩ := both
  exact has name own

end Machine.Alike

namespace Execution

variable {τ α : Type}

abbrev GoAlike (execution : Execution σ τ α) (execution' : Execution σ' τ α) : Prop :=
  Alongside (Machine.Alike alike owned) (fun _ _ _ => True) execution execution'

variable {alike owned}

theorem likeness : Tandem (τ := τ) (Machine.Alike alike owned) (fun _ _ _ => True) where
  context := by rintro _ _ ⟨like, has⟩; rfl
  moved := by rintro _ _ ⟨like, has⟩ operands; exact ⟨like, has⟩
  jumped := by rintro _ _ ⟨like, has⟩ pc; exact ⟨like, has⟩
  globalSet := by
    rintro _ _ ⟨like, has⟩ name value
    exact ⟨like, fun other own => (has other own).setGlobal name value⟩
  methodDefined := by rintro _ _ ⟨like, has⟩ className name body; exact ⟨like, has⟩
  localSet := by
    rintro machine _ ⟨like, has⟩ frame slot level value context assigned
    obtain ⟨index, change, keeps, rfl, -⟩ := Context.exists_modifyFrame_of_setLocal? assigned
    exact ⟨like, has⟩
  failed _ _ _ := trivial
  passed _ _ := trivial

theorem askHost_alike {question : σ → α × σ} {question' : σ' → α × σ'}
    (same : ∀ {state state'}, alike state state' →
      Host.SameAnswer alike (question state) (question' state')) :
    GoAlike (τ := τ) alike owned (askHost question) (askHost question') := by
  rintro machine _ ⟨like, has⟩
  exact ⟨(same like).answer, ⟨(same like).state, has⟩⟩

theorem get_alike {next : Machine σ τ → Execution σ τ α} {next' : Machine σ' τ → Execution σ' τ α}
    (nexts : ∀ machine state', alike machine.host state' →
      GoAlike alike owned (next machine) (next' (machine.withHost state'))) :
    GoAlike alike owned (get >>= next) (get >>= next') := by
  rintro machine _ ⟨like, has⟩
  exact meets_get (nexts machine _ like machine _ ⟨like, has⟩)

theorem modifyContext_alike {change : Context → Context}
    (same : ∀ context, (change context).globals = context.globals) :
    GoAlike (τ := τ) alike owned (modifyContext change) (modifyContext change) := by
  rintro machine _ ⟨like, has⟩
  refine ⟨rfl, ⟨like, fun name own => ?_⟩⟩
  unfold Context.Tracks Context.global?
  rw [same]
  exact has name own

theorem report_alike (observer : Observer τ) (event : Event) :
    GoAlike alike owned (report observer event) (report observer event) := by
  rintro machine _ ⟨like, has⟩
  exact ⟨rfl, ⟨like, has⟩⟩

theorem countHostCall_alike : GoAlike (τ := τ) alike owned countHostCall countHostCall := by
  rintro machine _ ⟨like, has⟩
  refine meets_countHostCall ?_ ?_ ?_ ?_
  · rfl
  · rfl
  · exact fun _ => ⟨⟨like, has⟩, trivial⟩
  · exact fun _ => ⟨like, has⟩

theorem throw_alike (exit : Exit) :
    GoAlike (τ := τ) alike owned (throw exit : Execution σ τ α) (throw exit) :=
  fun _ _ both => ⟨rfl, both, trivial⟩

theorem locatedAt_alike {execution : Execution σ τ α} {execution' : Execution σ' τ α}
    (goAlike : GoAlike alike owned execution execution') (code : Sequence) (pc : Nat) :
    GoAlike alike owned (locatedAt code pc execution) (locatedAt code pc execution') := by
  refine .bind (.attempt goAlike) fun outcome => ?_
  cases outcome with
  | ok value => exact .pure value
  | error exit => exact throw_alike _

/-! ## Calls -/

section Calls

variable {host : Host σ} {host' : Host σ'} (same : host.Alike alike owned host')
  {observer : Observer τ} {enter : Activation → Execution σ τ Value}
  {enter' : Activation → Execution σ' τ Value}
  (enters : ∀ activation, GoAlike alike owned (enter activation) (enter' activation))
include enters

theorem converse_alike (block : Closure) {conversation : Conversation σ}
    {conversation' : Conversation σ'} (talks : conversation.Alike alike conversation') :
    GoAlike alike owned (converse enter block conversation)
      (converse enter' block conversation') := by
  induction talks with
  | done result like => exact askHost_alike fun _ => ⟨rfl, like⟩
  | yield like _ ih =>
      refine .bind (askHost_alike fun _ => ⟨rfl, like⟩) fun _ => ?_
      refine .bind (.bind ?_ ?_) fun answer => ?_
      · exact .attempt (.bind (.context likeness) fun _ => enters _)
      · rintro (exit | value) <;> exact .pure _
      · exact get_alike fun machine state' like => ih answer _ _ like

include same

theorem converseWithHost_alike (receiver : Value) (method : String) (arguments : List Value)
    (block : Option Closure) :
    GoAlike alike owned (converseWithHost host enter receiver method arguments block)
      (converseWithHost host' enter' receiver method arguments block) := by
  cases block with
  | none => exact askHost_alike fun like => same.send like receiver method arguments
  | some closure =>
      refine get_alike fun machine state' like => converse_alike enters closure ?_
      exact same.sendWithBlock like receiver method arguments

theorem callHost_alike (receiver : Value) (method : String) (arguments : List Value)
    (block : Option Closure) :
    GoAlike alike owned (callHost host observer enter receiver method arguments block)
      (callHost host' observer enter' receiver method arguments block) := by
  refine .bind countHostCall_alike fun _ => .bind (.context likeness) fun caller => ?_
  refine .bind (report_alike _ _) fun _ => .bind ?_ fun result => ?_
  · exact converseWithHost_alike same enters receiver method arguments block
  · refine .bind (report_alike _ _) fun _ => ?_
    cases result with
    | ok value => exact .pure value
    | error error => exact throw_alike _

theorem alike_partners :
    Partners (Machine.Alike alike owned) (fun _ _ _ => True) host host' observer observer enter
      enter' where
  globals := by
    -- A machine that owns a global has it, so a missing one is not owned.
    rintro _ _ name ⟨-, has⟩ missing
    refine askHost_alike fun like => same.global like name fun own => ?_
    have there := has name own
    simp [Context.Tracks, missing] at there
  constants scope name := askHost_alike fun like => same.constant like scope name
  methods receiver name := askHost_alike fun like => same.respondsTo like receiver name
  calls := callHost_alike same enters
  enters := enters

/-! ## Frames -/

theorem advance_alike (code : Sequence) (frame pc : Nat) (instruction : Instruction) :
    GoAlike alike owned (advance host observer enter code frame pc instruction)
      (advance host' observer enter' code frame pc instruction) := by
  rintro machine _ ⟨like, has⟩
  refine advance_meets likeness (alike_partners same enters) code frame pc instruction ?_ ?_ ?_ ?_
  · rfl
  · exact fun _ => ⟨⟨like, has⟩, trivial⟩
  · exact fun _ => ⟨like, has⟩
  · exact fun _ _ _ both _ => ⟨both, trivial⟩

theorem dispatch_alike (code : Sequence) (frame bound : Nat) :
    GoAlike alike owned (dispatch host observer enter code frame bound)
      (dispatch host' observer enter' code frame bound) := by
  induction bound with
  | zero => exact throw_alike _
  | succ bound ih =>
      refine .bind (.context likeness) fun context => .bind (locatedAt_alike ?_ code _) ?_
      · cases code.instruction? context.pc with
        | none => exact throw_alike _
        | some instruction => exact advance_alike same enters code frame _ instruction
      · intro outcome
        cases outcome with
        | leave result => exact .pure result
        | next | jump => exact ih

end Calls

theorem evaluate_alike {host : Host σ} {host' : Host σ'} (same : host.Alike alike owned host')
    (observer : Observer τ) (room : Nat) (activation : Activation) :
    GoAlike alike owned (evaluate host observer room activation)
      (evaluate host' observer room activation) := by
  induction room generalizing activation with
  | zero => exact throw_alike _
  | succ room ih =>
      refine get_alike fun caller _ _ => .bind (modifyContext_alike fun _ => rfl) fun _ => ?_
      refine .bind (report_alike _ _) fun _ => .bind (modifyContext_alike fun _ => rfl) fun _ => ?_
      refine .bind (.attempt (dispatch_alike same ih activation.code _ _)) fun result => ?_
      refine .bind (report_alike _ _) fun _ => ?_
      refine .bind (modifyContext_alike fun _ => Context.globals_leave _ _) fun _ => ?_
      cases result with
      | ok value => exact .pure value
      | error exit => exact throw_alike exit

end Execution

namespace Machine

variable {τ : Type} {alike owned}

/-- Runs under hosts that answer alike go alike, if the context has the globals it owns. -/
theorem run_alike {host : Host σ} {host' : Host σ'} (same : host.Alike alike owned host')
    (observer : Observer τ) (limits : Limits) {state : σ} {state' : σ'} (like : alike state state')
    (trace : τ) {context : Context} (has : ∀ name, owned name → context.Tracks name)
    (code : Sequence) :
    let (result, ended) := run host observer limits state trace context code
    let (result', ended') := run host' observer limits state' trace context code
    result' = result ∧ ended.Alike alike owned ended' := by
  have started : ((start limits state trace context).noting observer (.runStart code)).Alike alike
      owned ((start limits state' trace context).noting observer (.runStart code)) :=
    ⟨like, has⟩
  have ended := Execution.evaluate_alike same observer limits.callDepth
    ⟨code, .main, none, none, []⟩ _ _ started
  obtain ⟨result, _, _, ⟨like, has⟩, one, other⟩ := exists_conclude ended observer observer code
  simp only [run_eq_conclude]
  rw [one, other]
  refine ⟨rfl, ?_⟩
  cases result with
  | ok value => exact ⟨like, has⟩
  | error fault => exact ⟨like, has⟩

end Machine

end Likeness

end StackCode
