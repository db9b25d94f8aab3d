import StackCode.Proofs.BlockCalls
import StackCode.Proofs.Machine.Watch

/-!
# More headroom changes nothing

A run that no limit stops does not know how far the limits are.  So with higher
limits it is the same run: nothing but a limit that is reached looks at what is
left of them.

This takes a host that passes failures on.  A host that swallows the failure of
a block goes on after a limit has stopped the block, and then the run with higher
limits is another one.
-/

namespace StackCode

def Exit.ofLimit : Exit → Bool
  | .raise error => error.ofLimit
  | .located fault => fault.error.ofLimit

def HostError.ofLimit : HostError → Bool
  | .block fault => fault.error.ofLimit
  | _ => false

theorem Exit.ofLimit_locate (exit : Exit) (sequence : String) (pc : Nat) :
    (exit.locate sequence pc).error.ofLimit = exit.ofLimit := by
  cases exit <;> rfl

theorem Exit.ofLimit_ofHostError (error : HostError) :
    (Exit.ofHostError error).ofLimit = error.ofLimit := by
  cases error <;> rfl

def FailsWith {ε α : Type} (kind : ε → Bool) : Except ε α → Prop
  | .ok _ => False
  | .error error => kind error = true

/-- Whenever the block fails, the conversation ends with its failure. -/
def Conversation.PassesOn {σ : Type} : Conversation σ → Prop
  | .done .. => True
  | .yield _ _ resume =>
      (∀ error state, resume (.error error) state = .done (.error error) state) ∧
        ∀ answer state, (resume answer state).PassesOn

def Host.PassesOn {σ : Type} (host : Host σ) : Prop :=
  ∀ state receiver method arguments,
    (host.sendWithBlock state receiver method arguments).PassesOn

structure Limits.AtMost (limits limits' : Limits) : Prop where
  fuel : limits.fuel ≤ limits'.fuel
  callDepth : limits.callDepth ≤ limits'.callDepth
  hostCalls : limits.hostCalls ≤ limits'.hostCalls

/-- The second machine is in the same state, with no less left of the fuel and the calls. -/
inductive Machine.Roomier {σ τ : Type} : Machine σ τ → Machine σ τ → Prop where
  | intro {machine : Machine σ τ} {fuel : Nat} {limits : Limits} : machine.fuel ≤ fuel →
      machine.limits.hostCalls ≤ limits.hostCalls → Roomier machine { machine with fuel, limits }

namespace Execution

variable {σ τ α β : Type}

/--
On a roomier machine the second execution does the same as the first, unless a
limit stops the first.  The execution may return where it was stopped, with a
value that says so.
-/
def Outlasts (stopped : α → Prop) (execution execution' : Execution σ τ α) : Prop :=
  ∀ machine machine', machine.Roomier machine' → Ends execution machine
    (fun value after => stopped value ∨
      ∃ after', execution' machine' = .ok value after' ∧ after.Roomier after')
    (fun exit after => exit.ofLimit = true ∨
      ∃ after', execution' machine' = .error exit after' ∧ after.Roomier after')

namespace Outlasts

variable {stopped : α → Prop}

theorem pure (value : α) :
    Outlasts stopped (Pure.pure value : Execution σ τ α) (Pure.pure value) :=
  fun _ _ roomier => .inr ⟨_, rfl, roomier⟩

theorem throw (exit : Exit) :
    Outlasts stopped (throw exit : Execution σ τ α) (throw exit) :=
  fun _ _ roomier => .inr ⟨_, rfl, roomier⟩

/-- Nothing is asked of the second execution where a limit stops the first. -/
theorem fail {error : RunError} (limit : error.ofLimit = true)
    (execution' : Execution σ τ α) : Outlasts stopped (fail error) execution' :=
  fun _ _ _ => .inl limit

/-- Executions in sequence, if a value that says that the first was stopped is heeded. -/
theorem bind_of_stops {stopping : β → Prop} {first first' : Execution σ τ β}
    {next next' : β → Execution σ τ α} (firsts : Outlasts stopping first first')
    (nexts : ∀ value, Outlasts stopped (next value) (next' value))
    (stops : ∀ value, stopping value → ∀ machine,
      Ends (next value) machine (fun value _ => stopped value)
        (fun exit _ => exit.ofLimit = true)) :
    Outlasts stopped (first >>= next) (first' >>= next') := by
  intro machine machine' roomier
  rw [ends_bind]
  refine (firsts machine machine' roomier).mono ?_ ?_
  · rintro value after (stop | ⟨after', done, roomier⟩)
    · exact (stops value stop after).mono (fun _ _ => .inl) (fun _ _ => .inl)
    · rw [bind_eq_of_ok done]
      exact nexts value after after' roomier
  · rintro exit after (stop | ⟨after', failed, roomier⟩)
    · exact .inl stop
    · exact .inr ⟨after', bind_eq_of_error failed, roomier⟩

theorem bind {first first' : Execution σ τ β} {next next' : β → Execution σ τ α}
    (firsts : Outlasts (fun _ => False) first first')
    (nexts : ∀ value, Outlasts stopped (next value) (next' value)) :
    Outlasts stopped (first >>= next) (first' >>= next') :=
  bind_of_stops firsts nexts nofun

/-- An exit at a limit becomes an outcome that says so. -/
theorem attempt {execution execution' : Execution σ τ α}
    (executions : Outlasts (fun _ => False) execution execution') :
    Outlasts (FailsWith Exit.ofLimit) (attempt execution) (attempt execution') := by
  intro machine machine' roomier
  rw [ends_attempt]
  refine (executions machine machine' roomier).mono ?_ ?_
  · rintro value after (stop | ⟨after', done, roomier⟩)
    · exact stop.elim
    · exact .inr ⟨after', by rw [Execution.attempt, done], roomier⟩
  · rintro exit after (stop | ⟨after', failed, roomier⟩)
    · exact .inl stop
    · exact .inr ⟨after', by rw [Execution.attempt, failed], roomier⟩

/-! ## What does not look at the limits -/

theorem get {next next' : Machine σ τ → Execution σ τ α}
    (nexts : ∀ machine machine', machine.Roomier machine' →
      Outlasts stopped (next machine) (next' machine')) :
    Outlasts stopped (get >>= next) (get >>= next') :=
  fun machine machine' roomier => nexts machine machine' roomier machine machine' roomier

theorem look {next next' : Context → Execution σ τ α}
    (nexts : ∀ context, Outlasts stopped (next context) (next' context)) :
    Outlasts stopped (context >>= next) (context >>= next') := by
  rintro machine _ ⟨fuel, calls⟩
  exact nexts machine.context machine _ ⟨fuel, calls⟩

theorem modifyContext (change : Context → Context) :
    Outlasts (σ := σ) (τ := τ) (fun _ => False) (modifyContext change)
      (modifyContext change) := by
  rintro machine _ ⟨fuel, calls⟩
  exact .inr ⟨_, rfl, fuel, calls⟩

theorem askHost {stopped : α → Prop} (question : σ → α × σ) :
    Outlasts (τ := τ) stopped (askHost question) (askHost question) := by
  rintro machine _ ⟨fuel, calls⟩
  exact .inr ⟨_, rfl, fuel, calls⟩

theorem report (observer : Observer τ) (event : Event) :
    Outlasts (σ := σ) (fun _ => False) (report observer event) (report observer event) := by
  rintro machine _ ⟨fuel, calls⟩
  exact .inr ⟨_, rfl, fuel, calls⟩

theorem reportInstruction (observer : Observer τ) (code : Sequence) (pc : Nat)
    (instruction : Instruction) :
    Outlasts (σ := σ) (fun _ => False) (reportInstruction observer code pc instruction)
      (reportInstruction observer code pc instruction) := by
  rintro machine _ ⟨fuel, calls⟩
  rw [ends_reportInstruction, reportInstruction_eq]
  exact .inr ⟨_, rfl, fuel, calls⟩

theorem onStack {stopped : α → Prop} (find : Context → Option (α × Context)) :
    Outlasts (σ := σ) (τ := τ) stopped (onStack find) (onStack find) := by
  rintro machine _ ⟨fuel, calls⟩
  unfold Ends Execution.onStack
  dsimp only
  cases find machine.context with
  | none => exact .inr ⟨_, rfl, fuel, calls⟩
  | some found => exact .inr ⟨_, rfl, fuel, calls⟩

theorem writeLocal (frame : Nat) (name : String) (slot level : Nat) (value : Value) :
    Outlasts (σ := σ) (τ := τ) (fun _ => False) (writeLocal frame name slot level value)
      (writeLocal frame name slot level value) := by
  refine look fun context => ?_
  cases context.setLocal? frame slot level value with
  | none => exact throw _
  | some assigned => exact .modifyContext _

theorem locatedAt {execution execution' : Execution σ τ α}
    (executions : Outlasts (fun _ => False) execution execution') (code : Sequence) (pc : Nat) :
    Outlasts (fun _ => False) (locatedAt code pc execution) (locatedAt code pc execution') := by
  refine .bind_of_stops executions.attempt (fun outcome => ?_) (fun outcome stop machine => ?_)
  · cases outcome with
    | ok value => exact .pure value
    | error exit => exact .throw _
  · cases outcome with
    | ok value => exact stop.elim
    | error exit => exact (exit.ofLimit_locate code.name pc).trans stop

/-! ## What does -/

theorem burn : Outlasts (σ := σ) (τ := τ) (fun _ => False) burn burn := by
  rintro machine _ ⟨fuel, calls⟩
  rw [ends_burn, burn_eq]
  split
  · exact .inl rfl
  · rename_i left
    rw [if_neg (by dsimp only; omega)]
    exact .inr ⟨_, rfl, Nat.sub_le_sub_right fuel 1, calls⟩

theorem countHostCall :
    Outlasts (σ := σ) (τ := τ) (fun _ => False) countHostCall countHostCall := by
  rintro machine _ ⟨fuel, calls⟩
  unfold Ends
  rw [countHostCall_eq, countHostCall_eq]
  by_cases reached : machine.limits.hostCalls ≤ machine.hostCalls
  · rw [if_pos reached]
    exact .inl rfl
  · rw [if_neg reached, if_neg (by dsimp only; omega)]
    exact .inr ⟨_, rfl, fuel, calls⟩

end Outlasts

def outlasting (σ τ : Type) : Concord σ τ σ τ where
  agree _ := Outlasts fun _ => False
  known _ := True
  lends _ := True
  pure := .pure
  bind := .bind
  after := .bind
  fail _ := .throw _
  look nexts := .look fun context => nexts context context (.refl context) trivial
  popMany _ := .onStack _
  push _ := .modifyContext _
  setGlobal _ _ := .modifyContext _
  defineMethod _ _ _ := .modifyContext _
  writeLocal _ := .writeLocal _

/-! ## Calls -/

section Calls

variable {host : Host σ} {observer : Observer τ} {enter enter' : Activation → Execution σ τ Value}
  (enters : ∀ activation, Outlasts (fun _ => False) (enter activation) (enter' activation))
include enters

theorem invoke_outlasts (closure : Closure) (arguments : List Value) :
    Outlasts (fun _ => False) (invoke enter closure arguments)
      (invoke enter' closure arguments) :=
  .look fun _ => enters _

theorem invokeForHost_outlasts (closure : Closure) (arguments : List Value) :
    Outlasts (FailsWith HostError.ofLimit) (invokeForHost enter closure arguments)
      (invokeForHost enter' closure arguments) := by
  refine .bind_of_stops (invoke_outlasts enters closure arguments).attempt (fun outcome => ?_)
    (fun outcome stop machine => ?_)
  · cases outcome <;> exact .pure _
  · cases outcome with
    | ok value => exact stop.elim
    | error exit => exact (exit.ofLimit_locate closure.body.name 0).trans stop

/-- A host that passes failures on ends where a limit stops the block. -/
theorem converse_outlasts (closure : Closure) {conversation : Conversation σ}
    (passesOn : conversation.PassesOn) :
    Outlasts (FailsWith HostError.ofLimit) (converse enter closure conversation)
      (converse enter' closure conversation) := by
  induction conversation with
  | done result state => exact .askHost _
  | yield arguments state resume ih =>
      obtain ⟨ending, further⟩ := passesOn
      refine .bind (.askHost _) fun _ => ?_
      refine .bind_of_stops (invokeForHost_outlasts enters closure arguments) (fun answer => ?_)
        (fun answer stop machine => ?_)
      · refine .get ?_
        rintro machine _ ⟨fuel, calls⟩
        exact ih answer machine.host (further answer machine.host)
      · cases answer with
        | ok value => exact stop.elim
        | error error =>
            rw [ends_bind, ends_get, ending]
            exact stop

theorem converseWithHost_outlasts (passesOn : host.PassesOn) (receiver : Value) (method : String)
    (arguments : List Value) (block : Option Closure) :
    Outlasts (FailsWith HostError.ofLimit)
      (converseWithHost host enter receiver method arguments block)
      (converseWithHost host enter' receiver method arguments block) := by
  cases block with
  | none => exact .askHost fun state => host.send state receiver method arguments
  | some closure =>
      refine .get ?_
      rintro machine _ ⟨fuel, calls⟩
      exact converse_outlasts enters closure (passesOn machine.host receiver method arguments)

theorem callHost_outlasts (passesOn : host.PassesOn) (receiver : Value) (method : String)
    (arguments : List Value) (block : Option Closure) :
    Outlasts (fun _ => False) (callHost host observer enter receiver method arguments block)
      (callHost host observer enter' receiver method arguments block) := by
  refine .bind .countHostCall fun _ => .look fun caller => .bind (.report _ _) fun _ => ?_
  refine .bind_of_stops
    (converseWithHost_outlasts enters passesOn receiver method arguments block)
    (fun result => .bind (.report _ _) fun _ => ?_) (fun result stop machine => ?_)
  · cases result with
    | ok value => exact .pure value
    | error error => exact .throw _
  · cases result with
    | ok value => exact stop.elim
    | error error => exact (Exit.ofLimit_ofHostError error).trans stop

theorem outlasting_partners (passesOn : host.PassesOn) :
    (outlasting σ τ).Partners host host observer observer enter enter' where
  globals _ _ _ := .askHost _
  constants _ _ := .askHost _
  methods _ _ := .askHost _
  calls receiver method arguments block _ :=
    callHost_outlasts enters passesOn receiver method arguments block
  enters _ _ _ _ _ := enters _
  invokes closure arguments _ := invoke_outlasts enters closure arguments

/-! ## Frames -/

theorem advance_outlasts (passesOn : host.PassesOn) (code : Sequence) (frame pc : Nat)
    (instruction : Instruction) :
    Outlasts (fun _ => False) (advance host observer enter code frame pc instruction)
      (advance host observer enter' code frame pc instruction) := by
  refine .bind .burn fun _ => .bind (.reportInstruction observer code pc instruction) fun _ => ?_
  refine .bind (.modifyContext _) fun _ => .bind ?_ fun outcome => ?_
  · exact Concord.step (outlasting_partners enters passesOn) code
      ⟨trivial, fun _ _ => trivial, fun _ _ => trivial⟩
  · cases outcome with
    | jump target => exact .bind (.modifyContext _) fun _ => .pure _
    | next | leave => exact .bind (.pure _) fun _ => .pure _

/-- The instructions of a frame go on with a higher bound as they did with a lower one. -/
theorem dispatch_outlasts (passesOn : host.PassesOn) (code : Sequence) (frame : Nat)
    {bound bound' : Nat} (higher : bound ≤ bound') :
    Outlasts (fun _ => False) (dispatch host observer enter code frame bound)
      (dispatch host observer enter' code frame bound') := by
  induction bound generalizing bound' with
  | zero =>
      -- To run out of bound is to reach a limit, so nothing is asked of the higher bound.
      exact .fail rfl _
  | succ bound ih =>
      obtain ⟨bound', rfl⟩ := Nat.exists_eq_add_of_lt higher
      refine .look fun context => .bind (.locatedAt ?_ code context.pc) fun outcome => ?_
      · cases code.instruction? context.pc with
        | none => exact .throw _
        | some instruction => exact advance_outlasts enters passesOn code frame _ instruction
      · cases outcome with
        | leave result => exact .pure result
        | next | jump => exact ih (by omega)

end Calls

/-- A frame that no limit stops does the same with more room above it. -/
theorem evaluate_outlasts {host : Host σ} (passesOn : host.PassesOn) (observer : Observer τ)
    {room room' : Nat} (higher : room ≤ room') (activation : Activation) :
    Outlasts (fun _ => False) (evaluate host observer room activation)
      (evaluate host observer room' activation) := by
  induction room generalizing room' activation with
  | zero => exact .fail rfl _
  | succ room ih =>
      obtain ⟨room', rfl⟩ := Nat.exists_eq_add_of_lt higher
      refine .get ?_
      rintro caller _ ⟨fuel, calls⟩
      refine .bind (.modifyContext _) fun _ => .bind (.report _ _) fun _ => ?_
      refine .bind (.modifyContext _) fun _ => ?_
      -- Whatever is entered from this frame has one frame less above it on both sides.
      have enters (activation : Activation) := ih (by omega : room ≤ room + room') activation
      refine .bind_of_stops
        (dispatch_outlasts enters passesOn activation.code _ (Nat.succ_le_succ fuel)).attempt
        (fun result => ?_) (fun result stop machine => ?_)
      · refine .bind (.report _ _) fun _ => .bind (.modifyContext _) fun _ => ?_
        cases result with
        | ok value => exact .pure value
        | error exit => exact .throw exit
      · cases result with
        | ok value => exact stop.elim
        | error exit => exact stop

end Execution

namespace ObjectModel

theorem Heeds.passesOn {talk : ObjectModel → Conversation ObjectModel} (heeds : Heeds talk)
    (model : ObjectModel) : (talk model).PassesOn := by
  induction heeds generalizing model with
  | done => trivial
  | yield _ ih =>
      refine ⟨fun error state => rfl, fun answer state => ?_⟩
      cases answer with
      | ok value => exact ih value state
      | error error => trivial

/-- The standard object model swallows no failure. -/
theorem host_passesOn : host.PassesOn := by
  intro model receiver method arguments
  change (model.sendWithBlock receiver method arguments).PassesOn
  rcases sendWithBlock_cases receiver method arguments with ⟨talk, heeds, same⟩ | same
  · rw [same]
    exact heeds.passesOn _
  · rw [same]
    trivial

end ObjectModel

namespace Machine

variable {σ τ : Type}

namespace Roomier

variable {machine machine' : Machine σ τ} (roomier : machine.Roomier machine')
include roomier

theorem context : machine'.context = machine.context := by
  cases roomier
  rfl

theorem host : machine'.host = machine.host := by
  cases roomier
  rfl

theorem trace : machine'.trace = machine.trace := by
  cases roomier
  rfl

theorem keepResult (result : Except Fault Value) :
    (machine.keepResult result).Roomier (machine'.keepResult result) := by
  obtain ⟨fuel, calls⟩ := roomier
  cases result <;> exact ⟨fuel, calls⟩

theorem noting (observer : Observer τ) (event : Event) :
    (machine.noting observer event).Roomier (machine'.noting observer event) := by
  obtain ⟨fuel, calls⟩ := roomier
  exact ⟨fuel, calls⟩

end Roomier

/-- With higher limits a run that no limit stops comes to the same result in the same state. -/
theorem run_roomier {host : Host σ} (passesOn : host.PassesOn) (observer : Observer τ)
    {limits limits' : Limits} (higher : limits.AtMost limits') (state : σ) (trace : τ)
    (context : Context) (code : Sequence)
    (free : ¬ FailsWith (fun fault => fault.error.ofLimit)
      (run host observer limits state trace context code).1) :
    (run host observer limits' state trace context code).1 =
        (run host observer limits state trace context code).1 ∧
      (run host observer limits state trace context code).2.Roomier
        (run host observer limits' state trace context code).2 := by
  have started : ((start limits state trace context).noting observer (.runStart code)).Roomier
      ((start limits' state trace context).noting observer (.runStart code)) :=
    ⟨higher.fuel, higher.hostCalls⟩
  have outlasts := Execution.evaluate_outlasts passesOn observer higher.callDepth
    ⟨code, .main, none, none, []⟩ _ _ started
  simp only [run_eq_conclude] at free ⊢
  revert outlasts free
  unfold Execution.Ends
  cases Execution.evaluate host observer limits.callDepth _ _ with
  | ok value after =>
      rintro free (stop | ⟨after', done, roomier⟩)
      · exact stop.elim
      · rw [done]
        exact ⟨rfl, (roomier.keepResult _).noting _ _⟩
  | error exit after =>
      rintro free (stop | ⟨after', failed, roomier⟩)
      · exact (free ((exit.ofLimit_locate code.name 0).trans stop)).elim
      · rw [failed]
        exact ⟨rfl, (roomier.keepResult _).noting _ _⟩

/--
A run under the standard object model that no limit stops is the same run with
higher limits: it has the same result, it leaves the same context and the same
object model, and whoever follows it sees the same.
-/
theorem raised_limits_change_nothing {limits limits' : Limits} (higher : limits.AtMost limits')
    (model : ObjectModel) (context : Context) (code : Sequence) (observer : Observer τ) (trace : τ)
    (free : ∀ fault, (run ObjectModel.host observer limits model trace context code).1 =
      .error fault → fault.error.ofLimit = false) :
    let lower := run ObjectModel.host observer limits model trace context code
    let raised := run ObjectModel.host observer limits' model trace context code
    raised.1 = lower.1 ∧ raised.2.context = lower.2.context ∧ raised.2.host = lower.2.host ∧
      raised.2.trace = lower.2.trace := by
  have unstopped : ¬ FailsWith (fun fault => fault.error.ofLimit)
      (run ObjectModel.host observer limits model trace context code).1 := by
    cases ended : (run ObjectModel.host observer limits model trace context code).1 with
    | ok value => exact id
    | error fault => simp [FailsWith, free fault ended]
  obtain ⟨result, roomier⟩ :=
    run_roomier ObjectModel.host_passesOn observer higher model trace context code unstopped
  exact ⟨result, roomier.context, roomier.host, roomier.trace⟩

/-- Limits that are just enough are no different from the usual ones. -/
theorem raised_limits_change_nothing_eachOnce :
    let just : Limits := ⟨5, 2, 1⟩
    let model : ObjectModel := .withTables .empty .empty
    let lower := run ObjectModel.host (.recorder .full) just model #[] .empty eachOnce
    let raised := run ObjectModel.host (.recorder .full) .usual model #[] .empty eachOnce
    just.AtMost .usual ∧
    (∀ fault, lower.1 = .error fault → fault.error.ofLimit = false) ∧
    lower.1.isOk = true ∧ lower.2.fuel = 0 ∧ lower.2.hostCalls = 1 ∧
    raised.1 = lower.1 ∧ raised.2.context = lower.2.context ∧ raised.2.host = lower.2.host ∧
      raised.2.trace = lower.2.trace := by
  have higher : (Limits.mk 5 2 1).AtMost .usual := by constructor <;> decide
  have returned : (run ObjectModel.host (.recorder .full) ⟨5, 2, 1⟩ (.withTables .empty .empty) #[]
      .empty eachOnce).1.isOk = true := by decide +kernel
  have free (fault : Fault) (failed : (run ObjectModel.host (.recorder .full) ⟨5, 2, 1⟩
      (.withTables .empty .empty) #[] .empty eachOnce).1 = .error fault) :
      fault.error.ofLimit = false := by
    rw [failed] at returned
    cases returned
  refine ⟨higher, free, returned, by decide +kernel, by decide +kernel, ?_⟩
  exact raised_limits_change_nothing higher _ _ _ _ _ free

end Machine

end StackCode
