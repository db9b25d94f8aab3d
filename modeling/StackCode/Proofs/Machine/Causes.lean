import StackCode.Proofs.Machine.Course
import StackCode.Proofs.OwnErrors

/-!
# What a run fails with was raised in it

An error goes into the history where it is raised, and the fault that a frame ends
with says no other.  Only a host could report the failure of a block that never
failed.  If it reports none but those it was told of, a run that fails has raised
the error that it fails with.  So what is known of all errors in the history of a
run is known of its result.
-/

namespace StackCode

/-! ## Hosts that make up no faults -/

/-- The conversation ends with the failure of a block only if it was told of that one. -/
def Conversation.Candid {σ : Type} : (Fault → Prop) → Conversation σ → Prop
  | told, .done result _ => ∀ fault, result = .error (.block fault) → told fault
  | told, .yield _ _ resume => ∀ answer state,
      (resume answer state).Candid fun fault => told fault ∨ answer = .error (.block fault)

/-- The host reports no failure of a block but those that it was told of in the same call. -/
structure Host.Candid {σ : Type} (host : Host σ) : Prop where
  sends : ∀ state receiver method arguments fault,
    (host.send state receiver method arguments).1 ≠ .error (.block fault)
  talks : ∀ state receiver method arguments,
    (host.sendWithBlock state receiver method arguments).Candid fun _ => False

namespace ObjectModel

theorem Heeds.candid {talk : ObjectModel → Conversation ObjectModel} (heeds : Heeds talk)
    (model : ObjectModel) (told : Fault → Prop) : (talk model).Candid told := by
  induction heeds generalizing model told with
  | done value => rintro fault ⟨⟩
  | yield _ ih =>
      intro answer model'
      cases answer with
      | ok value => exact ih value model' _
      | error error =>
          rintro fault ⟨⟩
          exact .inr rfl

/-- The standard object model reports what blocks fail with, and errors of its own. -/
theorem host_candid : host.Candid where
  sends model receiver method arguments fault := send_own model receiver method arguments fault
  talks model receiver method arguments := by
    change (model.sendWithBlock receiver method arguments).Candid _
    rcases sendWithBlock_cases receiver method arguments with ⟨talk, heeds, same⟩ | same
    · rw [same]
      exact heeds.candid _ _
    · rw [same]
      intro fault failed
      exact absurd failed (send_own model receiver method arguments fault)

end ObjectModel

/-! ## Errors in the history -/

namespace History

/-- The error was raised. -/
def Raises (history : History) (error : RunError) : Prop :=
  ∃ context, .raise error context ∈ history

/-- All errors of the earlier history are in the later one. -/
def Recalls (later earlier : History) : Prop :=
  ∀ error, earlier.Raises error → later.Raises error

theorem Recalls.refl (history : History) : history.Recalls history :=
  fun _ => id

theorem Recalls.trans {first middle last : History} (later : last.Recalls middle)
    (earlier : middle.Recalls first) : last.Recalls first :=
  fun error raised => later error (earlier error raised)

theorem recalls_append (history added : History) : (history ++ added).Recalls history := by
  rintro error ⟨context, seen⟩
  exact ⟨context, List.mem_append_left added seen⟩

end History

theorem Machine.recalls_noting {σ : Type} (machine : Machine σ History) (event : Event) :
    (machine.noting History.watcher event).trace.Recalls machine.trace := by
  dsimp only [noting]
  rw [History.see_watcher]
  exact History.recalls_append _ _

namespace Exit

/-- The error that the exit is about, with or without a place. -/
def error : Exit → RunError
  | .raise error => error
  | .located fault => fault.error

theorem error_locate (exit : Exit) (sequence : String) (pc : Nat) :
    (exit.locate sequence pc).error = exit.error := by
  cases exit <;> rfl

/-- An exit with a place is about an error that was raised. -/
def Founded (history : History) (exit : Exit) : Prop :=
  ∀ fault, exit = .located fault → history.Raises fault.error

theorem founded_raise (history : History) (error : RunError) :
    (raise error).Founded history := by
  rintro fault ⟨⟩

/-- Once an error is noted, the exit is about an error that was raised. -/
theorem Founded.raises {history : History} {exit : Exit} (founded : exit.Founded history)
    (context : Context) : (history ++ History.raised context exit).Raises exit.error := by
  cases exit with
  | raise error => exact ⟨context, List.mem_append_right _ (List.mem_singleton.mpr rfl)⟩
  | located fault => exact History.recalls_append _ _ _ (founded fault rfl)

end Exit

namespace Execution

variable {σ α : Type}

/-- No raised error is forgotten, and what the execution exits with is founded. -/
def IsFounded (execution : Execution σ History α) : Prop :=
  ∀ machine, Ends execution machine (fun _ after => after.trace.Recalls machine.trace)
    (fun exit after => after.trace.Recalls machine.trace ∧ exit.Founded after.trace)

/-- No raised error is forgotten, and what the execution exits with was raised. -/
def IsRaised (execution : Execution σ History α) : Prop :=
  ∀ machine, Ends execution machine (fun _ after => after.trace.Recalls machine.trace)
    (fun exit after => after.trace.Recalls machine.trace ∧ after.trace.Raises exit.error)

theorem IsRaised.founded {execution : Execution σ History α} (raised : IsRaised execution) :
    IsFounded execution := by
  refine fun machine => (raised machine).mono (fun _ _ => id) ?_
  rintro exit after ⟨recalls, raised⟩
  refine ⟨recalls, ?_⟩
  rintro fault rfl
  exact raised

/-! ## Calls -/

section Calls

variable {host : Host σ} (candid : host.Candid) {enter : Activation → Execution σ History Value}
  (enters : ∀ activation, IsRaised (enter activation))
include enters

theorem invoke_raised (closure : Closure) (arguments : List Value) :
    IsRaised (invoke enter closure arguments) :=
  fun machine => (ends_bind _ _).mpr (ends_context.mpr (enters _ machine))

/-- What the host was told of before was raised before, and what it is told now is raised now. -/
theorem converse_founded (closure : Closure) {told : Fault → Prop}
    {conversation : Conversation σ} (candid : conversation.Candid told)
    {machine : Machine σ History} (known : ∀ fault, told fault → machine.trace.Raises fault.error) :
    Ends (converse enter closure conversation) machine
      (fun result after => after.trace.Recalls machine.trace ∧
        ∀ fault, result = .error (.block fault) → after.trace.Raises fault.error)
      (fun _ _ => False) := by
  induction conversation generalizing machine told with
  | done result state => exact ⟨.refl _, fun fault failed => known fault (candid fault failed)⟩
  | yield arguments state resume ih =>
      have further {answer : Except HostError Value} {after : Machine σ History}
          (recalls : after.trace.Recalls machine.trace)
          (answered : ∀ fault, answer = .error (.block fault) →
            after.trace.Raises fault.error) :
          Ends (converse enter closure (resume answer after.host)) after
            (fun result last => last.trace.Recalls machine.trace ∧
              ∀ fault, result = .error (.block fault) → last.trace.Raises fault.error)
            (fun _ _ => False) := by
        refine (ih answer after.host (candid answer after.host) ?_).mono ?_ (fun _ _ => id)
        · rintro fault (before | now)
          · exact recalls _ (known fault before)
          · exact answered fault now
        · rintro result last ⟨later, reported⟩
          exact ⟨later.trans recalls, reported⟩
      unfold converse invokeForHost
      rw [ends_bind, ends_askHost, ends_bind, ends_bind, ends_attempt]
      refine (invoke_raised enters closure arguments _).mono ?_ ?_
      · intro value after recalls
        refine further recalls ?_
        rintro fault ⟨⟩
      · rintro exit after ⟨recalls, raised⟩
        refine further recalls ?_
        rintro fault ⟨⟩
        rw [Exit.error_locate]
        exact raised

include candid

theorem converseWithHost_founded (receiver : Value) (method : String) (arguments : List Value)
    (block : Option Closure) (machine : Machine σ History) :
    Ends (converseWithHost host enter receiver method arguments block) machine
      (fun result after => after.trace.Recalls machine.trace ∧
        ∀ fault, result = .error (.block fault) → after.trace.Raises fault.error)
      (fun _ _ => False) := by
  cases block with
  | none =>
      exact ⟨.refl _, fun fault failed =>
        absurd failed (candid.sends machine.host receiver method arguments fault)⟩
  | some closure =>
      exact converse_founded enters closure
        (candid.talks machine.host receiver method arguments) fun _ told => told.elim

theorem callHost_founded (receiver : Value) (method : String) (arguments : List Value)
    (block : Option Closure) :
    IsFounded (callHost host History.watcher enter receiver method arguments block) := by
  intro machine
  unfold callHost
  rw [ends_bind, ends_countHostCall]
  split
  · exact ⟨.refl _, Exit.founded_raise _ _⟩
  · rw [ends_bind, ends_context, ends_bind, ends_report, ends_bind]
    refine (converseWithHost_founded candid enters receiver method arguments block _).mono ?_
      (fun _ _ impossible => impossible.elim)
    rintro result after ⟨recalls, reported⟩
    have recalls := recalls.trans (Machine.recalls_noting _ _)
    rw [ends_bind, ends_report]
    have left := after.recalls_noting
      (.exit (.hostCall method) machine.context.frames.size (machine.context.pc - 1))
    cases result with
    | ok value => exact left.trans recalls
    | error error =>
        refine ⟨left.trans recalls, ?_⟩
        cases error with
        | block fault =>
            rintro _ ⟨⟩
            exact left _ (reported fault rfl)
        | _ => exact Exit.founded_raise _ _

theorem call_founded (receiver : Value) (method : String) (arguments : List Value)
    (block : Option Closure) :
    IsFounded (call host History.watcher enter receiver method arguments block) := by
  intro machine
  unfold call
  rw [ends_bind, ends_context]
  cases machine.context.method? receiver.className method with
  | none => exact callHost_founded candid enters receiver method arguments block machine
  | some body =>
      dsimp only
      split
      · exact (enters _).founded machine
      · exact ⟨.refl _, Exit.founded_raise _ _⟩

/-! ## Frames -/

theorem step_founded (code : Sequence) (frame : Nat) (instruction : Instruction) :
    IsFounded (step host History.watcher enter code frame instruction) := by
  intro machine
  suffices governs : Governs host History.watcher enter code frame instruction
      (fun now => now.trace.Recalls machine.trace) (fun after => after.trace.Recalls machine.trace)
      (fun exit after => after.trace.Recalls machine.trace ∧ exit.Founded after.trace) from
    governs.step (.refl _)
  constructor
  case moved | pushed => exact fun _ recalls => recalls
  case ends => exact fun recalls => recalls
  case acts =>
    intro now after recalls deed
    cases deed <;> exact recalls
  case fails => exact fun recalls _ => ⟨recalls, Exit.founded_raise _ _⟩
  case calls =>
    intro now called recalls outgoing
    have founded : IsFounded called := by
      cases outgoing with
      | plain receiver method arguments => exact call_founded candid enters _ _ _ _
      | withBlock receiver arguments => exact call_founded candid enters _ _ _ _
      | block arguments => exact (invoke_raised enters _ arguments).founded
    refine (founded now).mono (fun _ _ later => later.trans recalls) ?_
    rintro exit last ⟨later, founded⟩
    exact ⟨later.trans recalls, founded⟩

theorem advance_founded (code : Sequence) (frame pc : Nat) (instruction : Instruction) :
    IsFounded (advance host History.watcher enter code frame pc instruction) := by
  intro machine
  unfold advance
  rw [ends_bind, ends_burn]
  split
  · exact ⟨.refl _, Exit.founded_raise _ _⟩
  · rw [ends_bind, ends_reportInstruction, ends_bind, ends_modifyContext, ends_bind]
    have reported := Machine.recalls_noting { machine with fuel := machine.fuel - 1 }
      (.instruction code pc instruction machine.context.depth)
    refine (step_founded candid enters code frame instruction _).mono ?_ ?_
    · intro outcome after recalls
      cases outcome <;> exact recalls.trans reported
    · rintro exit after ⟨recalls, founded⟩
      exact ⟨recalls.trans reported, founded⟩

theorem dispatchWatched_raised (code : Sequence) (frame bound : Nat) :
    IsRaised (dispatchWatched host enter code frame bound) := by
  have noted {execution : Execution σ History Outcome} (founded : IsFounded execution) :
      IsRaised (noting execution) := by
    intro machine
    rw [ends_noting]
    refine (founded machine).mono (fun _ _ => id) ?_
    rintro exit after ⟨recalls, founded⟩
    exact ⟨(History.recalls_append _ _).trans recalls, founded.raises _⟩
  induction bound with
  | zero =>
      intro machine
      exact ⟨History.recalls_append _ _, (Exit.founded_raise _ _).raises machine.context⟩
  | succ bound ih =>
      intro machine
      unfold dispatchWatched
      rw [ends_bind, ends_context, ends_bind, ends_locatedAt]
      refine (noted (fun now => ?_) machine).mono ?_ ?_
      · cases code.instruction? machine.context.pc with
        | none => exact ⟨.refl _, Exit.founded_raise _ _⟩
        | some instruction => exact advance_founded candid enters code frame _ instruction now
      · intro outcome after recalls
        have further := (ih after).mono (fun _ _ later => later.trans recalls)
          (fun _ _ ended => And.imp_left (·.trans recalls) ended)
        cases outcome with
        | leave result => exact recalls
        | next | jump => exact further
      · rintro exit after ⟨recalls, raised⟩
        refine ⟨recalls, ?_⟩
        change after.trace.Raises (exit.locate code.name machine.context.pc).error
        rw [Exit.error_locate]
        exact raised

end Calls

theorem evaluateWatched_raised {host : Host σ} (candid : host.Candid) (room : Nat)
    (activation : Activation) : IsRaised (evaluateWatched host room activation) := by
  induction room generalizing activation with
  | zero =>
      intro machine
      exact ⟨History.recalls_append _ _, (Exit.founded_raise _ _).raises machine.context⟩
  | succ room ih =>
      intro machine
      unfold evaluateWatched
      simp only [ends_bind, ends_get, ends_modifyContext, ends_report, ends_attempt]
      have entered := (machine.entering activation).recalls_noting
        (.enter (.frame activation.code) (machine.context.frames.size + 1) machine.context.pc)
      have left (after : Machine σ History) := after.recalls_noting
        (.exit (.frame activation.code) (machine.context.frames.size + 1) machine.context.pc)
      refine (dispatchWatched_raised candid ih activation.code machine.context.frames.size
        (machine.fuel + 1) _).mono ?_ ?_
      · exact fun value after recalls => (left after).trans (recalls.trans entered)
      · rintro exit after ⟨recalls, raised⟩
        exact ⟨(left after).trans (recalls.trans entered), left after _ raised⟩

end Execution

namespace Machine

section Failing

variable {σ : Type} {host : Host σ} (candid : host.Candid) {limits : Limits} {state : σ}
  {context : Context} {code : Sequence} {fault : Fault}
include candid

/-- The error that a run fails with is in its history. -/
theorem failed_raises (failed : (watch host limits state context code).1 = .error fault) :
    (watch host limits state context code).2.trace.Raises fault.error := by
  have raised := Execution.evaluateWatched_raised candid limits.callDepth
    ⟨code, .main, none, none, []⟩
    ((start limits state [] context).noting History.watcher (.runStart code))
  unfold watch at failed ⊢
  cases ended : Execution.evaluateWatched host limits.callDepth ⟨code, .main, none, none, []⟩
    ((start limits state [] context).noting History.watcher (.runStart code)) with
  | ok value after =>
      rw [ended] at failed
      cases failed
  | error exit after =>
      rw [ended] at failed
      obtain rfl := Except.error.inj failed
      rw [Exit.error_locate]
      exact after.recalls_noting _ _ (raised.of_error ended).2

variable {τ : Type} {observer : Observer τ} {trace : τ}
  (failed : (run host observer limits state trace context code).1 = .error fault)
include failed

/-- A run that fails for want of fuel has run as many instructions as there was fuel for. -/
theorem executed_of_fuelExceeded (spent : fault.error = .fuelExceeded) :
    (watch host limits state context code).2.trace.executed = limits.fuel := by
  obtain ⟨same, tallies⟩ :=
    watch_tallies host.counts_anything observer limits state trivial trace context code
  obtain ⟨moment, seen⟩ := failed_raises candid (same.symm.trans failed)
  obtain ⟨earlier, later, split⟩ := List.append_of_mem seen
  have before : History.executed earlier = limits.fuel :=
    (tallies.balances.lawful.allowed split).2.1 spent
  have paid := tallies.balances.fuel
  rw [split, History.executed_append] at paid ⊢
  omega

/-- A run of assembled code does not fail because a label is missing. -/
theorem ne_badLabel_of_assembled (assembled : code.Assembled)
    (methods : ∀ className name body, context.method? className name = some body →
      body.Assembled) (label : Label) : fault.error ≠ .badLabel label := by
  intro missed
  rw [run_eq_watch] at failed
  obtain ⟨moment, seen⟩ := failed_raises candid failed
  have course := watch_on_course host limits state assembled methods
  rw [missed] at seen
  exact course.seen _ seen

end Failing

end Machine

end StackCode
