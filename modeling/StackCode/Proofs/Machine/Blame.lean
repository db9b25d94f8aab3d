import StackCode.Proofs.BlockCalls
import StackCode.Proofs.Machine.Deeds
import StackCode.Proofs.Machine.Limits
import StackCode.Proofs.OwnErrors

/-!
# A fault names the instruction that failed

Under the standard object model a failure ends everything that it comes through:
the instruction that fails is the last one to be reported.  An error gets the
place of that instruction where it arises, and the fault is handed on as it is
from there, through every frame and through every call of the host that ran a
block.  A call that fails without having run a block fails at its own
instruction.

Errors that arise between instructions, or at the entry of a frame, are located
where they come up.
-/

namespace StackCode

/-- The error arises where no instruction runs: at the end of code or at a limit. -/
def RunError.isBetween : RunError → Bool
  | .pcOutOfRange _ | .fuelExceeded | .callDepthExceeded => true
  | _ => false

/-- The error is not the failure of a block that the host hands on. -/
def RunError.Plain (error : RunError) : Prop :=
  ∀ fault, error ≠ .host (.block fault)

def Event.place? : Event → Option (String × Nat)
  | .instruction code pc _ _ => some (code.name, pc)
  | _ => none

def lastPlace? (trace : Array Event) : Option (String × Nat) :=
  (trace.toList.filterMap Event.place?).getLast?

theorem lastPlace?_push (trace : Array Event) (event : Event) :
    lastPlace? (trace.push event) = event.place?.or (lastPlace? trace) := by
  unfold lastPlace?
  rw [Array.toList_push, List.filterMap_append, List.getLast?_append]
  cases event <;> rfl

structure Fault.NamesLast (fault : Fault) (trace : Array Event) : Prop where
  plain : fault.error.Plain
  last : fault.error.isBetween = false → lastPlace? trace = some (fault.sequence, fault.pc)

/-- Given the place of the running instruction, the exit becomes a fault that names the last. -/
def Exit.Blames (exit : Exit) (place : Option (String × Nat)) (trace : Array Event) : Prop :=
  ∀ sequence pc, place = some (sequence, pc) → (exit.locate sequence pc).NamesLast trace

namespace Exit.Blames

variable {trace : Array Event}

theorem raise {error : RunError} (plain : error.Plain) :
    (Exit.raise error).Blames (lastPlace? trace) trace :=
  fun _ _ last => ⟨plain, fun _ => last⟩

theorem between {error : RunError} (apart : error.isBetween = true)
    (place : Option (String × Nat)) : (Exit.raise error).Blames place trace := by
  refine fun sequence pc _ => ⟨?_, fun within => ?_⟩
  · rintro fault same
    change error = _ at same
    rw [same] at apart
    cases apart
  · change error.isBetween = false at within
    rw [apart] at within
    cases within

theorem located {fault : Fault} (names : fault.NamesLast trace) (place : Option (String × Nat)) :
    (Exit.located fault).Blames place trace :=
  fun _ _ _ => names

/-- What happens beside instructions changes nothing in this. -/
theorem push {exit : Exit} {place : Option (String × Nat)} (blames : exit.Blames place trace)
    {event : Event} (apart : event.place? = none) : exit.Blames place (trace.push event) := by
  intro sequence pc same
  have names := blames sequence pc same
  refine ⟨names.plain, fun within => ?_⟩
  rw [lastPlace?_push, apart]
  exact names.last within

end Exit.Blames

namespace Execution

variable {σ : Type}

theorem see_recorder_full (event : Event) (context : Context) (trace : Array Event) :
    (Observer.recorder .full).see event context trace = trace.push event := by
  cases event with
  | enter scope | exit scope => cases scope <;> rfl
  | _ => rfl

def FailsAtLast {α : Type} (execution : Execution ObjectModel (Array Event) α) : Prop :=
  ∀ machine, Ends execution machine (fun _ _ => True)
    (fun exit after => ∀ place, exit.Blames place after.trace)

/-! ## Calls -/

section Calls

variable {enter : Activation → Execution ObjectModel (Array Event) Value}
  (enters : ∀ activation, FailsAtLast (enter activation))
include enters

/-- From a conversation that goes on with each result, only failures of blocks come back. -/
theorem converse_names_last (block : Closure) {talk : ObjectModel → Conversation ObjectModel}
    (heeds : ObjectModel.Heeds talk) (model : ObjectModel)
    (machine : Machine ObjectModel (Array Event)) :
    Ends (converse enter block (talk model)) machine
      (fun result after => ∀ error, result = .error error →
        ∃ fault, error = .block fault ∧ fault.NamesLast after.trace)
      (fun _ _ => False) := by
  induction heeds generalizing model machine with
  | done value => exact nofun
  | yield _ ih =>
      unfold converse invokeForHost invoke
      rw [ends_bind, ends_askHost, ends_bind, ends_bind, ends_attempt, ends_bind, ends_context]
      refine (enters _ _).mono (fun value after _ => ih _ _ _) ?_
      rintro exit after blames _ ⟨⟩
      exact ⟨_, rfl, blames _ block.body.name 0 rfl⟩

/-- The host refuses a call with an error of its own where the call was put to it. -/
theorem converseWithHost_names_last (receiver : Value) (method : String) (arguments : List Value)
    (block : Option Closure) (machine : Machine ObjectModel (Array Event)) :
    Ends (converseWithHost ObjectModel.host enter receiver method arguments block) machine
      (fun result after => ∀ error, result = .error error →
        (Exit.ofHostError error).Blames (lastPlace? machine.trace) after.trace)
      (fun _ _ => False) := by
  have refused (error : HostError) (failed :
      (machine.host.send receiver method arguments).1 = .error error) :
      (Exit.ofHostError error).Blames (lastPlace? machine.trace) machine.trace := by
    have own := ObjectModel.send_own machine.host receiver method arguments
    cases error with
    | block fault => exact absurd failed (own fault)
    | _ =>
        refine Exit.Blames.raise ?_
        rintro fault ⟨⟩
  cases block with
  | none => exact refused
  | some closure =>
      unfold converseWithHost
      rw [ends_bind, ends_get]
      change Ends (converse enter closure
        (machine.host.sendWithBlock receiver method arguments)) _ _ _
      rcases ObjectModel.sendWithBlock_cases receiver method arguments with
        ⟨talk, heeds, same⟩ | same
      · rw [same]
        refine (converse_names_last enters closure heeds _ machine).mono ?_ (fun _ _ => id)
        intro result after handed error failed
        obtain ⟨fault, rfl, names⟩ := handed error failed
        exact .located names _
      · rw [same]
        exact refused

theorem callHost_blames (receiver : Value) (method : String) (arguments : List Value)
    (block : Option Closure) (machine : Machine ObjectModel (Array Event)) :
    Ends (callHost ObjectModel.host (.recorder .full) enter receiver method arguments block)
      machine (fun _ _ => True)
      (fun exit after => exit.Blames (lastPlace? machine.trace) after.trace) := by
  unfold callHost
  rw [ends_bind, ends_countHostCall]
  split
  · have plain : RunError.hostCallLimitExceeded.Plain := nofun
    exact Exit.Blames.raise plain
  · rw [ends_bind, ends_context, ends_bind, ends_report, ends_bind]
    refine (converseWithHost_names_last enters receiver method arguments block _).mono ?_
      (fun _ _ impossible => impossible.elim)
    intro result after handed
    rw [ends_bind, ends_report]
    cases result with
    | ok value => trivial
    | error error =>
        have blames := handed error rfl
        dsimp only [Machine.noting] at blames
        rw [see_recorder_full, lastPlace?_push] at blames
        rw [ends_throw]
        dsimp only [Machine.noting]
        rw [see_recorder_full]
        exact blames.push rfl

theorem call_blames (receiver : Value) (method : String) (arguments : List Value)
    (block : Option Closure) (machine : Machine ObjectModel (Array Event)) :
    Ends (call ObjectModel.host (.recorder .full) enter receiver method arguments block)
      machine (fun _ _ => True)
      (fun exit after => exit.Blames (lastPlace? machine.trace) after.trace) := by
  unfold call
  rw [ends_bind, ends_context]
  cases machine.context.method? receiver.className method with
  | none => exact callHost_blames enters receiver method arguments block machine
  | some body =>
      dsimp only
      split
      · exact (enters _ machine).mono (fun _ _ _ => trivial) (fun _ _ blames => blames _)
      · have plain : (RunError.unsupportedCallShape method arguments.length).Plain := nofun
        exact Exit.Blames.raise plain

/-! ## Frames -/

theorem step_blames (code : Sequence) (frame : Nat) (instruction : Instruction)
    (machine : Machine ObjectModel (Array Event)) :
    Ends (step ObjectModel.host (.recorder .full) enter code frame instruction) machine
      (fun _ _ => True)
      (fun exit after => exit.Blames (lastPlace? machine.trace) after.trace) := by
  suffices governs : Governs ObjectModel.host (.recorder .full) enter code frame instruction
      (fun now => lastPlace? now.trace = lastPlace? machine.trace) (fun _ => True)
      (fun exit after => exit.Blames (lastPlace? machine.trace) after.trace) from governs.step rfl
  constructor
  case moved => exact fun _ same => same
  case pushed => exact fun _ _ => trivial
  case ends => exact fun _ => trivial
  case acts =>
    intro now after same deed
    rw [← same]
    cases deed <;> rfl
  case fails =>
    intro now error same own
    rw [← same]
    refine .raise ?_
    rintro fault rfl
    exact own
  case calls =>
    intro now called same outgoing
    rw [← same]
    cases outgoing with
    | plain receiver method arguments => exact call_blames enters receiver method arguments _ now
    | withBlock receiver arguments => exact call_blames enters receiver _ arguments _ now
    | block arguments =>
        unfold invoke
        rw [ends_bind, ends_context]
        exact (enters _ now).mono (fun _ _ _ => trivial) (fun _ _ blames => blames _)

theorem advance_blames (code : Sequence) (frame pc : Nat) (instruction : Instruction)
    (machine : Machine ObjectModel (Array Event)) :
    Ends (advance ObjectModel.host (.recorder .full) enter code frame pc instruction) machine
      (fun _ _ => True) (fun exit after => exit.Blames (some (code.name, pc)) after.trace) := by
  unfold advance
  rw [ends_bind, ends_burn]
  split
  · exact .between rfl _
  · rw [ends_bind, ends_reportInstruction, ends_bind, ends_modifyContext, ends_bind]
    refine (step_blames enters code frame instruction _).mono ?_ ?_
    · intro outcome after _
      cases outcome <;> trivial
    · intro exit after blames
      dsimp only [Machine.noting] at blames
      rw [see_recorder_full, lastPlace?_push] at blames
      exact blames

theorem dispatch_fails_at_last (code : Sequence) (frame bound : Nat) :
    FailsAtLast (dispatch ObjectModel.host (.recorder .full) enter code frame bound) := by
  induction bound with
  | zero => exact fun machine place => .between rfl place
  | succ bound ih =>
      intro machine
      unfold dispatch
      rw [ends_bind, ends_context, ends_bind, ends_locatedAt]
      cases code.instruction? machine.context.pc with
      | none =>
          have past : (Exit.raise (.pcOutOfRange machine.context.pc)).Blames
              (some (code.name, machine.context.pc)) machine.trace := .between rfl _
          exact fun place => .located (past _ _ rfl) place
      | some instruction =>
          refine (advance_blames enters code frame _ instruction machine).mono ?_ ?_
          · intro outcome after _
            cases outcome with
            | leave result => trivial
            | next | jump => exact ih after
          · exact fun exit after blames place => .located (blames _ _ rfl) place

end Calls

theorem evaluate_fails_at_last (room : Nat) (activation : Activation) :
    FailsAtLast (evaluate ObjectModel.host (.recorder .full) room activation) := by
  induction room generalizing activation with
  | zero => exact fun machine place => .between rfl place
  | succ room ih =>
      intro machine
      unfold evaluate
      simp only [ends_bind, ends_get, ends_modifyContext, ends_report, ends_attempt]
      refine (dispatch_fails_at_last ih activation.code _ _ _).mono (fun _ _ _ => trivial) ?_
      intro exit after blames place
      dsimp only [Machine.noting]
      rw [see_recorder_full]
      exact (blames place).push rfl

end Execution

namespace Machine

/--
Whoever follows a run under the standard object model, it has the same result.
If that is a fault, it is not the failure of a host that wraps another fault; and
if its error did not arise between instructions, the fault names the last of the
instructions that are recorded.
-/
theorem faults_name_their_instruction (limits : Limits) (model : ObjectModel) (context : Context)
    (code : Sequence) :
    let recorded := run ObjectModel.host (.recorder .full) limits model #[] context code
    (∀ {τ : Type} (observer : Observer τ) (trace : τ),
      (run ObjectModel.host observer limits model trace context code).1 = recorded.1) ∧
    ∀ fault, recorded.1 = .error fault →
      (∀ inner, fault.error ≠ .host (.block inner)) ∧
      (fault.error.isBetween = false →
        lastPlace? recorded.2.trace = some (fault.sequence, fault.pc)) := by
  refine ⟨fun observer trace => ?_, fun fault failed => ?_⟩
  · rw [run_eq_watch, run_eq_watch]
  · have fails := Execution.evaluate_fails_at_last limits.callDepth
      ⟨code, .main, none, none, []⟩
      ((start limits model #[] context).noting (.recorder .full) (.runStart code))
    rw [run_eq_conclude] at failed ⊢
    cases ended : Execution.evaluate ObjectModel.host (.recorder .full) limits.callDepth
      ⟨code, .main, none, none, []⟩
      ((start limits model #[] context).noting (.recorder .full) (.runStart code)) with
    | ok value after =>
        rw [ended] at failed
        cases failed
    | error exit after =>
        rw [ended] at failed
        obtain rfl := Except.error.inj failed
        have names := fails.of_error ended (some (code.name, 0)) code.name 0 rfl
        refine ⟨names.plain, fun within => ?_⟩
        dsimp only [conclude, keepResult, noting]
        rw [Execution.see_recorder_full, lastPlace?_push]
        exact names.last within

/-- Run a block, which calls a method that is not there, for the only item of an array. -/
def eachFails : Sequence where
  name := "<compiled>"
  kind := .top
  code := #[.dupArray (.array [.nil]), .send ⟨some "each", 0, .blockBody⟩ (some {
      name := "block in <compiled>"
      kind := .block
      code := #[.putNil, .sendWithoutBlock (.plain "missing" 0), .leave]
      labels := #[]
      locals := []
      parameters := .none
      handlers := [] }), .leave]
  labels := #[]
  locals := []
  parameters := .none
  handlers := []

/-- The fault is that of the block, however the host came to run it. -/
theorem faults_name_their_instruction_eachFails :
    let recorded :=
      run ObjectModel.host (.recorder .full) .usual (.withTables .empty .empty) #[] .empty eachFails
    ∃ fault, recorded.1 = .error fault ∧ fault.error.isBetween = false ∧
      lastPlace? recorded.2.trace = some ("block in <compiled>", 1) := by
  have names := (faults_name_their_instruction .usual (.withTables .empty .empty) .empty
    eachFails).2
  have failed : (match (run ObjectModel.host (.recorder .full) .usual (.withTables .empty .empty)
        #[] .empty eachFails).1 with
      | .error fault => !fault.error.isBetween && fault.sequence == "block in <compiled>" &&
          fault.pc == 1
      | .ok _ => false) = true := by
    decide +kernel
  cases ended : (run ObjectModel.host (.recorder .full) .usual (.withTables .empty .empty) #[]
      .empty eachFails).1 with
  | ok value =>
      rw [ended] at failed
      cases failed
  | error fault =>
      rw [ended] at failed
      simp only [Bool.and_eq_true, Bool.not_eq_true', beq_iff_eq] at failed
      obtain ⟨⟨within, sequence⟩, pc⟩ := failed
      refine ⟨fault, ended, within, ?_⟩
      rw [(names fault ended).2 within, sequence, pc]

end Machine

end StackCode
