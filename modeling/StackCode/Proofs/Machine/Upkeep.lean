import StackCode.Proofs.Machine.Account
import StackCode.Proofs.Machine.Deeds
import StackCode.Proofs.Machine.Nesting

/-!
# What every state of a run keeps

An upkeep is a property of watched machines that survives whatever a run is made
of: the deeds of instructions, frames that are entered and left, the answers of
the host, and what is seen of all this.  It may rest on the code that frames
run, if the bodies of that code and the methods of the context are of the same
kind, and on the places that a frame comes to from one instruction to the next.
Then it holds in every state of every run.
-/

namespace StackCode

def RunError.ArisesAt (code : Sequence) (pc : Nat) : RunError → Prop
  | .badLabel label => ∃ instruction, code.instruction? pc = some instruction ∧
      label ∈ instruction.branchLabels ∧ code.labelTarget? label = none
  | .pcOutOfRange place => place = pc ∧ code.instruction? pc = none
  | _ => True

/-- If the exit has no place yet, any place will do for it. -/
def Exit.Placeless (exit : Exit) : Prop :=
  ∀ error, exit = .raise error → ∀ code pc, error.ArisesAt code pc

theorem Exit.placeless_located (fault : Fault) : (Exit.located fault).Placeless := by
  rintro error ⟨⟩

theorem Exit.placeless_raise {error : RunError} (anywhere : ∀ code pc, error.ArisesAt code pc) :
    (Exit.raise error).Placeless := by
  rintro _ ⟨⟩
  exact anywhere

theorem Exit.placeless_ofHostError (error : HostError) : (ofHostError error).Placeless := by
  cases error with
  | block fault => exact placeless_located fault
  | _ => exact placeless_raise fun _ _ => trivial

def Context.running? (context : Context) : Option Sequence :=
  context.frames.back?.map Frame.code

theorem Context.running?_of_outline {before after : Context}
    (same : after.outline = before.outline) : after.running? = before.running? := by
  have outlined (context : Context) : context.running? = context.outline.back?.map Frame.code := by
    rw [running?, outline, Array.back?_map, Option.map_map]
    rfl
  rw [outlined, outlined, same]

theorem Instruction.MayRaise.arisesAt {instruction : Instruction} {code : Sequence} {pc : Nat}
    {error : RunError} (own : instruction.MayRaise code error)
    (found : code.instruction? pc = some instruction) : error.ArisesAt code pc := by
  cases error with
  | badLabel label => exact ⟨instruction, found, own⟩
  | pcOutOfRange place => exact own.elim
  | _ => trivial

/-- Each state that the conversation hands over to a machine keeps what holds of it. -/
def Conversation.Upholds {σ : Type} (holds : Machine σ History → Prop) :
    Machine σ History → Conversation σ → Prop
  | machine, .done _ state => holds { machine with host := state }
  | machine, .yield _ state resume => holds { machine with host := state } ∧
      ∀ answer after, holds after → (resume answer after.host).Upholds holds after

/-- A property that does not depend on the host is kept by whatever the host says. -/
theorem Conversation.upholds_of_blind {σ : Type} {holds : Machine σ History → Prop}
    (blind : ∀ {machine}, holds machine → ∀ host, holds { machine with host })
    (conversation : Conversation σ) {machine : Machine σ History} (now : holds machine) :
    conversation.Upholds holds machine := by
  induction conversation generalizing machine with
  | done result state => exact blind now state
  | yield arguments state resume ih => exact ⟨blind now state, fun answer after => ih _ _⟩

structure Upkeep {σ : Type} (host : Host σ) where
  holds : Machine σ History → Prop
  /-- The code may be run. -/
  fits : Sequence → Prop := fun _ => True
  /-- A frame that runs the code may come to the index. -/
  comes : Sequence → Nat → Prop := fun _ _ => True
  moved : ∀ {machine}, holds machine → ∀ operands, holds (machine.withOperands operands)
  jumped : ∀ {machine}, holds machine → ∀ pc,
    holds { machine with context := { machine.context with pc } }
  spent : ∀ {machine}, holds machine → ∀ fuel hostCalls, holds { machine with fuel, hostCalls }
  saw : ∀ {machine}, holds machine → ∀ event, holds (machine.noting History.watcher event)
  acted : ∀ {machine machine' code frame pc instruction}, holds machine → fits code →
    code.instruction? pc = some instruction →
    Execution.Deed host instruction frame machine machine' → holds machine'
  raised : ∀ {machine code pc error}, holds machine → fits code → comes code pc →
    machine.context.running? = some code → error.ArisesAt code pc →
    holds { machine with trace := machine.trace ++ [.raise error machine.context] }
  refused : ∀ {machine}, holds machine →
    holds { machine with trace := machine.trace ++ [.raise .callDepthExceeded machine.context] }
  entered : ∀ {machine activation}, holds machine → fits activation.code →
    (∀ closure, activation.block = some closure → fits closure.body) →
    holds (machine.entering activation)
  left : ∀ {machine}, holds machine → ∀ frame,
    holds { machine with context := machine.context.leave frame }
  asked : ∀ {machine}, holds machine → ∀ receiver method arguments,
    holds { machine with host := (host.send machine.host receiver method arguments).2 }
  talked : ∀ {machine}, holds machine → ∀ receiver method arguments,
    (host.sendWithBlock machine.host receiver method arguments).Upholds holds machine
  starts : ∀ {code}, fits code → comes code 0 := by
    intros; trivial
  follows : ∀ {code pc instruction outcome}, fits code → comes code pc →
    code.instruction? pc = some instruction → instruction.Yields code outcome →
    comes code (outcome.place pc) := by
      intros; trivial
  made : ∀ {code body}, fits code → code.HasBlock body → fits body := by
    intros; trivial
  held : ∀ {machine frame closure}, holds machine →
    machine.context.blockOf? frame = some closure → fits closure.body := by
      intros; trivial
  defined : ∀ {machine className name body}, holds machine →
    machine.context.method? className name = some body → fits body := by
      intros; trivial

namespace Execution

variable {σ : Type}

/-! ## Watched frames give back what they found -/

/-- Nothing is said of what has been seen. -/
theorem keeps_anything : History.watcher.Keeps fun _ _ => True :=
  ⟨fun _ => trivial, fun _ _ => trivial, fun _ _ _ _ => trivial⟩

theorem dispatchWatched_ends {enter : Activation → Execution σ History Value}
    (entering : ∀ activation,
      Respects (Machine.Returns fun _ _ => True) (enter activation) fun _ => True)
    (host : Host σ) (code : Sequence) (frame bound : Nat) (machine : Machine σ History) :
    Ends (dispatchWatched host enter code frame bound) machine
      (fun _ after => machine.context.SameGround after.context)
      (fun exit after => machine.context.SameGround after.context ∧
        exit ≠ .raise .stackUnderflow) := by
  induction bound generalizing machine with
  | zero => exact ⟨.refl _, by simp⟩
  | succ bound ih =>
      unfold dispatchWatched
      rw [ends_bind, ends_context, ends_bind, ends_locatedAt, ends_noting]
      cases found : code.instruction? machine.context.pc with
      | none => exact ⟨.refl _, by simp⟩
      | some instruction =>
          refine (advance_ends keeps_anything entering host code frame instruction machine).mono
            ?_ ?_
          · rintro outcome after ⟨performs, -⟩
            have further := (ih after).mono (fun _ _ => performs.toSameGround.trans)
              (fun _ _ => And.imp_left performs.toSameGround.trans)
            cases outcome with
            | leave result => exact performs.toSameGround
            | next | jump => exact further
          · rintro exit after ⟨ground, -⟩
            exact ⟨ground, by simp⟩

theorem evaluateWatched_respects (host : Host σ) (room : Nat) (activation : Activation) :
    Respects (Machine.Returns fun _ _ => True) (evaluateWatched host room activation)
      fun _ => True := by
  induction room generalizing activation with
  | zero => exact fun machine => ⟨⟨.refl _, trivial⟩, by simp⟩
  | succ room ih =>
      intro machine
      unfold evaluateWatched
      simp only [ends_bind, ends_get, ends_modifyContext, ends_report, ends_attempt]
      refine (dispatchWatched_ends ih host activation.code machine.context.frames.size
        (machine.fuel + 1) _).mono ?_ ?_
      · exact fun value after ground => ⟨⟨.of_leave ⟨ground.1, ground.2⟩, trivial⟩, trivial⟩
      · rintro exit after ⟨ground, other⟩
        exact ⟨⟨.of_leave ⟨ground.1, ground.2⟩, trivial⟩, other⟩

end Execution

namespace Upkeep

open Execution

variable {σ : Type} {host : Host σ} (upkeep : Upkeep host)

def Keeps {α : Type} (execution : Execution σ History α) : Prop :=
  ∀ machine, upkeep.holds machine → Ends execution machine (fun _ => upkeep.holds)
    (fun exit after => upkeep.holds after ∧ exit.Placeless)

structure Admits (activation : Activation) : Prop where
  code : upkeep.fits activation.code
  block : ∀ closure, activation.block = some closure → upkeep.fits closure.body

variable {upkeep}

/-! ## Calls -/

theorem countHostCall_keeps : upkeep.Keeps countHostCall := by
  intro machine holds
  rw [ends_countHostCall]
  split
  · exact ⟨holds, Exit.placeless_raise fun _ _ => trivial⟩
  · exact upkeep.spent holds machine.fuel (machine.hostCalls + 1)

section Calls

variable {enter : Activation → Execution σ History Value}
  (enters : ∀ activation, upkeep.Admits activation → upkeep.Keeps (enter activation))
include enters

theorem invoke_keeps {closure : Closure} (fits : upkeep.fits closure.body)
    (arguments : List Value) : upkeep.Keeps (invoke enter closure arguments) := by
  intro machine holds
  unfold invoke
  rw [ends_bind, ends_context]
  exact enters _ ⟨fits, fun _ => upkeep.held holds⟩ machine holds

/-- A conversation never breaks off. -/
theorem converse_upholds {closure : Closure} (fits : upkeep.fits closure.body)
    (conversation : Conversation σ) {machine : Machine σ History}
    (upholds : conversation.Upholds upkeep.holds machine) :
    Ends (converse enter closure conversation) machine (fun _ => upkeep.holds)
      (fun _ _ => False) := by
  induction conversation generalizing machine with
  | done result state => exact upholds
  | yield arguments state resume ih =>
      unfold converse invokeForHost
      rw [ends_bind, ends_askHost, ends_bind, ends_bind, ends_attempt]
      refine (invoke_keeps enters fits arguments _ upholds.1).mono ?_ ?_
      · exact fun value after holds => ih _ _ (upholds.2 _ after holds)
      · exact fun exit after holds => ih _ _ (upholds.2 _ after holds.1)

theorem converseWithHost_upholds (receiver : Value) (method : String) (arguments : List Value)
    (block : Option Closure) (fits : ∀ closure, block = some closure → upkeep.fits closure.body)
    {machine : Machine σ History} (holds : upkeep.holds machine) :
    Ends (converseWithHost host enter receiver method arguments block) machine
      (fun _ => upkeep.holds) (fun _ _ => False) := by
  cases block with
  | none => exact upkeep.asked holds receiver method arguments
  | some closure =>
      exact converse_upholds enters (fits closure rfl) _
        (upkeep.talked holds receiver method arguments)

theorem callHost_keeps (receiver : Value) (method : String) (arguments : List Value)
    (block : Option Closure) (fits : ∀ closure, block = some closure → upkeep.fits closure.body) :
    upkeep.Keeps (callHost host History.watcher enter receiver method arguments block) := by
  intro machine holds
  unfold callHost
  rw [ends_bind]
  refine (countHostCall_keeps machine holds).mono ?_ (fun _ _ stopped => stopped)
  intro _ counted holds
  rw [ends_bind, ends_context, ends_bind, ends_report, ends_bind]
  refine (converseWithHost_upholds enters receiver method arguments block fits
    (upkeep.saw holds _)).mono ?_ (fun _ _ impossible => impossible.elim)
  intro result after holds
  rw [ends_bind, ends_report]
  have left := upkeep.saw holds
    (.exit (.hostCall method) counted.context.frames.size (counted.context.pc - 1))
  cases result with
  | ok value => exact left
  | error error => exact ⟨left, Exit.placeless_ofHostError error⟩

theorem call_keeps (receiver : Value) (method : String) (arguments : List Value)
    (block : Option Closure) (fits : ∀ closure, block = some closure → upkeep.fits closure.body) :
    upkeep.Keeps (call host History.watcher enter receiver method arguments block) := by
  intro machine holds
  unfold call
  rw [ends_bind, ends_context]
  cases known : machine.context.method? receiver.className method with
  | none => exact callHost_keeps enters receiver method arguments block fits machine holds
  | some body =>
      dsimp only
      split
      · exact enters _ ⟨upkeep.defined holds known, fits⟩ machine holds
      · exact ⟨holds, Exit.placeless_raise fun _ _ => trivial⟩

theorem outgoing_keeps {code : Sequence} {frame pc : Nat} {instruction : Instruction}
    {machine : Machine σ History} {called : Execution σ History Value}
    (fits : upkeep.fits code) (found : code.instruction? pc = some instruction)
    (holds : upkeep.holds machine)
    (outgoing : Outgoing host History.watcher enter instruction frame machine called) :
    upkeep.Keeps called := by
  cases outgoing with
  | plain receiver method arguments =>
      exact call_keeps enters receiver method arguments none nofun
  | withBlock receiver arguments same =>
      subst same
      refine call_keeps enters receiver _ arguments _ fun closure given => ?_
      obtain rfl := Option.some.inj given
      exact upkeep.made fits ⟨pc, _, found⟩
  | block arguments own => exact invoke_keeps enters (upkeep.held holds own) arguments

/-! ## Frames -/

theorem step_keeps {code : Sequence} (frame : Nat) {pc : Nat} {instruction : Instruction}
    (fits : upkeep.fits code) (found : code.instruction? pc = some instruction)
    {machine : Machine σ History} (holds : upkeep.holds machine) :
    Ends (step host History.watcher enter code frame instruction) machine
      (fun _ => upkeep.holds)
      (fun exit after => upkeep.holds after ∧
        ∀ error, exit = .raise error → error.ArisesAt code pc) := by
  suffices governs : Governs host History.watcher enter code frame instruction upkeep.holds
      upkeep.holds (fun exit after => upkeep.holds after ∧
        ∀ error, exit = .raise error → error.ArisesAt code pc) from governs.step holds
  constructor
  case moved => exact fun operands holds => upkeep.moved holds operands
  case pushed => exact fun operands holds => upkeep.moved holds operands
  case acts => exact fun holds deed => upkeep.acted holds fits found deed
  case ends => exact fun holds => holds
  case fails =>
    intro machine error holds own
    refine ⟨holds, ?_⟩
    rintro _ ⟨⟩
    exact own.arisesAt found
  case calls =>
    intro machine called holds outgoing
    refine (outgoing_keeps enters fits found holds outgoing machine holds).mono
      (fun _ _ holds => holds) ?_
    exact fun exit after stopped =>
      ⟨stopped.1, fun error raised => stopped.2 error raised code pc⟩

theorem advance_keeps {code : Sequence} (frame : Nat) {pc : Nat} {instruction : Instruction}
    (fits : upkeep.fits code) (found : code.instruction? pc = some instruction)
    {machine : Machine σ History} (holds : upkeep.holds machine) :
    Ends (advance host History.watcher enter code frame pc instruction) machine
      (fun _ => upkeep.holds)
      (fun exit after => upkeep.holds after ∧
        ∀ error, exit = .raise error → error.ArisesAt code pc) := by
  unfold advance
  rw [ends_bind, ends_burn]
  split
  · refine ⟨holds, ?_⟩
    rintro _ ⟨⟩
    trivial
  · rw [ends_bind, ends_reportInstruction, ends_bind, ends_modifyContext, ends_bind]
    have reported := upkeep.saw (upkeep.spent holds (machine.fuel - 1) machine.hostCalls)
      (.instruction code pc instruction machine.context.depth)
    refine (step_keeps enters frame fits found (upkeep.jumped reported (pc + 1))).mono ?_
      (fun _ _ stopped => stopped)
    intro outcome after holds
    cases outcome with
    | jump target => exact upkeep.jumped holds target
    | next | leave => exact holds

/-- From instruction to instruction the frame comes to places where it may be. -/
theorem dispatchWatched_keeps
    (entering : ∀ activation,
      Respects (Machine.Returns fun _ _ => True) (enter activation) fun _ => True)
    {code : Sequence} (frame : Nat) (fits : upkeep.fits code) (bound : Nat)
    {machine : Machine σ History} (holds : upkeep.holds machine)
    (comes : upkeep.comes code machine.context.pc)
    (running : machine.context.running? = some code) :
    Ends (dispatchWatched host enter code frame bound) machine (fun _ => upkeep.holds)
      (fun exit after => upkeep.holds after ∧ exit.Placeless) := by
  induction bound generalizing machine with
  | zero =>
      exact ⟨upkeep.raised holds fits comes running trivial,
        Exit.placeless_raise fun _ _ => trivial⟩
  | succ bound ih =>
      unfold dispatchWatched
      rw [ends_bind, ends_context, ends_bind, ends_locatedAt, ends_noting]
      cases found : code.instruction? machine.context.pc with
      | none =>
          exact ⟨upkeep.raised holds fits comes running ⟨rfl, found⟩, Exit.placeless_located _⟩
      | some instruction =>
          have advanced := advance_ends keeps_anything entering host code frame instruction machine
          refine (advanced.and (advance_keeps enters frame fits found holds)).mono ?_ ?_
          · rintro outcome after ⟨⟨performs, place, -⟩, holds⟩
            have follows := upkeep.follows fits comes found performs.yields
            rw [← place] at follows
            have further := ih holds follows
              ((Context.running?_of_outline performs.outline).trans running)
            cases outcome with
            | leave result => exact holds
            | next | jump => exact further
          · rintro exit after ⟨⟨ground, -⟩, holds, arises⟩
            refine ⟨?_, Exit.placeless_located _⟩
            cases exit with
            | located fault =>
                have same : after.trace ++ History.raised after.context (.located fault) =
                  after.trace := List.append_nil _
                rw [same]
                exact holds
            | raise error =>
                exact upkeep.raised holds fits comes
                  ((Context.running?_of_outline ground.outline).trans running) (arises error rfl)

end Calls

/-- Every frame that may be entered keeps what every state keeps. -/
theorem evaluateWatched_keeps (room : Nat) (activation : Activation)
    (admits : upkeep.Admits activation) :
    upkeep.Keeps (evaluateWatched host room activation) := by
  induction room generalizing activation with
  | zero =>
      exact fun machine holds =>
        ⟨upkeep.refused holds, Exit.placeless_raise fun _ _ => trivial⟩
  | succ room ih =>
      intro machine holds
      unfold evaluateWatched
      simp only [ends_bind, ends_get, ends_modifyContext, ends_report, ends_attempt]
      have entered := upkeep.saw (upkeep.entered holds admits.code admits.block)
        (.enter (.frame activation.code) (machine.context.frames.size + 1) machine.context.pc)
      have running : (machine.entering activation).context.running? = some activation.code := by
        simp [Machine.entering, Context.enter, Context.running?]
      refine (dispatchWatched_keeps ih (evaluateWatched_respects host room)
        machine.context.frames.size admits.code (machine.fuel + 1)
        (upkeep.jumped entered 0) (upkeep.starts admits.code) running).mono ?_ ?_
      · exact fun value after holds => upkeep.left (upkeep.saw holds _) _
      · exact fun exit after stopped => ⟨upkeep.left (upkeep.saw stopped.1 _) _, stopped.2⟩

end Upkeep

/-- What every state keeps holds at the end of a run, if it holds before the run starts. -/
theorem Machine.watch_upholds {σ : Type} {host : Host σ} (upkeep : Upkeep host) (limits : Limits)
    (state : σ) (context : Context) {code : Sequence} (fits : upkeep.fits code)
    (holds : upkeep.holds (start limits state [] context)) :
    upkeep.holds (watch host limits state context code).2 := by
  have entering : upkeep.Keeps (Execution.evaluateWatched host limits.callDepth
      ⟨code, .main, none, none, []⟩) :=
    Upkeep.evaluateWatched_keeps _ _ ⟨fits, nofun⟩
  have keeps := entering _ (upkeep.saw holds (.runStart code))
  unfold Execution.Ends at keeps
  unfold watch
  cases ended : Execution.evaluateWatched host limits.callDepth ⟨code, .main, none, none, []⟩
    ((start limits state [] context).noting History.watcher (.runStart code)) with
  | ok value after =>
      rw [ended] at keeps
      have kept := upkeep.moved keeps (value :: after.context.operands)
      rw [← keepResult_ok] at kept
      exact upkeep.saw kept _
  | error exit after =>
      rw [ended] at keeps
      exact upkeep.saw keeps.1 _

end StackCode
