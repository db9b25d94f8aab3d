import StackCode.Proofs.Machine.Conservation
import StackCode.Proofs.Machine.Watch

/-!
# Levels of a run

Frames and calls of the host are nested: each is left before the one that it was
entered from.  A nesting says what holds of a watched run at each level of this.
An entry leads from a level to an inner one, and the exit leads back.  So
whatever is entered at a level comes back to it, with a result or with an exit,
however much was entered and left inside.

Blocks may be lent at a level, and frames may be entered there, if that is what
the level allows.  A frame lends the blocks of its own code and the block it was
called with.
-/

namespace StackCode

def Sequence.HasBlock (code body : Sequence) : Prop :=
  ∃ (pc : Nat) (site : CallSite), code.instruction? pc = some (.send site (some body))

def Machine.entering {σ τ : Type} (machine : Machine σ τ) (activation : Activation) :
    Machine σ τ :=
  { machine with
    context := machine.context.enter activation.code activation.self activation.parent
      activation.block activation.arguments }

/-- What holds at each level of a watched run, and how entries lead from level to level. -/
structure Nesting (σ : Type) where
  Level : Type
  holds : Level → Machine σ History → Prop
  /-- The level is that of a frame that runs the code. -/
  runs : Level → Sequence → Nat → Prop := fun _ _ _ => True
  /-- A call at the level may come with the block. -/
  lends : Level → Closure → Prop := fun _ _ => True
  /-- The frame may be entered at the level. -/
  admits : Level → Activation → Prop := fun _ _ => True
  steady : ∀ {level machine machine'}, holds level machine →
    machine'.context.outline = machine.context.outline → machine'.trace = machine.trace →
    holds level machine'
  instruction : ∀ {level machine}, holds level machine → ∀ code pc instruction depth,
    holds level (machine.noting History.watcher (.instruction code pc instruction depth))
  raised : ∀ {level machine}, holds level machine → ∀ error,
    holds level { machine with trace := machine.trace ++ [.raise error machine.context] }
  hostCall : ∀ {level machine}, holds level machine → ∀ method depth pc, ∃ inner,
    holds inner (machine.noting History.watcher (.enter (.hostCall method) depth pc)) ∧
    (∀ closure, lends level closure → lends inner closure) ∧
    ∀ after, holds inner after →
      holds level (after.noting History.watcher (.exit (.hostCall method) depth pc))
  frame : ∀ {level machine activation}, holds level machine → admits level activation →
    ∃ inner, runs inner activation.code machine.context.frames.size ∧
    holds inner ((machine.entering activation).noting History.watcher
      (.enter (.frame activation.code) (machine.context.frames.size + 1) machine.context.pc)) ∧
    ∀ after, holds inner after →
      holds level { after.noting History.watcher
        (.exit (.frame activation.code) (machine.context.frames.size + 1) machine.context.pc) with
          context := after.context.leave machine.context.frames.size }
  made : ∀ {level machine code frame body}, holds level machine → runs level code frame →
    code.HasBlock body → lends level ⟨body, machine.context.selfOf frame, frame⟩ := by
      intros; trivial
  held : ∀ {level machine code frame closure}, holds level machine → runs level code frame →
    machine.context.blockOf? frame = some closure → lends level closure := by
      intros; trivial
  called : ∀ {level body receiver block arguments},
    (∀ closure, block = some closure → lends level closure) →
    admits level ⟨body, receiver, none, block, arguments⟩ := by
      intros; trivial
  invoked : ∀ {level machine closure arguments}, holds level machine → lends level closure →
    admits level ⟨closure.body, closure.self, some closure.parent,
      machine.context.blockOf? closure.parent, arguments⟩ := by
      intros; trivial

namespace Nesting

open Execution

variable {σ α β : Type} (nesting : Nesting σ)

def Keeps (level : nesting.Level) (execution : Execution σ History α) : Prop :=
  ∀ machine, nesting.holds level machine →
    Ends execution machine (fun _ => nesting.holds level) (fun _ => nesting.holds level)

variable {nesting} {level : nesting.Level}

namespace Keeps

theorem pure (value : α) : nesting.Keeps level (Pure.pure value) :=
  fun _ holds => holds

theorem fail (error : RunError) : nesting.Keeps level (fail (α := α) error) :=
  fun _ holds => holds

theorem context : nesting.Keeps level context :=
  fun _ holds => holds

theorem bind {first : Execution σ History β} {next : β → Execution σ History α}
    (firsts : nesting.Keeps level first) (nexts : ∀ value, nesting.Keeps level (next value)) :
    nesting.Keeps level (first >>= next) := by
  intro machine holds
  rw [ends_bind]
  exact (firsts machine holds).mono (fun value after holds => nexts value after holds)
    (fun _ _ holds => holds)

theorem modifyContext {change : Context → Context}
    (same : ∀ context, (change context).outline = context.outline) :
    nesting.Keeps level (modifyContext change) := fun machine holds =>
  (ends_modifyContext change).mpr (nesting.steady holds (same machine.context) rfl)

theorem askHost (question : σ → α × σ) : nesting.Keeps level (askHost question) :=
  fun _ holds => (ends_askHost question).mpr (nesting.steady holds rfl rfl)

theorem popMany (count : Nat) : nesting.Keeps level (popMany count) := by
  intro machine holds
  rw [ends_popMany]
  split
  · exact nesting.steady holds rfl rfl
  · exact holds

theorem writeLocal (frame : Nat) (name : String) (slot depth : Nat) (value : Value) :
    nesting.Keeps level (writeLocal frame name slot depth value) := by
  intro machine holds
  unfold Execution.writeLocal
  rw [ends_bind, ends_context]
  cases assigned : machine.context.setLocal? frame slot depth value with
  | none => exact holds
  | some context => exact nesting.steady holds (Context.Resumes.of_setLocal? assigned).outline rfl

theorem burn : nesting.Keeps level burn := by
  intro machine holds
  rw [ends_burn]
  split
  · exact holds
  · exact nesting.steady holds rfl rfl

theorem countHostCall : nesting.Keeps level countHostCall := by
  intro machine holds
  rw [ends_countHostCall]
  split
  · exact holds
  · exact nesting.steady holds rfl rfl

theorem reportInstruction (code : Sequence) (pc : Nat) (instruction : Instruction) :
    nesting.Keeps level (reportInstruction History.watcher code pc instruction) :=
  fun _ holds => (ends_reportInstruction History.watcher code pc instruction).mpr
    (nesting.instruction holds code pc instruction _)

/-- The error that is raised is seen where the execution stops. -/
theorem noting {execution : Execution σ History α} (keeps : nesting.Keeps level execution) :
    nesting.Keeps level (noting execution) := by
  intro machine holds
  rw [ends_noting]
  apply (keeps machine holds).mono
  · intro value after holds
    exact holds
  · intro exit after holds
    cases exit with
    | raise error => exact nesting.raised holds error
    | located fault => exact nesting.steady holds rfl (List.append_nil _)

theorem locatedAt {execution : Execution σ History α} (keeps : nesting.Keeps level execution)
    (code : Sequence) (pc : Nat) : nesting.Keeps level (locatedAt code pc execution) :=
  fun machine holds => (ends_locatedAt code pc).mpr (keeps machine holds)

end Keeps

def concord (nesting : Nesting σ) (level : nesting.Level) : Concord σ History σ History where
  agree _ execution _ := nesting.Keeps level execution
  known context := ∃ machine, nesting.holds level machine ∧ machine.context = context
  lends := nesting.lends level
  pure := .pure
  bind := .bind
  after := .bind
  fail _ := .fail _
  look nexts machine holds :=
    (ends_bind _ _).mpr
      (ends_context.mpr (nexts _ _ (.refl _) ⟨machine, holds, rfl⟩ machine holds))
  popMany := .popMany
  push _ := .modifyContext fun _ => rfl
  setGlobal _ _ := .modifyContext fun _ => rfl
  defineMethod _ _ _ := .modifyContext fun _ => rfl
  writeLocal _ := .writeLocal _

/-! ## Calls -/

section Calls

variable {enter : Activation → Execution σ History Value}
  (enters : ∀ level activation, nesting.admits level activation →
    nesting.Keeps level (enter activation))
include enters

theorem invoke_keeps (level : nesting.Level) {closure : Closure}
    (lent : nesting.lends level closure) (arguments : List Value) :
    nesting.Keeps level (invoke enter closure arguments) := by
  intro machine holds
  unfold invoke
  rw [ends_bind, ends_context]
  exact enters level _ (nesting.invoked holds lent) machine holds

/-- A conversation never breaks off: the host is told of each failure and decides what to do. -/
theorem converse_returns (level : nesting.Level) {closure : Closure}
    (lent : nesting.lends level closure) (conversation : Conversation σ)
    {machine : Machine σ History} (holds : nesting.holds level machine) :
    Ends (converse enter closure conversation) machine (fun _ => nesting.holds level)
      (fun _ _ => False) := by
  induction conversation generalizing machine with
  | done result state => exact nesting.steady holds rfl rfl
  | yield arguments state resume ih =>
      have asked : nesting.holds level { machine with host := state } :=
        nesting.steady holds rfl rfl
      unfold converse invokeForHost
      rw [ends_bind, ends_askHost, ends_bind, ends_bind, ends_attempt]
      apply (invoke_keeps enters level lent arguments _ asked).mono
      · intro value after holds
        exact ih _ _ holds
      · intro exit after holds
        exact ih _ _ holds

theorem converseWithHost_returns (host : Host σ) (level : nesting.Level) (receiver : Value)
    (method : String) (arguments : List Value) (block : Option Closure)
    (lent : ∀ closure, block = some closure → nesting.lends level closure)
    {machine : Machine σ History} (holds : nesting.holds level machine) :
    Ends (converseWithHost host enter receiver method arguments block) machine
      (fun _ => nesting.holds level) (fun _ _ => False) := by
  cases block with
  | none => exact nesting.steady holds rfl rfl
  | some closure => exact converse_returns enters level (lent closure rfl) _ holds

theorem callHost_keeps (host : Host σ) (level : nesting.Level) (receiver : Value)
    (method : String) (arguments : List Value) (block : Option Closure)
    (lent : ∀ closure, block = some closure → nesting.lends level closure) :
    nesting.Keeps level
      (callHost host History.watcher enter receiver method arguments block) := by
  refine .bind .countHostCall fun _ machine holds => ?_
  obtain ⟨inner, entered, lends, left⟩ :=
    nesting.hostCall holds method machine.context.frames.size (machine.context.pc - 1)
  rw [ends_bind, ends_context, ends_bind, ends_report, ends_bind]
  apply (converseWithHost_returns enters host inner receiver method arguments block
    (fun closure given => lends closure (lent closure given)) entered).mono
  · intro result after holds
    rw [ends_bind, ends_report]
    cases result with
    | ok value => exact left after holds
    | error error => exact left after holds
  · intro exit after impossible
    exact impossible.elim

theorem partners (host : Host σ) (level : nesting.Level) :
    (nesting.concord level).Partners host host History.watcher History.watcher enter enter where
  globals _ _ _ := .askHost _
  constants _ _ := .askHost _
  methods _ _ := .askHost _
  calls := callHost_keeps enters host level
  enters _ _ _ _ lent := enters level _ (nesting.called lent)
  invokes _ arguments lent := invoke_keeps enters level lent arguments

/-! ## Frames -/

theorem advance_keeps (host : Host σ) {code : Sequence} {frame pc : Nat}
    {instruction : Instruction} (runs : nesting.runs level code frame)
    (found : code.instruction? pc = some instruction) :
    nesting.Keeps level (advance host History.watcher enter code frame pc instruction) := by
  have supplies : (nesting.concord level).Supplies frame instruction := by
    refine ⟨trivial, ?_, ?_⟩
    · rintro site body context rfl ⟨machine, holds, rfl⟩
      exact nesting.made holds runs ⟨pc, site, found⟩
    · rintro closure context ⟨machine, holds, rfl⟩ held
      exact nesting.held holds runs held
  refine .bind .burn fun _ => .bind (.reportInstruction code pc instruction) fun _ => ?_
  refine .bind (.modifyContext fun _ => rfl) fun _ => ?_
  refine .bind (Concord.step (partners enters host level) code supplies) fun outcome => ?_
  cases outcome with
  | jump target => exact .bind (.modifyContext fun _ => rfl) fun _ => .pure _
  | next | leave => exact .bind (.pure _) fun _ => .pure _

/-- A frame stays at its level from instruction to instruction. -/
theorem dispatchWatched_keeps (host : Host σ) {code : Sequence} {frame : Nat}
    (runs : nesting.runs level code frame) (bound : Nat) :
    nesting.Keeps level (dispatchWatched host enter code frame bound) := by
  induction bound with
  | zero => exact .noting (.fail _)
  | succ bound ih =>
      refine .bind (.context) fun context => ?_
      refine .bind (.locatedAt (.noting ?_) code context.pc) fun outcome => ?_
      · cases found : code.instruction? context.pc with
        | none => exact .fail _
        | some instruction => exact advance_keeps enters host runs found
      · cases outcome with
        | leave result => exact .pure result
        | next | jump => exact ih

end Calls

/-- A frame that may be entered at a level comes back to it. -/
theorem evaluateWatched_keeps (host : Host σ) (room : Nat) (level : nesting.Level)
    (activation : Activation) (admitted : nesting.admits level activation) :
    nesting.Keeps level (evaluateWatched host room activation) := by
  induction room generalizing level activation with
  | zero => exact .noting (.fail _)
  | succ room ih =>
      intro machine holds
      obtain ⟨inner, runs, entered, left⟩ := nesting.frame holds admitted
      obtain ⟨code, self, parent, block, arguments⟩ := activation
      unfold evaluateWatched
      simp only [ends_bind, ends_get, ends_modifyContext, ends_report, ends_attempt]
      refine (dispatchWatched_keeps ih host runs (machine.fuel + 1) _ ?_).mono ?_ ?_
      · exact nesting.steady entered rfl rfl
      · intro value after holds
        exact left after holds
      · intro exit after holds
        exact left after holds

end Nesting

/-- A watched run is between two events, and comes back to the level that it starts at. -/
theorem Machine.watch_keeps {σ : Type} {nesting : Nesting σ} {level : nesting.Level}
    (host : Host σ) (limits : Limits) (state : σ) (context : Context) (code : Sequence)
    (holds : nesting.holds level
      ((start limits state [] context).noting History.watcher (.runStart code)))
    (admitted : nesting.admits level ⟨code, .main, none, none, []⟩) :
    ∃ ended, nesting.holds level ended ∧
      (watch host limits state context code).2 = ended.noting History.watcher
        (.runEnd code (faultOf? (watch host limits state context code).1)) := by
  have keeps := Nesting.evaluateWatched_keeps host limits.callDepth level _ admitted _ holds
  unfold Execution.Ends at keeps
  unfold watch
  cases ended : Execution.evaluateWatched host limits.callDepth ⟨code, .main, none, none, []⟩
    ((start limits state [] context).noting History.watcher (.runStart code)) with
  | ok value after =>
      rw [ended] at keeps
      exact ⟨after.keepResult (.ok value), nesting.steady keeps rfl rfl, rfl⟩
  | error exit after =>
      rw [ended] at keeps
      exact ⟨after, keeps, rfl⟩

end StackCode
