import StackCode.ObjectModel.Host
import StackCode.Proofs.Machine.Concord
import StackCode.Proofs.Machine.Conservation

/-!
# Which locals a call may assign

A frame assigns its own locals and those of the frames around it.  It may also
run the block that it was called with, and that block assigns locals of the frame
that made it, and so on outwards and from block to block.  Every other frame comes
out of the call as it went in, whatever the host does with the blocks it is given.

The frames that are entered meanwhile lie beyond those that are live.  So a
region is looked at that has all of these places and no way out: what a frame in
it refers to is in it again.
-/

namespace StackCode

/--
The frames that a new frame can refer to: the frame around it, the one that made
its block, and what these frames refer to in turn.
-/
inductive Activation.Reaches (activation : Activation) (frames : Array Frame) : Nat → Prop where
  | parent {index : Nat} : activation.parent = some index → activation.Reaches frames index
  | block {closure : Closure} : activation.block = some closure →
      activation.Reaches frames closure.parent
  | outward {index parent : Nat} {frame : Frame} : activation.Reaches frames index →
      frames[index]? = some frame → frame.parent = some parent → activation.Reaches frames parent
  | lent {index : Nat} {frame : Frame} {closure : Closure} : activation.Reaches frames index →
      frames[index]? = some frame → frame.block = some closure →
      activation.Reaches frames closure.parent

namespace Context

/-- All places beyond the live frames are in the region, and no frame in it refers out of it. -/
structure Confines (region : Nat → Prop) (context : Context) : Prop where
  beyond : ∀ index, context.frames.size ≤ index → region index
  parent : ∀ {index parent frame}, region index → context.frames[index]? = some frame →
    frame.parent = some parent → region parent
  block : ∀ {index frame closure}, region index → context.frames[index]? = some frame →
    frame.block = some closure → region closure.parent

/-- Locals may have been assigned, but only in the region. -/
structure Spares (region : Nat → Prop) (before after : Context) : Prop where
  outline : after.outline = before.outline
  spared : ∀ index, ¬ region index → after.frames[index]? = before.frames[index]?

variable {region : Nat → Prop} {context before after : Context}

theorem Spares.refl (context : Context) : Spares region context context :=
  ⟨rfl, fun _ _ => rfl⟩

theorem Spares.trans {first middle last : Context} (earlier : Spares region first middle)
    (later : Spares region middle last) : Spares region first last :=
  ⟨later.outline.trans earlier.outline,
    fun index outside => (later.spared index outside).trans (earlier.spared index outside)⟩

theorem Spares.of_frames (same : after.frames = before.frames) : Spares region before after :=
  ⟨congrArg (Array.map Frame.blank) same, fun _ _ => by rw [same]⟩

/-- What frames refer to shows in their outline. -/
theorem Confines.of_outline (confines : Confines region before)
    (same : after.outline = before.outline) : Confines region after := by
  have size := size_eq_of_outline same
  have found {index : Nat} {frame : Frame} (there : after.frames[index]? = some frame) :
      ∃ frame', before.frames[index]? = some frame' ∧ frame'.blank = frame.blank := by
    have same := congrArg (fun frames => frames[index]?) same
    simp only [outline, Array.getElem?_map, there, Option.map_some] at same
    exact Option.map_eq_some_iff.mp same.symm
  refine ⟨fun index past => confines.beyond index (size ▸ past), ?_, ?_⟩
  · intro index parent frame inside there outward
    obtain ⟨frame', there', blank⟩ := found there
    have same : frame'.blank.parent = frame.blank.parent := congrArg Frame.parent blank
    exact confines.parent inside there' (same.trans outward)
  · intro index frame closure inside there lent
    obtain ⟨frame', there', blank⟩ := found there
    have same : frame'.blank.block = frame.blank.block := congrArg Frame.block blank
    exact confines.block inside there' (same.trans lent)

namespace Confines

variable (confines : Confines region context)
include confines

/-- The way outwards stays in the region. -/
theorem enclosing? {frame level index : Nat} (inside : region frame)
    (found : context.enclosing? frame level = some index) : region index := by
  induction level generalizing frame with
  | zero =>
      obtain rfl := Option.some.inj found
      exact inside
  | succ level ih =>
      simp only [Context.enclosing?, bind, Option.bind_eq_some_iff] at found
      obtain ⟨inner, there, parent, outward, found⟩ := found
      exact ih (confines.parent inside there outward) found

theorem blockOf? {frame : Nat} {closure : Closure} (inside : region frame)
    (held : context.blockOf? frame = some closure) : region closure.parent := by
  obtain ⟨owner, there, lent⟩ := Option.bind_eq_some_iff.mp held
  exact confines.block inside there lent

/-- A local is assigned in the region if the frame that assigns it is there. -/
theorem spares_setLocal? {frame slot level : Nat} {value : Value} (inside : region frame)
    (assigned : context.setLocal? frame slot level value = some after) :
    Spares region context after := by
  refine ⟨(Resumes.of_setLocal? assigned).outline, fun place outside => ?_⟩
  simp only [setLocal?, bind, Option.bind_eq_some_iff] at assigned
  obtain ⟨index, found, owner, -, assigned⟩ := assigned
  split at assigned
  · obtain rfl := Option.some.inj assigned
    have other : index ≠ place := by
      rintro rfl
      exact outside (confines.enclosing? inside found)
    simp [modifyFrame, Array.getElem?_modify, other]
  · cases assigned

/-- A frame that is entered lies in the region, and is told of frames in the region. -/
theorem enter {code : Sequence} {self : Value} {parent : Option Nat} {block : Option Closure}
    {arguments : List Value} (outward : ∀ index, parent = some index → region index)
    (lent : ∀ closure, block = some closure → region closure.parent) :
    Confines region (context.enter code self parent block arguments) := by
  refine ⟨fun index past => ?_, ?_, ?_⟩
  · refine confines.beyond index ?_
    simp only [Context.enter, Array.size_push] at past
    omega
  · intro index outer frame inside there around
    simp only [Context.enter, Array.getElem?_push] at there
    split at there
    · obtain rfl := Option.some.inj there
      exact outward outer around
    · exact confines.parent inside there around
  · intro index frame closure inside there held
    simp only [Context.enter, Array.getElem?_push] at there
    split at there
    · obtain rfl := Option.some.inj there
      exact lent closure held
    · exact confines.block inside there held

/-- What a frame did to the frames below it is all that is left of it. -/
theorem spares_leave {inside : Context} {code : Sequence} {self : Value} {parent : Option Nat}
    {block : Option Closure} {arguments : List Value}
    (spares : Spares region (context.enter code self parent block arguments) inside) :
    Spares region context (inside.leave context.frames.size) := by
  refine ⟨outline_leave spares.outline, fun index outside => ?_⟩
  have live : index < context.frames.size :=
    Nat.lt_of_not_le fun past => outside (confines.beyond index past)
  have below : (inside.leave context.frames.size).frames[index]? = inside.frames[index]? := by
    simp only [frames_leave, Array.take_eq_extract, Array.getElem?_extract]
    split
    · rw [Nat.zero_add]
    · rw [Array.getElem?_eq_none (by omega)]
  rw [below, spares.spared index outside]
  simp [Context.enter, Array.getElem?_push, Nat.ne_of_lt live]

end Confines

end Context

namespace Activation

/-- Told of no frame and of no block, a new frame can refer to none that is live. -/
theorem not_reaches {activation : Activation} {frames : Array Frame}
    (alone : activation.parent = none) (unlent : activation.block = none) (index : Nat) :
    ¬ activation.Reaches frames index := by
  intro reached
  induction reached with
  | parent outward => rw [alone] at outward; cases outward
  | block lent => rw [unlent] at lent; cases lent
  | outward _ _ _ ih | lent _ _ _ ih => exact ih

def region (activation : Activation) (frames : Array Frame) (index : Nat) : Prop :=
  frames.size ≤ index ∨ activation.Reaches frames index

theorem confines (activation : Activation) (context : Context) :
    context.Confines (activation.region context.frames) := by
  have reached {index : Nat} {frame : Frame} (inside : activation.region context.frames index)
      (there : context.frames[index]? = some frame) :
      activation.Reaches context.frames index := by
    refine inside.resolve_left fun past => ?_
    rw [Array.getElem?_eq_none past] at there
    cases there
  refine ⟨fun _ => .inl, ?_, ?_⟩
  · intro index parent frame inside there outward
    exact .inr (.outward (reached inside there) there outward)
  · intro index frame closure inside there lent
    exact .inr (.lent (reached inside there) there lent)

end Activation

namespace Execution

variable {σ τ α β : Type}

def Confined (region : Nat → Prop) (execution : Execution σ τ α) : Prop :=
  ∀ machine, machine.context.Confines region → Ends execution machine
    (fun _ after => machine.context.Spares region after.context)
    (fun _ after => machine.context.Spares region after.context)

variable {region : Nat → Prop}

namespace Confined

theorem pure (value : α) : Confined region (Pure.pure value : Execution σ τ α) :=
  fun _ _ => .refl _

theorem throw (exit : Exit) : Confined region (throw exit : Execution σ τ α) :=
  fun _ _ => .refl _

theorem context : Confined region (context : Execution σ τ Context) :=
  fun _ _ => .refl _

theorem bind {first : Execution σ τ β} {next : β → Execution σ τ α}
    (firsts : Confined region first) (nexts : ∀ value, Confined region (next value)) :
    Confined region (first >>= next) := by
  intro machine confines
  rw [ends_bind]
  refine (firsts machine confines).mono (fun value after spares => ?_) fun _ _ => id
  refine (nexts value after (confines.of_outline spares.outline)).mono ?_ ?_
  · exact fun _ _ later => spares.trans later
  · exact fun _ _ later => spares.trans later

theorem look {next : Context → Execution σ τ α}
    (nexts : ∀ context, context.Confines region → Confined region (next context)) :
    Confined region (Execution.context >>= next) :=
  fun machine confines =>
    (ends_bind _ _).mpr (ends_context.mpr (nexts machine.context confines machine confines))

theorem get {next : Machine σ τ → Execution σ τ α}
    (nexts : ∀ machine, Confined region (next machine)) :
    Confined region (get >>= next) :=
  fun machine confines => (ends_bind _ _).mpr (ends_get.mpr (nexts machine machine confines))

theorem attempt {execution : Execution σ τ α} (confined : Confined region execution) :
    Confined region (attempt execution) := by
  intro machine confines
  rw [ends_attempt]
  exact confined machine confines

theorem modifyContext {change : Context → Context}
    (same : ∀ context, (change context).frames = context.frames) :
    Confined (σ := σ) (τ := τ) region (modifyContext change) :=
  fun machine _ => (ends_modifyContext change).mpr (.of_frames (same machine.context))

theorem askHost (question : σ → α × σ) :
    Confined region (askHost question : Execution σ τ α) :=
  fun _ _ => (ends_askHost question).mpr (.refl _)

theorem report (observer : Observer τ) (event : Event) :
    Confined (σ := σ) region (report observer event) :=
  fun _ _ => (ends_report observer event).mpr (.refl _)

theorem reportInstruction (observer : Observer τ) (code : Sequence) (pc : Nat)
    (instruction : Instruction) :
    Confined (σ := σ) region (reportInstruction observer code pc instruction) :=
  fun _ _ => (ends_reportInstruction observer code pc instruction).mpr (.refl _)

theorem popMany (count : Nat) : Confined (σ := σ) (τ := τ) region (popMany count) := by
  intro machine confines
  rw [ends_popMany]
  split
  · exact .of_frames rfl
  · exact .refl _

theorem writeLocal {frame : Nat} (inside : region frame) (name : String) (slot level : Nat)
    (value : Value) :
    Confined (σ := σ) (τ := τ) region (writeLocal frame name slot level value) := by
  intro machine confines
  unfold Execution.writeLocal
  rw [ends_bind, ends_context]
  cases assigned : machine.context.setLocal? frame slot level value with
  | none => exact .refl _
  | some context => exact confines.spares_setLocal? inside assigned

theorem burn : Confined (σ := σ) (τ := τ) region burn := by
  intro machine confines
  rw [ends_burn]
  split <;> exact .refl _

theorem countHostCall : Confined (σ := σ) (τ := τ) region countHostCall := by
  intro machine confines
  rw [ends_countHostCall]
  split <;> exact .refl _

theorem locatedAt {execution : Execution σ τ α} (confined : Confined region execution)
    (code : Sequence) (pc : Nat) : Confined region (locatedAt code pc execution) :=
  fun machine confines => (ends_locatedAt code pc).mpr (confined machine confines)

end Confined

def confinement (σ τ : Type) (region : Nat → Prop) : Concord σ τ σ τ where
  agree _ execution _ := Confined region execution
  known context := context.Confines region
  lends closure := region closure.parent
  runs := region
  pure := .pure
  bind := .bind
  after := .bind
  fail _ := .throw _
  look nexts := .look fun context => nexts context context (.refl context)
  popMany := .popMany
  push _ := .modifyContext fun _ => rfl
  setGlobal _ _ := .modifyContext fun _ => rfl
  defineMethod _ _ _ := .modifyContext fun _ => rfl
  writeLocal := .writeLocal

/-! ## Calls -/

section Calls

variable {host : Host σ} {observer : Observer τ} {enter : Activation → Execution σ τ Value}
  (enters : ∀ activation : Activation, (∀ index, activation.parent = some index → region index) →
    (∀ closure, activation.block = some closure → region closure.parent) →
    Confined region (enter activation))
include enters

theorem invoke_confined {closure : Closure} (inside : region closure.parent)
    (arguments : List Value) : Confined region (invoke enter closure arguments) := by
  refine .look fun context confines => enters _ ?_ ?_
  · intro index outward
    exact Option.some.inj outward ▸ inside
  · intro block lent
    exact confines.blockOf? inside lent

theorem converse_confined {closure : Closure} (inside : region closure.parent)
    (conversation : Conversation σ) : Confined region (converse enter closure conversation) := by
  induction conversation with
  | done result state => exact .askHost _
  | yield arguments state resume ih =>
      refine .bind (.askHost _) fun _ => .bind (.bind ?_ fun outcome => ?_) fun answer => ?_
      · exact .attempt (invoke_confined enters inside arguments)
      · cases outcome <;> exact .pure _
      · exact .get fun machine => ih answer machine.host

theorem converseWithHost_confined (receiver : Value) (method : String) (arguments : List Value)
    (block : Option Closure) (lent : ∀ closure, block = some closure → region closure.parent) :
    Confined region (converseWithHost host enter receiver method arguments block) := by
  cases block with
  | none => exact .askHost fun state => host.send state receiver method arguments
  | some closure => exact .get fun machine => converse_confined enters (lent closure rfl) _

theorem callHost_confined (receiver : Value) (method : String) (arguments : List Value)
    (block : Option Closure) (lent : ∀ closure, block = some closure → region closure.parent) :
    Confined region (callHost host observer enter receiver method arguments block) := by
  refine .bind .countHostCall fun _ => .bind .context fun caller => ?_
  refine .bind (.report _ _) fun _ => .bind ?_ fun result => .bind (.report _ _) fun _ => ?_
  · exact converseWithHost_confined enters receiver method arguments block lent
  · cases result with
    | ok value => exact .pure value
    | error error => exact .throw _

theorem confinement_partners :
    (confinement σ τ region).Partners host host observer observer enter enter where
  globals _ _ _ := .askHost _
  constants _ _ := .askHost _
  methods _ _ := .askHost _
  calls := callHost_confined enters
  enters _ _ _ _ lent := enters _ nofun lent
  invokes _ arguments inside := invoke_confined enters inside arguments

/-! ## Frames -/

theorem advance_confined (code : Sequence) {frame : Nat} (inside : region frame) (pc : Nat)
    (instruction : Instruction) :
    Confined region (advance host observer enter code frame pc instruction) := by
  have supplies : (confinement σ τ region).Supplies frame instruction :=
    ⟨inside, fun _ _ => inside, fun confines held => confines.blockOf? inside held⟩
  refine .bind .burn fun _ => .bind (.reportInstruction observer code pc instruction) fun _ => ?_
  refine .bind (.modifyContext fun _ => rfl) fun _ => ?_
  refine .bind (Concord.step (confinement_partners enters) code supplies) fun outcome => ?_
  cases outcome with
  | jump target => exact .bind (.modifyContext fun _ => rfl) fun _ => .pure _
  | next | leave => exact .bind (.pure _) fun _ => .pure _

theorem dispatch_confined (code : Sequence) {frame : Nat} (inside : region frame) (bound : Nat) :
    Confined region (dispatch host observer enter code frame bound) := by
  induction bound with
  | zero => exact .throw _
  | succ bound ih =>
      refine .bind .context fun context => .bind (.locatedAt ?_ code context.pc) fun outcome => ?_
      · cases code.instruction? context.pc with
        | none => exact .throw _
        | some instruction => exact advance_confined enters code inside _ instruction
      · cases outcome with
        | leave result => exact .pure result
        | next | jump => exact ih

end Calls

/-- A frame that is told of the region only assigns locals of the region only. -/
theorem evaluate_confined (host : Host σ) (observer : Observer τ) (room : Nat)
    (activation : Activation) (outward : ∀ index, activation.parent = some index → region index)
    (lent : ∀ closure, activation.block = some closure → region closure.parent) :
    Confined region (evaluate host observer room activation) := by
  induction room generalizing activation with
  | zero => exact .throw _
  | succ room ih =>
      obtain ⟨code, self, parent, block, arguments⟩ := activation
      intro machine confines
      have inside : region machine.context.frames.size := confines.beyond _ (Nat.le_refl _)
      have entered : Context.Confines region
          (machine.context.enter code self parent block arguments) :=
        confines.enter outward lent
      have started : Context.Confines region
          { machine.context.enter code self parent block arguments with pc := 0 } :=
        entered.of_outline rfl
      unfold evaluate
      simp only [ends_bind, ends_get, ends_modifyContext, ends_report, ends_attempt]
      have left {after : Machine σ τ} (spares : Context.Spares region
          { machine.context.enter code self parent block arguments with pc := 0 } after.context) :
          machine.context.Spares region (after.context.leave machine.context.frames.size) := by
        have entered : Context.Spares region
            (machine.context.enter code self parent block arguments) after.context :=
          ⟨spares.outline, spares.spared⟩
        exact confines.spares_leave entered
      refine (dispatch_confined ih code inside (machine.fuel + 1) _ started).mono ?_ ?_
      · exact fun value after spares => left spares
      · exact fun exit after spares => left spares

/-- What an activation cannot reach is spared. -/
theorem evaluate_spares (host : Host σ) (observer : Observer τ) (room : Nat)
    (activation : Activation) (machine : Machine σ τ) :
    Ends (evaluate host observer room activation) machine
      (fun _ after =>
        machine.context.Spares (activation.region machine.context.frames) after.context)
      (fun _ after =>
        machine.context.Spares (activation.region machine.context.frames) after.context) := by
  refine evaluate_confined host observer room activation ?_ ?_ machine
    (activation.confines machine.context)
  · exact fun index outward => .inr (.parent outward)
  · exact fun closure lent => .inr (.block lent)

/-- A method of the program that comes without a block spares all frames. -/
theorem call_spares (host : Host σ) (observer : Observer τ) (room : Nat) (receiver : Value)
    (method : String) (arguments : List Value) {body : Sequence} {machine : Machine σ τ}
    (defined : machine.context.method? receiver.className method = some body) :
    Ends (call host observer (evaluate host observer room) receiver method arguments none) machine
      (fun _ after => machine.context.Spares (machine.context.frames.size ≤ ·) after.context)
      (fun _ after => machine.context.Spares (machine.context.frames.size ≤ ·) after.context) := by
  unfold call
  rw [ends_bind, ends_context, defined]
  dsimp only
  split
  · have unreached {after : Context} (spares : machine.context.Spares
        (Activation.region ⟨body, receiver, none, none, arguments⟩ machine.context.frames) after) :
        machine.context.Spares (machine.context.frames.size ≤ ·) after := by
      refine ⟨spares.outline, fun index live => spares.spared index ?_⟩
      rintro (past | reached)
      · exact live past
      · exact Activation.not_reaches rfl rfl index reached
    refine (evaluate_spares host observer room _ machine).mono ?_ ?_
    · exact fun _ _ => unreached
    · exact fun _ _ => unreached
  · exact .refl _

end Execution

namespace Machine

variable {σ τ : Type}

/--
A frame that a new frame cannot refer to is, when the new one is left, what it was,
locals and all.  So a method of the program that is called without a block leaves
all frames as they were.
-/
theorem locals_isolated (host : Host σ) (observer : Observer τ) (room : Nat) :
    (∀ (activation : Activation) (machine : Machine σ τ) (index : Nat) (frame : Frame),
      machine.context.frames[index]? = some frame →
      ¬ activation.Reaches machine.context.frames index →
      ((Execution.evaluate host observer room activation).final
        machine).context.frames[index]? = some frame) ∧
    ∀ (receiver : Value) (method : String) (arguments : List Value) (body : Sequence)
      (machine : Machine σ τ),
      machine.context.method? receiver.className method = some body →
      ((Execution.call host observer (Execution.evaluate host observer room) receiver method
        arguments none).final machine).context.frames = machine.context.frames := by
  constructor
  · intro activation machine index frame live unreached
    have spares := Execution.final_of_ends
      (Execution.evaluate_spares host observer room activation machine)
    rw [spares.spared index, live]
    rintro (past | reached)
    · rw [Array.getElem?_eq_none past] at live
      cases live
    · exact unreached reached
  · intro receiver method arguments body machine defined
    have spares := Execution.final_of_ends
      (Execution.call_spares host observer room receiver method arguments defined)
    have size := Context.size_eq_of_outline spares.outline
    refine Array.ext_getElem? fun index => ?_
    by_cases past : machine.context.frames.size ≤ index
    · rw [Array.getElem?_eq_none past, Array.getElem?_eq_none (size ▸ past)]
    · exact spares.spared index past

def assigning : Sequence where
  name := "assign"
  kind := .method
  code := #[.putOne, .setOwnLocal "a" 0, .putNil, .leave]
  labels := #[]
  locals := ["a"]
  parameters := .none
  handlers := []

/-- A program that defined the method and has a value of its own in the same slot. -/
def assigned : Machine ObjectModel Unit where
  context := (Context.empty.enter assigning .main none none [.integer 5]).defineMethod
    "Object" "assign" assigning
  limits := .usual
  fuel := 9
  hostCalls := 0
  host := .withTables .empty .empty
  trace := ()

/-- The method runs to its end, and the slot of the caller has the value that it had. -/
theorem locals_isolated_assigning :
    (∃ frame, assigned.context.frames[0]? = some frame ∧ frame.locals = #[some (.integer 5)] ∧
      ((Execution.evaluate ObjectModel.host .silent 9 ⟨assigning, .main, none, none, []⟩).final
        assigned).context.frames[0]? = some frame) ∧
    (∃ after, Execution.call ObjectModel.host .silent
      (Execution.evaluate ObjectModel.host .silent 9) .main "assign" [] none assigned =
        .ok .nil after) ∧
    ((Execution.call ObjectModel.host .silent (Execution.evaluate ObjectModel.host .silent 9)
      .main "assign" [] none).final assigned).context.frames = assigned.context.frames := by
  have isolated := locals_isolated ObjectModel.host (.silent : Observer Unit) 9
  refine ⟨⟨_, rfl, rfl, ?_⟩, ⟨_, rfl⟩, ?_⟩
  · exact isolated.1 ⟨assigning, .main, none, none, []⟩ assigned 0 _ rfl
      (Activation.not_reaches rfl rfl 0)
  · exact isolated.2 .main "assign" [] assigning assigned rfl

end Machine

end StackCode
