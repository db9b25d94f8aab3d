import StackCode.Proofs.Machine.Limits
import StackCode.Proofs.Machine.Nesting

/-!
# Closures stay lexically scoped

A block names the frame that it was made in by its place among the live frames,
and so does the frame that runs the block.  Frames are left in the order opposite
to that in which they were entered, and a block is only lent while its maker is
live.  So the name never goes stale: at that place there is still the frame whose
code has the block.
-/

namespace StackCode

/-- The block was made in one of the frames, by a call in its code and with its receiver. -/
def Closure.MadeIn (closure : Closure) (frames : Array Frame) : Prop :=
  ∃ maker, frames[closure.parent]? = some maker ∧ maker.code.HasBlock closure.body ∧
    closure.self = maker.self

/-- A frame and its block refer to older frames, of which they are parts. -/
structure Frame.Scoped (frame : Frame) (index : Nat) (frames : Array Frame) : Prop where
  parent : ∀ {parent : Nat}, frame.parent = some parent → parent < index ∧
    ∃ outer, frames[parent]? = some outer ∧ outer.code.HasBlock frame.code ∧
      frame.self = outer.self ∧ frame.block = outer.block
  block : ∀ {closure : Closure}, frame.block = some closure →
    closure.parent < index ∧ closure.MadeIn frames

def LexicallyScoped (frames : Array Frame) : Prop :=
  ∀ (index : Nat) (frame : Frame), frames[index]? = some frame → frame.Scoped index frames

structure Activation.FitsIn (activation : Activation) (frames : Array Frame) : Prop where
  parent : ∀ {parent : Nat}, activation.parent = some parent →
    ∃ outer, frames[parent]? = some outer ∧ outer.code.HasBlock activation.code ∧
      activation.self = outer.self ∧ activation.block = outer.block
  block : ∀ {closure : Closure}, activation.block = some closure → closure.MadeIn frames

theorem LexicallyScoped.empty : LexicallyScoped #[] := by
  intro index frame found
  simp at found

/-- What is found among the frames is found there still when one more is entered. -/
theorem getElem?_push_of_some {frames : Array Frame} {index : Nat} {frame : Frame}
    (found : frames[index]? = some frame) (new : Frame) :
    index < frames.size ∧ (frames.push new)[index]? = some frame := by
  obtain ⟨within, -⟩ := Array.getElem?_eq_some_iff.mp found
  refine ⟨within, ?_⟩
  rw [Array.getElem?_push, if_neg (Nat.ne_of_lt within), found]

/-- A frame that fits in may be entered. -/
theorem LexicallyScoped.push {frames : Array Frame} (lexical : LexicallyScoped frames)
    {new : Frame} (arguments : List Value)
    (fits : Activation.FitsIn ⟨new.code, new.self, new.parent, new.block, arguments⟩ frames) :
    LexicallyScoped (frames.push new) := by
  intro index frame found
  rw [Array.getElem?_push] at found
  split at found
  · rename_i newest
    obtain rfl := Option.some.inj found
    refine ⟨fun isParent => ?_, fun isBlock => ?_⟩
    · obtain ⟨outer, live, inside⟩ := fits.parent isParent
      obtain ⟨older, live⟩ := getElem?_push_of_some live new
      exact ⟨newest ▸ older, outer, live, inside⟩
    · obtain ⟨maker, live, made⟩ := fits.block isBlock
      obtain ⟨older, live⟩ := getElem?_push_of_some live new
      exact ⟨newest ▸ older, maker, live, made⟩
  · refine ⟨fun isParent => ?_, fun isBlock => ?_⟩
    · obtain ⟨older, outer, live, inside⟩ := (lexical index frame found).parent isParent
      exact ⟨older, outer, (getElem?_push_of_some live new).2, inside⟩
    · obtain ⟨older, maker, live, made⟩ := (lexical index frame found).block isBlock
      exact ⟨older, maker, (getElem?_push_of_some live new).2, made⟩

namespace Context

variable {context : Context}

theorem outline_getElem? {index : Nat} {frame : Frame} :
    context.outline[index]? = some frame ↔
      ∃ live, context.frames[index]? = some live ∧ live.blank = frame := by
  rw [outline, Array.getElem?_map, Option.map_eq_some_iff]

theorem selfOf_of_outline {index : Nat} {frame : Frame}
    (found : context.outline[index]? = some frame) : context.selfOf index = frame.self := by
  obtain ⟨live, present, rfl⟩ := outline_getElem?.mp found
  rw [selfOf, present]
  rfl

theorem blockOf?_of_outline {index : Nat} {frame : Frame}
    (found : context.outline[index]? = some frame) : context.blockOf? index = frame.block := by
  obtain ⟨live, present, rfl⟩ := outline_getElem?.mp found
  rw [blockOf?, present]
  rfl

/-- Whether the frames are scoped is a matter of the outline. -/
theorem lexicallyScoped_of_outline (lexical : LexicallyScoped context.outline) :
    LexicallyScoped context.frames := by
  intro index frame found
  have inOutline := lexical index frame.blank (outline_getElem?.mpr ⟨frame, found, rfl⟩)
  refine ⟨fun isParent => ?_, fun isBlock => ?_⟩
  · obtain ⟨older, _, present, inside⟩ := inOutline.parent isParent
    obtain ⟨outer, live, rfl⟩ := outline_getElem?.mp present
    exact ⟨older, outer, live, inside⟩
  · obtain ⟨older, _, present, made⟩ := inOutline.block isBlock
    obtain ⟨maker, live, rfl⟩ := outline_getElem?.mp present
    exact ⟨older, maker, live, made⟩

end Context

/-! ## Runs -/

/-- The machine has frames of the outline, which are scoped, as in all that has been seen. -/
structure Machine.ScopedAt {σ : Type} (outline : Array Frame) (machine : Machine σ History) :
    Prop where
  agrees : machine.context.outline = outline
  now : LexicallyScoped outline
  seen : ∀ sight ∈ machine.trace, LexicallyScoped sight.context.frames

namespace Machine.ScopedAt

variable {σ : Type} {outline : Array Frame} {machine : Machine σ History}

theorem frames (lexical : machine.ScopedAt outline) : LexicallyScoped machine.context.frames := by
  apply Context.lexicallyScoped_of_outline
  rw [lexical.agrees]
  exact lexical.now

/-- What is seen in the present context is scoped like that. -/
theorem seeing (lexical : machine.ScopedAt outline) {sight : Sight}
    (present : sight.context = machine.context) :
    ({ machine with trace := machine.trace ++ [sight] } : Machine σ History).ScopedAt outline := by
  refine ⟨lexical.agrees, lexical.now, fun other seen => ?_⟩
  rcases List.mem_append.mp seen with earlier | last
  · exact lexical.seen other earlier
  · rw [List.mem_singleton.mp last, present]
    exact lexical.frames

theorem noting (lexical : machine.ScopedAt outline) (event : Event) :
    (machine.noting History.watcher event).ScopedAt outline := by
  unfold Machine.noting
  rw [History.see_watcher]
  exact lexical.seeing rfl

theorem entering (lexical : machine.ScopedAt outline) {activation : Activation}
    (fits : activation.FitsIn outline) :
    (machine.entering activation).ScopedAt (machine.entering activation).context.outline := by
  refine ⟨rfl, ?_, lexical.seen⟩
  unfold Machine.entering Context.enter Context.outline
  rw [Array.map_push]
  change LexicallyScoped (machine.context.outline.push _)
  rw [lexical.agrees]
  exact lexical.now.push activation.arguments fits

end Machine.ScopedAt

/-- A level is the outline of its frames.  Blocks are lent while their makers are live. -/
def Nesting.scoping (σ : Type) : Nesting σ where
  Level := Array Frame
  holds outline machine := machine.ScopedAt outline
  runs outline code frame := ∃ live, outline[frame]? = some live ∧ live.code = code
  lends outline closure := closure.MadeIn outline
  admits outline activation := activation.FitsIn outline
  steady lexical same unseen := ⟨same.trans lexical.agrees, lexical.now, unseen ▸ lexical.seen⟩
  instruction lexical code pc instruction depth := lexical.noting _
  raised lexical error := lexical.seeing rfl
  hostCall {outline machine} lexical method depth pc :=
    ⟨outline, lexical.noting _, fun _ => id, fun after lexical => lexical.noting _⟩
  frame {outline machine activation} lexical fits := by
    refine ⟨_, ?_, (lexical.entering fits).noting _, fun after inside => ?_⟩
    · refine ⟨_, Context.outline_getElem?.mpr ⟨_, Array.getElem?_push_size, rfl⟩, rfl⟩
    · have restored := Context.outline_leave inside.agrees
      have left := inside.noting
        (.exit (.frame activation.code) (machine.context.frames.size + 1) machine.context.pc)
      exact ⟨restored.trans lexical.agrees, lexical.now, left.seen⟩
  made {outline machine code frame body} lexical running hasBlock := by
    obtain ⟨maker, live, rfl⟩ := running
    exact ⟨maker, live, hasBlock, Context.selfOf_of_outline (lexical.agrees ▸ live)⟩
  held {outline machine code frame closure} lexical running isBlock := by
    obtain ⟨holder, live, rfl⟩ := running
    rw [Context.blockOf?_of_outline (lexical.agrees ▸ live)] at isBlock
    exact ((lexical.now _ _ live).block isBlock).2
  called lent := ⟨nofun, fun isBlock => lent _ isBlock⟩
  invoked {outline machine closure arguments} lexical lent := by
    obtain ⟨maker, live, hasBlock, sameSelf⟩ := lent
    have sameBlock : machine.context.blockOf? closure.parent = maker.block :=
      Context.blockOf?_of_outline (lexical.agrees ▸ live)
    refine ⟨fun isParent => ?_, fun isBlock => ?_⟩
    · obtain rfl := Option.some.inj isParent
      exact ⟨maker, live, hasBlock, sameSelf, sameBlock⟩
    · exact ((lexical.now _ _ live).block (sameBlock ▸ isBlock)).2

namespace Machine

/--
Whoever follows a run, it is the watched run, and whatever happens in that, every
live frame is lexically scoped.  Its parent is an older frame, which has the same
receiver and block, and a call in whose code comes with what the frame runs.  A
block that it holds was made in an older frame, by a call in that frame's code
and with that frame's receiver.

A frame is seen when it is entered, and when it is left the older ones are as
before; so nothing is live that has not been seen.
-/
theorem closures_stay_scoped {σ : Type} (host : Host σ) (limits : Limits) (state : σ)
    (context : Context) (code : Sequence) :
    let (result, ended) := watch host limits state context code
    (∀ {τ : Type} (observer : Observer τ) (trace : τ),
      run host observer limits state trace context code =
        (result, ended.withTrace (ended.trace.seenBy observer trace))) ∧
    ∀ sight ∈ ended.trace, LexicallyScoped sight.context.frames := by
  have fresh : (start limits state [] context).ScopedAt #[] := by
    refine ⟨Array.map_empty, .empty, ?_⟩
    rintro sight ⟨⟩
  have fits : Activation.FitsIn ⟨code, .main, none, none, []⟩ #[] := ⟨nofun, nofun⟩
  have started : (Nesting.scoping σ).holds #[] _ := fresh.noting (.runStart code)
  obtain ⟨ended, lexical, watched⟩ := watch_keeps host limits state context code started fits
  refine ⟨fun observer trace => run_eq_watch host observer limits state trace context code, ?_⟩
  have atEnd : (watch host limits state context code).2.ScopedAt #[] :=
    watched ▸ Machine.ScopedAt.noting lexical _
  exact atEnd.seen

/-- The frame that runs the block is within the one whose code has it. -/
example :
    let ended := (watch ObjectModel.host .usual (.withTables .empty .empty) .empty eachOnce).2
    ended.trace.any (fun sight =>
      sight.context.frames.toList.map Frame.parent == [none, some 0]) = true := by
  decide +kernel

end Machine

end StackCode
