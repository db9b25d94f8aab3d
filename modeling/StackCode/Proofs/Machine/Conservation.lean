import StackCode.Proofs.Machine.Effect

/-!
# What an instruction keeps of its context

The outline of a context is its frames with their locals left open.  Nothing
that a frame does changes the outline, or what the stack holds for its callers,
except that frames are entered and left again; and whatever is entered and left
hands back the operands and the next instruction as well.  So all that an
instruction changes in the end is its own operands and the place where its frame
goes on.
-/

namespace StackCode

namespace Frame

def blank (frame : Frame) : Frame :=
  { frame with locals := Array.replicate frame.locals.size none }

/-- Frames that differ in the contents of their locals at most. -/
theorem eq_with_locals_of_blank_eq {first second : Frame} (same : first.blank = second.blank) :
    first.locals.size = second.locals.size ∧ first = { second with locals := first.locals } := by
  obtain ⟨code, self, locals, parent, block, callerPc, depthBelow⟩ := first
  obtain ⟨code', self', locals', parent', block', callerPc', depthBelow'⟩ := second
  simp only [blank, Frame.mk.injEq] at same ⊢
  obtain ⟨sameCode, sameSelf, sameLocals, rest⟩ := same
  exact ⟨by simpa using congrArg Array.size sameLocals, sameCode, sameSelf, trivial, rest⟩

end Frame

namespace Context

def outline (context : Context) : Array Frame :=
  context.frames.map Frame.blank

theorem size_eq_of_outline {before after : Context} (same : after.outline = before.outline) :
    after.frames.size = before.frames.size := by
  simpa [outline] using congrArg Array.size same

theorem base_of_outline (context : Context) : context.base = Frame.base context.outline := by
  rw [base, Frame.base, Frame.base, outline, Array.back?_map, Option.map_map]
  rfl

/-- The frames may have assigned locals, and what belongs to their callers is untouched. -/
structure SameGround (before after : Context) : Prop where
  outline : after.outline = before.outline
  below : after.below = before.below

theorem SameGround.refl (context : Context) : context.SameGround context :=
  ⟨rfl, rfl⟩

theorem SameGround.trans {first middle last : Context} (earlier : first.SameGround middle)
    (later : middle.SameGround last) : first.SameGround last :=
  ⟨later.outline.trans earlier.outline, later.below.trans earlier.below⟩

theorem SameGround.withOperands (context : Context) (operands : List Value) :
    context.SameGround (context.withOperands operands) :=
  ⟨rfl, below_withOperands context operands⟩

/-- The frames may have assigned locals; beside that only globals and methods differ. -/
structure Resumes (before after : Context) : Prop extends SameGround before after where
  operands : after.operands = before.operands
  pc : after.pc = before.pc

theorem Resumes.refl (context : Context) : context.Resumes context :=
  ⟨.refl context, rfl, rfl⟩

theorem Resumes.trans {first middle last : Context} (earlier : first.Resumes middle)
    (later : middle.Resumes last) : first.Resumes last :=
  ⟨earlier.toSameGround.trans later.toSameGround, later.operands.trans earlier.operands,
    later.pc.trans earlier.pc⟩

/-- Contexts with the same stack and outline differ in no operands either. -/
theorem Resumes.of_values {before after : Context} (values : after.values = before.values)
    (outline : after.outline = before.outline) (pc : after.pc = before.pc) :
    before.Resumes after := by
  have base : after.base = before.base := by rw [base_of_outline, outline, ← base_of_outline]
  refine ⟨⟨outline, ?_⟩, ?_, pc⟩
  · rw [below, below, depth, depth, values, base]
  · rw [Context.operands, Context.operands, depth, depth, values, base]

/-- Assigning a local changes a frame. -/
theorem exists_modifyFrame_of_setLocal? {before after : Context} {frame slot level : Nat}
    {value : Value} (assigned : before.setLocal? frame slot level value = some after) :
    ∃ index change keeps, after = before.modifyFrame index change keeps ∧
      ∀ frame : Frame, (change frame).blank = frame.blank := by
  unfold setLocal? at assigned
  simp only [bind, Option.bind_eq_some_iff] at assigned
  obtain ⟨index, -, _, -, assigned⟩ := assigned
  split at assigned
  · exact ⟨index, _, _, (Option.some.inj assigned).symm, fun frame => by simp [Frame.blank]⟩
  · cases assigned

/-- Assigning a local shows in no outline. -/
theorem Resumes.of_setLocal? {before after : Context} {frame slot level : Nat} {value : Value}
    (assigned : before.setLocal? frame slot level value = some after) :
    before.Resumes after := by
  obtain ⟨index, change, keeps, rfl, blank⟩ := exists_modifyFrame_of_setLocal? assigned
  refine .of_values rfl (Array.ext_getElem? fun place => ?_) rfl
  simp only [Context.outline, modifyFrame, Array.getElem?_map, Array.getElem?_modify]
  split
  · cases before.frames[place]? <;> simp [blank]
  · rfl

section Leave

variable {caller inside : Context} {code : Sequence} {self : Value} {parent : Option Nat}
  {block : Option Closure} {arguments : List Value}

/-- A frame that is entered keeps what its caller wants back. -/
theorem outline_enter : ∃ new : Frame, new.callerPc = caller.pc ∧ new.depthBelow = caller.depth ∧
    (caller.enter code self parent block arguments).outline = caller.outline.push new.blank := by
  obtain ⟨new, place, depth, frames⟩ : ∃ new : Frame,
      new.callerPc = caller.pc ∧ new.depthBelow = caller.depth ∧
        (caller.enter code self parent block arguments).frames = caller.frames.push new :=
    ⟨_, rfl, rfl, rfl⟩
  exact ⟨new, place, depth, by rw [outline, frames, Array.map_push, outline]⟩

/-- The frames that outlast a frame are those from before it was entered. -/
theorem outline_leave
    (same : inside.outline = (caller.enter code self parent block arguments).outline) :
    (inside.leave caller.frames.size).outline = caller.outline := by
  obtain ⟨new, -, -, entered⟩ := @outline_enter caller code self parent block arguments
  have size : caller.outline.size = caller.frames.size := Array.size_map
  have taken : (inside.leave caller.frames.size).outline =
      inside.outline.take caller.outline.size := by
    simp [outline]
  rw [taken, same, entered]
  simp

/-- Leaving a frame undoes entering it, whatever it did to its operands and locals. -/
theorem Resumes.of_leave
    (same : (caller.enter code self parent block arguments).SameGround inside) :
    caller.Resumes (inside.leave caller.frames.size) := by
  obtain ⟨new, place, depth, entered⟩ := @outline_enter caller code self parent block arguments
  have pushed := same.outline.trans entered
  have size : caller.outline.size = caller.frames.size := Array.size_map
  have top : inside.outline[caller.frames.size]? = some new.blank := by
    rw [pushed, ← size, Array.getElem?_push_size]
  rw [Context.outline, Array.getElem?_map, Option.map_eq_some_iff] at top
  obtain ⟨left, found, blank⟩ := top
  have restored := (Frame.eq_with_locals_of_blank_eq blank).2
  have depth := (congrArg Frame.depthBelow restored).trans depth
  have own : inside.below = caller.values := same.below.trans (caller.below_enter ..)
  have base : inside.base = caller.depth := by
    rw [base_of_outline, pushed, Frame.base, Array.back?_push]
    exact congrArg Frame.depthBelow blank.symm |>.trans depth
  refine .of_values ?_ (outline_leave same.outline) ?_
  · rw [values_leave found, depth, ← base]
    exact own
  · rw [pc_leave found]
    exact (congrArg Frame.callerPc restored).trans place

end Leave

end Context

def Outcome.place (pc : Nat) : Outcome → Nat
  | .jump target => target
  | .next | .leave _ => pc + 1

/-- One instruction with its outcome, as far as the operands and the outline go. -/
structure Context.Performs (before : Context) (code : Sequence) (instruction : Instruction)
    (outcome : Outcome) (after : Context) : Prop extends before.SameGround after where
  yields : instruction.Yields code outcome
  enough : instruction.demand ≤ before.operands.length
  replaced : ∃ values : List Value, values.length = instruction.supply ∧
    after.operands = values.reverse ++ before.operands.drop instruction.demand

/-- A relation between states of an observer that no event of a host call breaks. -/
structure Observer.Keeps {τ : Type} (observer : Observer τ) (relation : τ → τ → Prop) :
    Prop where
  refl : ∀ trace, relation trace trace
  trans : ∀ {first middle last}, relation first middle → relation middle last →
    relation first last
  host : ∀ event context trace, event.eventClass = .host →
    relation trace (observer.see event context trace)

namespace Machine

variable {σ τ : Type}

structure Returns (relation : τ → τ → Prop) (before after : Machine σ τ) : Prop where
  context : before.context.Resumes after.context
  trace : relation before.trace after.trace

theorem Returns.lasting {observer : Observer τ} {relation : τ → τ → Prop}
    (keeps : observer.Keeps relation) :
    Lasting observer (Returns (σ := σ) relation) where
  refl _ := ⟨.refl _, keeps.refl _⟩
  trans {_ _ _} earlier later :=
    ⟨earlier.context.trans later.context, keeps.trans earlier.trace later.trace⟩
  asked _ _ := ⟨.refl _, keeps.refl _⟩
  counted _ := ⟨.refl _, keeps.refl _⟩
  noted _ event ofHost := ⟨.refl _, keeps.host event _ _ ofHost⟩
  globalSet _ _ _ := ⟨⟨⟨rfl, rfl⟩, rfl, rfl⟩, keeps.refl _⟩
  methodDefined _ _ _ _ := ⟨⟨⟨rfl, rfl⟩, rfl, rfl⟩, keeps.refl _⟩
  localSet _ _ _ _ _ _ assigned := ⟨.of_setLocal? assigned, keeps.refl _⟩

end Machine

namespace Execution

variable {σ τ : Type} {observer : Observer τ} {relation : τ → τ → Prop}
  {enter : Activation → Execution σ τ Value}

/-- What an instruction comes to: its outcome, or an exit. -/
theorem step_ends (keeps : observer.Keeps relation)
    (entering : ∀ activation,
      Respects (Machine.Returns relation) (enter activation) fun _ => True)
    (host : Host σ) (code : Sequence) (frame : Nat) (instruction : Instruction)
    (machine : Machine σ τ) :
    Ends (step host observer enter code frame instruction) machine
      (fun outcome after =>
        machine.context.Performs code instruction outcome after.context ∧
        after.context.pc = machine.context.pc ∧ relation machine.trace after.trace)
      (fun exit after =>
        machine.context.SameGround after.context ∧ relation machine.trace after.trace ∧
        (exit = .raise .stackUnderflow →
          machine.context.operands.length < instruction.demand)) := by
  have lasting := Machine.Returns.lasting (σ := σ) keeps
  have formed : Ends (checkForm instruction) machine (fun _ after => after = machine)
      (fun exit after => after = machine ∧ exit ≠ .raise .stackUnderflow) := by
    cases instruction with
    | expandArray size flag =>
        unfold checkForm
        by_cases plain : flag = 0 <;> simp [plain]
    | _ => exact rfl
  rw [step_eq, ends_bind]
  refine formed.mono ?_ ?_
  · intro _ formed same
    rw [same]
    refine ends_gather_bind
      (fun (enough : instruction.demand ≤ machine.context.operands.length) => ?_)
      fun short operands => ?_
    · have taken : (machine.context.operands.take instruction.demand).reverse.length =
          instruction.demand := by
        rw [List.length_reverse, List.length_take, Nat.min_eq_left enough]
      rw [ends_bind]
      refine (perform_respects lasting entering host code frame taken _).mono ?_ ?_
      · rintro upshot after ⟨⟨resumes, traced⟩, makes⟩
        have ground := (Context.SameGround.withOperands _ _).trans resumes.toSameGround
        refine ends_settle.mpr ⟨⟨ground.trans (.withOperands _ _), makes.yields, enough,
          upshot.values, makes.length_values, ?_⟩, resumes.pc, traced⟩
        rw [Machine.context_withOperands, Context.operands_withOperands, resumes.operands]
        simp [Instruction.demand]
      · rintro exit after ⟨⟨resumes, traced⟩, other⟩
        exact ⟨(Context.SameGround.withOperands _ _).trans resumes.toSameGround, traced,
          fun missing => absurd missing other⟩
    · exact ⟨.withOperands _ _, keeps.refl _, fun _ => short⟩
  · rintro exit after ⟨same, other⟩
    rw [same]
    exact ⟨.refl _, keeps.refl _, fun missing => absurd missing other⟩

end Execution

end StackCode
