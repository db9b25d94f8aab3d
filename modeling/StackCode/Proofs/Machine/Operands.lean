import StackCode.Machine.State

/-!
# The operands of a frame

The base of the innermost frame divides the operand stack: its operands lie above,
and what belongs to its callers lies below.  Every access to the stack is guarded by
the base.  So it sees and changes the operands alone, and it fails exactly if there
are too few of them.
-/

namespace StackCode

namespace Context

variable (context : Context)

/-- The operands of the innermost frame, top first. -/
def operands : List Value :=
  context.values.take (context.depth - context.base)

/-- What the stack holds for the callers of the innermost frame, top first. -/
def below : List Value :=
  context.values.drop (context.depth - context.base)

theorem operands_append_below : context.operands ++ context.below = context.values :=
  List.take_append_drop _ _

@[simp] theorem length_below : context.below.length = context.base := by
  have within := context.base_le_depth
  rw [below, List.length_drop]
  simp only [depth] at within ⊢
  omega

theorem depth_eq : context.depth = context.base + context.operands.length := by
  rw [depth, ← context.operands_append_below, List.length_append, length_below, Nat.add_comm]

/-- The stack is what the callers have and the operands on top of that. -/
theorem stack_eq : context.stack = context.below.reverse ++ context.operands.reverse := by
  rw [stack, ← context.operands_append_below, List.reverse_append]

def withOperands (operands : List Value) : Context :=
  context.withValues (operands ++ context.below) (by simp)

/-- Contexts that share all but their stacks are equal if these are. -/
theorem withValues_congr {values values' : List Value} (same : values = values')
    (above : context.base ≤ values.length) :
    context.withValues values above = context.withValues values' (same ▸ above) := by
  subst same
  rfl

section WithOperands

variable (operands : List Value)

@[simp] theorem values_withOperands :
    (context.withOperands operands).values = operands ++ context.below := rfl

@[simp] theorem frames_withOperands : (context.withOperands operands).frames = context.frames :=
  rfl

@[simp] theorem globals_withOperands :
    (context.withOperands operands).globals = context.globals := rfl

@[simp] theorem methods_withOperands :
    (context.withOperands operands).methods = context.methods := rfl

@[simp] theorem pc_withOperands : (context.withOperands operands).pc = context.pc := rfl

@[simp] theorem base_withOperands : (context.withOperands operands).base = context.base := rfl

theorem above_withOperands :
    (context.withOperands operands).depth - (context.withOperands operands).base =
      operands.length := by
  rw [base_withOperands, depth, values_withOperands, List.length_append, length_below,
    Nat.add_sub_cancel]

@[simp] theorem operands_withOperands : (context.withOperands operands).operands = operands := by
  rw [Context.operands, above_withOperands, values_withOperands, List.take_left]

@[simp] theorem below_withOperands : (context.withOperands operands).below = context.below := by
  rw [below, above_withOperands, values_withOperands, List.drop_left]

@[simp] theorem withOperands_withOperands (operands' : List Value) :
    (context.withOperands operands).withOperands operands' = context.withOperands operands' :=
  withValues_congr context (congrArg (operands' ++ ·) (below_withOperands context operands))
    (by simp)

end WithOperands

@[simp] theorem withOperands_self : context.withOperands context.operands = context :=
  withValues_congr context context.operands_append_below _

/-! ## Access to the stack -/

theorem popMany?_eq (count : Nat) : context.popMany? count =
    if count ≤ context.operands.length then
      some ((context.operands.take count).reverse,
        context.withOperands (context.operands.drop count))
    else none := by
  have depth := context.depth_eq
  unfold popMany?
  by_cases enough : count ≤ context.operands.length
  · have taken : context.values.take count = context.operands.take count := by
      rw [← context.operands_append_below, List.take_append_of_le_length enough]
    have left : context.values.drop count = context.operands.drop count ++ context.below := by
      rw [← context.operands_append_below, List.drop_append_of_le_length enough]
    rw [dif_pos (by omega), if_pos enough, taken, withValues_congr context left]
    rfl
  · rw [dif_neg (by omega), if_neg enough]

theorem pop?_eq : context.pop? =
    match context.operands with
    | [] => none
    | top :: rest => some (top, context.withOperands rest) := by
  have depth := context.depth_eq
  have values := context.operands_append_below
  unfold pop?
  cases shape : context.operands with
  | nil =>
      rw [shape] at depth
      rw [dif_neg (by simp [depth])]
  | cons top rest =>
      rw [shape] at depth values
      have left : context.values.tail = rest ++ context.below := by rw [← values]; rfl
      have first : context.values.head? = some top := by rw [← values]; rfl
      rw [dif_pos (by simp [depth]), first, Option.map_some, withValues_congr context left]
      rfl

theorem peek?_eq (place : Nat) : context.peek? place = context.operands[place]? := by
  have depth := context.depth_eq
  unfold peek?
  by_cases owned : place < context.operands.length
  · rw [if_pos (by omega), ← context.operands_append_below, List.getElem?_append_left owned]
  · rw [if_neg (by omega), List.getElem?_eq_none (Nat.le_of_not_lt owned)]

theorem poke?_eq (place : Nat) (value : Value) : context.poke? place value =
    if place < context.operands.length then
      some (context.withOperands (context.operands.set place value))
    else none := by
  have depth := context.depth_eq
  unfold poke?
  by_cases owned : place < context.operands.length
  · have written : context.values.set place value =
        context.operands.set place value ++ context.below := by
      rw [← context.operands_append_below, List.set_append_left _ _ owned]
    rw [if_pos (by omega), if_pos owned, withValues_congr context written]
    rfl
  · rw [if_neg (by omega), if_neg owned]

section Push

variable (values : List Value)

@[simp] theorem values_push : (context.push values).values = values.reverse ++ context.values := rfl

@[simp] theorem frames_push : (context.push values).frames = context.frames := rfl

@[simp] theorem pc_push : (context.push values).pc = context.pc := rfl

theorem push_eq :
    context.push values = context.withOperands (values.reverse ++ context.operands) := by
  have pushed : values.reverse ++ context.values =
      values.reverse ++ context.operands ++ context.below := by
    rw [List.append_assoc, operands_append_below]
  exact withValues_congr context pushed _

end Push

/-! ## Frames -/

section Enter

variable (code : Sequence) (self : Value) (parent : Option Nat) (block : Option Closure)
  (arguments : List Value)

theorem base_enter : (context.enter code self parent block arguments).base = context.depth := by
  simp [base, Frame.base, enter]

/-- A frame that is entered has no operands yet. -/
@[simp] theorem operands_enter :
    (context.enter code self parent block arguments).operands = [] := by
  have depth : (context.enter code self parent block arguments).depth = context.depth := rfl
  rw [operands, depth, base_enter, Nat.sub_self, List.take_zero]

/-- All that there was on the stack belongs to the callers of the frame that is entered. -/
@[simp] theorem below_enter :
    (context.enter code self parent block arguments).below = context.values := by
  have depth : (context.enter code self parent block arguments).depth = context.depth := rfl
  rw [below, depth, base_enter, Nat.sub_self, List.drop_zero]
  rfl

end Enter

section Leave

variable {context} {frame : Nat} {left : Frame} (found : context.frames[frame]? = some left)

include found in
theorem values_leave :
    (context.leave frame).values = context.values.drop (context.depth - left.depthBelow) := by
  obtain ⟨live, rfl⟩ := Array.getElem?_eq_some_iff.mp found
  rw [leave, dif_pos live]

include found in
/-- The caller of a frame that is left goes on. -/
theorem pc_leave : (context.leave frame).pc = left.callerPc := by
  obtain ⟨live, rfl⟩ := Array.getElem?_eq_some_iff.mp found
  rw [leave, dif_pos live]

theorem leave_of_le (beyond : context.frames.size ≤ frame) : context.leave frame = context := by
  rw [leave, dif_neg (Nat.not_lt_of_le beyond)]

variable (context frame)

/-- Only the frames below it outlast a frame that is left. -/
@[simp] theorem frames_leave : (context.leave frame).frames = context.frames.take frame := by
  by_cases live : frame < context.frames.size
  · rw [leave, dif_pos live]
  · rw [leave_of_le (Nat.le_of_not_lt live), Array.take_eq_extract,
      Array.extract_eq_self_of_le (Nat.le_of_not_lt live)]

theorem size_leave : (context.leave frame).frames.size = min frame context.frames.size := by
  rw [frames_leave, Array.take_eq_extract, Array.size_extract, Nat.sub_zero]

@[simp] theorem globals_leave : (context.leave frame).globals = context.globals := by
  unfold leave
  split <;> rfl

@[simp] theorem methods_leave : (context.leave frame).methods = context.methods := by
  unfold leave
  split <;> rfl

end Leave

end Context

namespace Machine

variable {σ τ : Type} (machine : Machine σ τ) (operands : List Value)

def withOperands : Machine σ τ :=
  { machine with context := machine.context.withOperands operands }

@[simp] theorem context_withOperands :
    (machine.withOperands operands).context = machine.context.withOperands operands := rfl

@[simp] theorem withOperands_withOperands (operands' : List Value) :
    (machine.withOperands operands).withOperands operands' = machine.withOperands operands' := by
  simp [withOperands]

@[simp] theorem withOperands_self : machine.withOperands machine.context.operands = machine := by
  simp [withOperands]

end Machine

namespace Execution

variable {σ τ : Type} (machine : Machine σ τ)

/-- Taking operands fails exactly if the frame owns too few of them. -/
theorem popMany_eq (count : Nat) :
    popMany count machine =
      if count ≤ machine.context.operands.length then
        .ok (machine.context.operands.take count).reverse
          (machine.withOperands (machine.context.operands.drop count))
      else .error (.raise .stackUnderflow) machine := by
  simp only [popMany, onStack, Context.popMany?_eq]
  by_cases enough : count ≤ machine.context.operands.length
  · rw [if_pos enough, if_pos enough]
    rfl
  · rw [if_neg enough, if_neg enough]

theorem pop_eq : pop machine =
    match machine.context.operands with
    | [] => .error (.raise .stackUnderflow) machine
    | top :: rest => .ok top (machine.withOperands rest) := by
  simp only [pop, onStack, Context.pop?_eq]
  cases machine.context.operands <;> rfl

theorem peek_eq (place : Nat) : peek place machine =
    match machine.context.operands[place]? with
    | some value => .ok value machine
    | none => .error (.raise .stackUnderflow) machine := by
  simp only [peek, onStack, Context.peek?_eq]
  cases machine.context.operands[place]? <;> rfl

theorem poke_eq (place : Nat) (value : Value) : poke place value machine =
    if place < machine.context.operands.length then
      .ok () (machine.withOperands (machine.context.operands.set place value))
    else .error (.raise .stackUnderflow) machine := by
  simp only [poke, onStack, Context.poke?_eq]
  by_cases owned : place < machine.context.operands.length
  · rw [if_pos owned, if_pos owned]
    rfl
  · rw [if_neg owned, if_neg owned]
    rfl

theorem push_eq (values : List Value) : push values machine =
    .ok () (machine.withOperands (values.reverse ++ machine.context.operands)) := by
  change EStateM.Result.ok () { machine with context := machine.context.push values } = _
  rw [Context.push_eq]
  rfl

end Execution

end StackCode
