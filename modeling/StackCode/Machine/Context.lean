import StackCode.Instruction.Basic
import StackCode.Table

/-!
# Contexts

A context is what a run works on: the operand stack, the frames, the globals, the
methods that the program defined, and the index of the next instruction.

There is one operand stack for all frames.  A frame knows how deep the stack was
when it was entered; what lies above that base are its own operands, and it may
take nothing from below.  When a frame is left the stack is cut back to its base.
-/

namespace StackCode

/-- A block with the receiver and the frame it was made in. -/
structure Closure where
  body : Sequence
  self : Value
  parent : Nat

structure Frame where
  code : Sequence
  self : Value
  /-- The slots; one that was never assigned holds nothing. -/
  locals : Array (Option Value)
  /-- The frame around a block's frame. -/
  parent : Option Nat
  block : Option Closure
  /-- The caller's next instruction. -/
  callerPc : Nat
  /-- The depth of the operand stack at entry. -/
  depthBelow : Nat

namespace Frame

/-- The slots at entry: the arguments in order, as far as there are slots. -/
def initialLocals (slots : Nat) (arguments : List Value) : Array (Option Value) :=
  ((arguments.map some ++ List.replicate slots none).take slots).toArray

theorem size_initialLocals (slots : Nat) (arguments : List Value) :
    (initialLocals slots arguments).size = slots := by
  simp [initialLocals]

/-- Where the operands of the innermost frame begin. -/
def base (frames : Array Frame) : Nat :=
  (frames.back?.map depthBelow).getD 0

/-- No frame was entered on a stack less deep than its callers were, or than it is now. -/
def Layered (frames : Array Frame) (depth : Nat) : Prop :=
  (frames.toList.map depthBelow ++ [depth]).Pairwise (· ≤ ·)

namespace Layered

variable {frames : Array Frame} {depth : Nat}

theorem empty (depth : Nat) : Layered #[] depth := by
  simp [Layered]

/-- The depths of entry grow inwards, and none is past the depth. -/
theorem iff_pairwise : Layered frames depth ↔
    (frames.toList.map depthBelow).Pairwise (· ≤ ·) ∧
      ∀ frame ∈ frames, frame.depthBelow ≤ depth := by
  simp [Layered, List.pairwise_append]

theorem base_le (layered : Layered frames depth) : base frames ≤ depth := by
  unfold base
  cases last : frames.back? with
  | none => exact Nat.zero_le depth
  | some frame => exact (iff_pairwise.mp layered).2 frame (Array.mem_of_back? last)

/-- The depth may be any that is not below the base. -/
theorem withDepth (layered : Layered frames depth) {depth' : Nat} (above : base frames ≤ depth') :
    Layered frames depth' := by
  refine iff_pairwise.mpr ⟨(iff_pairwise.mp layered).1, fun frame live => Nat.le_trans ?_ above⟩
  obtain ⟨rest, last, rfl⟩ : ∃ rest last, frames = Array.push rest last :=
    Array.exists_push_of_size_pos (Array.size_pos_of_mem live)
  have grown := (iff_pairwise.mp layered).1
  rw [Array.toList_push, List.map_append, List.pairwise_append] at grown
  rw [base, Array.back?_push]
  rcases Array.mem_push.mp live with outer | rfl
  · exact grown.2.2 _ (List.mem_map_of_mem (Array.mem_toList_iff.mpr outer)) _ (by simp)
  · exact Nat.le_refl _

/-- A frame is entered on the stack as it is. -/
theorem push (layered : Layered frames depth) {frame : Frame} (entered : frame.depthBelow = depth) :
    Layered (frames.push frame) depth := by
  have twice : (frames.push frame).toList.map depthBelow =
      frames.toList.map depthBelow ++ [depth] := by
    simp [entered]
  refine iff_pairwise.mpr ⟨twice ▸ layered, fun other live => ?_⟩
  rcases Array.mem_push.mp live with outer | rfl
  · exact (iff_pairwise.mp layered).2 other outer
  · exact Nat.le_of_eq entered

theorem modify (layered : Layered frames depth) (index : Nat) {change : Frame → Frame}
    (keeps : ∀ frame, (change frame).depthBelow = frame.depthBelow) :
    Layered (frames.modify index change) depth := by
  have same : (frames.modify index change).toList.map depthBelow =
      frames.toList.map depthBelow := by
    refine List.ext_getElem? fun place => ?_
    rw [Array.toList_modify, List.getElem?_map, List.getElem?_modify, List.getElem?_map]
    cases frames.toList[place]? <;> simp [apply_ite, keeps]
  unfold Layered at layered ⊢
  rw [same]
  exact layered

/-- A frame that is left leaves the stack no deeper than it was at entry. -/
theorem take (layered : Layered frames depth) {index : Nat} (live : index < frames.size) :
    Layered (frames.take index) (min frames[index].depthBelow depth) := by
  obtain ⟨grown, bounded⟩ := iff_pairwise.mp layered
  have kept : (frames.take index).toList = frames.toList.take index := by simp
  have split := List.take_append_drop index frames.toList
  rw [List.drop_eq_getElem_cons (Array.length_toList ▸ live)] at split
  rw [← split, List.map_append, List.pairwise_append] at grown
  refine iff_pairwise.mpr ⟨kept ▸ grown.1, fun frame outer => Nat.le_min.mpr ?_⟩
  rw [← Array.mem_toList_iff, kept] at outer
  exact ⟨grown.2.2 _ (List.mem_map_of_mem outer) _ (by simp),
    bounded frame (Array.mem_toList_iff.mp (List.mem_of_mem_take outer))⟩

end Layered

end Frame

/-- The state of a program between and during runs. -/
@[ext]
structure Context where
  /-- The operand stack, top first. -/
  values : List Value
  /-- The live frames, outermost first. -/
  frames : Array Frame
  globals : Table String Value
  methods : Table (String × String) Sequence
  /-- The index of the next instruction of the innermost frame. -/
  pc : Nat
  layered : Frame.Layered frames values.length

namespace Context

def empty : Context :=
  ⟨[], #[], .empty, .empty, 0, .empty 0⟩

instance : Inhabited Context := ⟨empty⟩

def reset (context : Context) : Context :=
  { context with values := [], frames := #[], pc := 0, layered := .empty 0 }

/-! ## The operand stack -/

/-- The operand stack, bottom first. -/
def stack (context : Context) : List Value :=
  context.values.reverse

def depth (context : Context) : Nat :=
  context.values.length

def base (context : Context) : Nat :=
  Frame.base context.frames

theorem base_le_depth (context : Context) : context.base ≤ context.depth :=
  context.layered.base_le

/-- The context with another stack, which keeps to the base. -/
def withValues (context : Context) (values : List Value) (above : context.base ≤ values.length) :
    Context :=
  { context with values, layered := context.layered.withDepth above }

def pop? (context : Context) : Option (Value × Context) :=
  if above : context.base < context.depth then
    context.values.head?.map fun top =>
      (top, context.withValues context.values.tail
        (by rw [List.length_tail]; exact Nat.le_sub_one_of_lt above))
  else
    none

/-- Take values off the stack; the deepest comes first. -/
def popMany? (context : Context) (count : Nat) : Option (List Value × Context) :=
  if above : context.base + count ≤ context.depth then
    some ((context.values.take count).reverse,
      context.withValues (context.values.drop count)
        (by rw [List.length_drop]; exact Nat.le_sub_of_add_le above))
  else
    none

/-- The value a number of places below the top. -/
def peek? (context : Context) (place : Nat) : Option Value :=
  if context.base + place + 1 ≤ context.depth then context.values[place]? else none

def poke? (context : Context) (place : Nat) (value : Value) : Option Context :=
  if context.base + place + 1 ≤ context.depth then
    some (context.withValues (context.values.set place value)
      (by rw [List.length_set]; exact context.base_le_depth))
  else
    none

/-- Put values on the stack; the last ends up on top. -/
def push (context : Context) (values : List Value) : Context :=
  context.withValues (values.reverse ++ context.values)
    (by rw [List.length_append]; exact Nat.le_add_left_of_le context.base_le_depth)

/-! ## Variables and methods -/

/-- A global that the program assigned or that was once found at the host. -/
def global? (context : Context) (name : String) : Option Value :=
  context.globals.get? name

def setGlobal (context : Context) (name : String) (value : Value) : Context :=
  { context with globals := context.globals.insert name value }

def method? (context : Context) (className name : String) : Option Sequence :=
  context.methods.get? (className, name)

/-- Define a method, in place of an earlier one of the same class and name. -/
def defineMethod (context : Context) (className name : String) (body : Sequence) : Context :=
  { context with methods := context.methods.insert (className, name) body }

/-- The frame a number of lexical levels up. -/
def enclosing? (context : Context) : Nat → Nat → Option Nat
  | frame, 0 => some frame
  | frame, level + 1 => do
      let inner ← context.frames[frame]?
      let parent ← inner.parent
      context.enclosing? parent level

/-- The value of a local, if the slot exists and was assigned. -/
def local? (context : Context) (frame slot level : Nat) : Option Value := do
  let index ← context.enclosing? frame level
  let owner ← context.frames[index]?
  (← owner.locals[slot]?)

/-- Change a frame in other things than the depth it was entered at. -/
def modifyFrame (context : Context) (index : Nat) (change : Frame → Frame)
    (keeps : ∀ frame, (change frame).depthBelow = frame.depthBelow) : Context :=
  { context with
    frames := context.frames.modify index change
    layered := context.layered.modify index keeps }

def setLocal? (context : Context) (frame slot level : Nat) (value : Value) : Option Context := do
  let index ← context.enclosing? frame level
  let owner ← context.frames[index]?
  if slot < owner.locals.size then
    some (context.modifyFrame index
      (fun frame => { frame with locals := frame.locals.set! slot (some value) }) fun _ => rfl)
  else
    none

def selfOf (context : Context) (frame : Nat) : Value :=
  (context.frames[frame]?.map Frame.self).getD .main

/-- The block that a frame was called with. -/
def blockOf? (context : Context) (frame : Nat) : Option Closure :=
  context.frames[frame]?.bind Frame.block

/-! ## Frames -/

/-- Put a frame on top, which owns nothing of the stack, at the first instruction. -/
def enter (context : Context) (code : Sequence) (self : Value) (parent : Option Nat)
    (block : Option Closure) (arguments : List Value) : Context :=
  { context with
    frames := context.frames.push {
      code, self, parent, block
      locals := Frame.initialLocals code.locals.length arguments
      callerPc := context.pc
      depthBelow := context.depth }
    layered := context.layered.push rfl }

/-- Leave a frame and all above it; the stack is cut back to where it was at entry. -/
def leave (context : Context) (frame : Nat) : Context :=
  if live : frame < context.frames.size then
    let left := context.frames[frame]
    { context with
      values := context.values.drop (context.depth - left.depthBelow)
      frames := context.frames.take frame
      pc := left.callerPc
      layered := by
        rw [List.length_drop, depth, Nat.sub_sub_eq_min, Nat.min_comm]
        exact context.layered.take live }
  else
    context

end Context

end StackCode
