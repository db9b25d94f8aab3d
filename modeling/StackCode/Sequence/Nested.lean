import StackCode.Sequence.Basic

/-!
# Sequences inside sequences

`preorder` lists a sequence and all sequences nested in it by recursion.
`all` makes the same list with a stack of the sequences still to be opened.
-/

namespace StackCode.Sequence

mutual

/-- A sequence followed by everything inside it, outer sequences first. -/
def preorder : Sequence → List Sequence
  | ⟨name, kind, code, labels, locals, parameters, handlers⟩ =>
      ⟨name, kind, code, labels, locals, parameters, handlers⟩ ::
        (preorderCode code ++ preorderHandlers handlers)

def preorderCode : Array Instruction → List Sequence
  | ⟨instructions⟩ => preorderInstructions instructions

def preorderInstructions : List Instruction → List Sequence
  | [] => []
  | first :: rest => preorderInstruction first ++ preorderInstructions rest

def preorderInstruction : Instruction → List Sequence
  | .send _ block => preorderBody block
  | .defineMethod _ body => preorder body
  | _ => []

def preorderHandlers : List Handler → List Sequence
  | [] => []
  | first :: rest => preorderHandler first ++ preorderHandlers rest

def preorderHandler : Handler → List Sequence
  | ⟨_, body, _, _, _⟩ => preorderBody body

def preorderBody : Option Sequence → List Sequence
  | none => []
  | some body => preorder body

end

theorem preorderBody_eq (body : Option Sequence) :
    preorderBody body = body.toList.flatMap preorder := by
  cases body <;> simp [preorderBody]

theorem preorderInstruction_eq (instruction : Instruction) :
    preorderInstruction instruction = instruction.body?.toList.flatMap preorder := by
  cases instruction <;> simp [preorderInstruction, Instruction.body?, preorderBody_eq]

theorem preorderInstructions_eq (instructions : List Instruction) :
    preorderInstructions instructions =
      (instructions.filterMap Instruction.body?).flatMap preorder := by
  induction instructions with
  | nil => simp [preorderInstructions]
  | cons first rest ih =>
      rw [preorderInstructions, preorderInstruction_eq, ih]
      cases body : first.body? <;> simp [body]

theorem preorderHandlers_eq (handlers : List Handler) :
    preorderHandlers handlers = (handlers.filterMap Handler.body).flatMap preorder := by
  induction handlers with
  | nil => simp [preorderHandlers]
  | cons first rest ih =>
      rw [preorderHandlers, ih]
      obtain ⟨kind, body, start, stop, exit⟩ := first
      cases body <;> simp [preorderHandler, preorderBody]

/-- The nested sequences are those of the children, in the order of the children. -/
theorem preorder_eq (sequence : Sequence) :
    sequence.preorder = sequence :: sequence.children.flatMap preorder := by
  obtain ⟨name, kind, ⟨instructions⟩, labels, locals, parameters, handlers⟩ := sequence
  simp [preorder, preorderCode, children, preorderInstructions_eq, preorderHandlers_eq]

/-- The sequences on a stack and all inside them; the top of the stack comes first. -/
def opened : List Sequence → List Sequence
  | [] => []
  | top :: below => top :: opened (top.children ++ below)
termination_by stack => (stack.flatMap preorder).length
decreasing_by
  rw [List.flatMap_append, List.flatMap_cons, preorder_eq top]
  simp

theorem opened_eq (stack : List Sequence) : opened stack = stack.flatMap preorder := by
  induction stack using opened.induct with
  | case1 => simp [opened]
  | case2 top below ih =>
      rw [opened, ih, List.flatMap_append, List.flatMap_cons, preorder_eq top]
      simp

/-- This sequence followed by every nested one. -/
def all (sequence : Sequence) : List Sequence :=
  opened [sequence]

theorem all_eq_preorder (sequence : Sequence) : sequence.all = sequence.preorder := by
  simp [all, opened_eq]

end StackCode.Sequence
