import StackCode.Assembly.Basic
import StackCode.Sequence.Basic

/-!
# From an assembly to a sequence

An assembly becomes a sequence once every label that is mentioned is bound,
every jump lands on an instruction, and every local of the current scope has a
slot.  The first violation in code order is reported; handlers come last.
-/

namespace StackCode.Assembly

def target (assembly : Assembly) (label : Label) : Except BuildError Nat :=
  match assembly.labels[label]?.join with
  | some index => .ok index
  | none => .error (.unboundLabel label)

/-- A label of an instruction is bound, and to an instruction if it is a jump target. -/
def checkLabel (assembly : Assembly) (branches : Bool) (label : Label) :
    Except BuildError Unit := do
  let index ← assembly.target label
  if branches && assembly.position ≤ index then
    throw (.labelOutOfRange label index)

def checkLocal (assembly : Assembly) (index : Nat) (instruction : Instruction) :
    Except BuildError Unit :=
  match instruction.localSlot? with
  | some (slot, 0) =>
      if slot < assembly.locals.length then .ok ()
      else .error (.localOutOfRange index slot assembly.locals.length)
  | _ => .ok ()

def checkInstruction (assembly : Assembly) (index : Nat) (instruction : Instruction) :
    Except BuildError Unit := do
  instruction.labels.forM (assembly.checkLabel instruction.branches)
  assembly.checkLocal index instruction

def checkHandler (assembly : Assembly) (handler : Handler) : Except BuildError Unit := do
  for label in [handler.first, handler.last, handler.exit] do
    let _ ← assembly.target label

def build (assembly : Assembly) : Except BuildError Sequence := do
  assembly.code.toList.zipIdx.forM fun (instruction, index) =>
    assembly.checkInstruction index instruction
  assembly.handlers.forM assembly.checkHandler
  return {
    name := assembly.name
    kind := assembly.kind
    code := assembly.code
    labels := assembly.labels
    locals := assembly.locals
    parameters := assembly.parameters
    handlers := assembly.handlers }

end StackCode.Assembly
