import StackCode.Instruction.Basic

/-!
# What an instruction does to the stack and to control

The catalog gives every instruction a fixed effect on the operand stack, its
part in control flow, and whether it may act on anything but its operands.
The graphs of a sequence are built from these facts alone.

The effect on the stack is worked out in the 32 bits of the operands of the
instruction, so a sum that does not fit there starts again from zero.
-/

namespace StackCode.Instruction

/-- The number of operands an instruction takes off the stack, counted in 32 bits. -/
def readCount : Instruction → UInt32
  | .nop | .putNil | .putSelf | .putObject _ | .putZero | .putOne | .putString _
  | .putSpecialObject _ | .dupArray _ | .dupHash _ | .frozenString .. | .sharedString ..
  | .getLocal .. | .getOwnLocal .. | .getOuterLocal .. | .getGlobal _ | .jump _
  | .defineMethod .. | .getInlineCache .. => 0
  | .pop | .dup | .splatArray _ | .intern | .objectToString _ | .expandArray ..
  | .setLocal .. | .setOwnLocal .. | .setOuterLocal .. | .setGlobal _ | .branchIf _
  | .branchUnless _ | .branchNil _ | .caseDispatch .. | .leave | .elementWith ..
  | .defined .. | .setInlineCache _ => 1
  | .swap | .newRange _ | .concatArray | .anyToString | .getConstant _ | .notEqual ..
  | .setElementWith .. => 2
  | .dupN count | .adjustStack count | .newArray count | .concatStrings count
  | .newArrayMin count | .newArrayMax count | .toRegexp _ count => count
  | .topN depth | .setN depth => depth + 1
  | .newHash pairs => pairs * 2
  | .send call _ | .sendWithoutBlock call => call.argumentCount + 1
  | .invokeBlock call => call.argumentCount
  | .operate operation _ => operation.argumentCount + 1

def reads (instruction : Instruction) : Nat :=
  instruction.readCount.toNat

def writeCount : Instruction → UInt32
  | .nop | .pop | .adjustStack _ | .setLocal .. | .setOwnLocal .. | .setOuterLocal ..
  | .setGlobal _ | .jump _ | .branchIf _ | .branchUnless _ | .branchNil _
  | .caseDispatch .. | .leave | .defineMethod .. => 0
  | .dup | .swap => 2
  | .dupN count => count * 2
  | .topN depth => depth + 2
  | .setN depth => depth + 1
  | .expandArray size _ => size
  | _ => 1

def writes (instruction : Instruction) : Nat :=
  instruction.writeCount.toNat

def branches : Instruction → Bool
  | .jump _ | .branchIf _ | .branchUnless _ | .branchNil _ | .caseDispatch .. => true
  | _ => false

/-- A branch that may also go on with the next instruction. -/
def fallsThrough : Instruction → Bool
  | .branchIf _ | .branchUnless _ | .branchNil _ => true
  | _ => false

def leaves : Instruction → Bool
  | .leave => true
  | _ => false

/-- Control may go on with the next instruction. -/
def continues (instruction : Instruction) : Bool :=
  !instruction.branches && !instruction.leaves || instruction.fallsThrough

/--
The instruction is more than a rearrangement of its operands.  All others are
ordered by the values they consume and nothing else.
-/
def hasSideEffects : Instruction → Bool
  | .nop | .pop | .dup | .dupN _ | .swap | .topN _ | .setN _ | .adjustStack _ | .putNil
  | .putSelf | .putObject _ | .putZero | .putOne | .putString _ | .putSpecialObject _
  | .newArray _ | .dupArray _ | .newHash _ | .dupHash _ | .newRange _ | .concatArray
  | .splatArray _ | .concatStrings _ | .toRegexp .. | .intern | .anyToString | .expandArray ..
  | .frozenString .. | .sharedString .. | .defined .. | .getInlineCache ..
  | .setInlineCache _ => false
  | _ => true

/-- The labels control may pass to, each once, in the order they are tried. -/
def branchLabels : Instruction → List Label
  | .jump label | .branchIf label | .branchUnless label | .branchNil label => [label]
  | .caseDispatch cases otherwise => (cases.map Prod.snd ++ [otherwise]).eraseDups
  | _ => []

def labels : Instruction → List Label
  | .getInlineCache label _ => [label]
  | instruction => instruction.branchLabels

def callSite? : Instruction → Option CallSite
  | .send call _ | .sendWithoutBlock call | .invokeBlock call | .objectToString call
  | .operate _ call | .elementWith _ call | .setElementWith _ call | .frozenString _ call
  | .sharedString _ call => some call
  | .notEqual _ call => some call
  | _ => none

def body? : Instruction → Option Sequence
  | .send _ block => block
  | .defineMethod _ body => some body
  | _ => none

/-- The slot and the number of scopes up, for an instruction on a local. -/
def localSlot? : Instruction → Option (Nat × Nat)
  | .getLocal _ slot level | .setLocal _ slot level => some (slot, level)
  | .getOwnLocal _ slot | .setOwnLocal _ slot => some (slot, 0)
  | .getOuterLocal _ slot | .setOuterLocal _ slot => some (slot, 1)
  | _ => none

theorem branchLabels_eq_nil {instruction : Instruction}
    (straight : instruction.branches = false) : instruction.branchLabels = [] := by
  cases instruction <;> simp_all [branches, branchLabels]

theorem branches_eq_false {instruction : Instruction}
    (pure : instruction.hasSideEffects = false) : instruction.branches = false := by
  cases instruction <;> simp_all [branches, hasSideEffects]

end StackCode.Instruction
