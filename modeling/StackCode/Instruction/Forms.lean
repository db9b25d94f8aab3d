import StackCode.Instruction.Basic

/-!
# Usual forms of instructions

Instructions with the call descriptors that a compiler gives them.  The two
most frequent literals have instructions of their own.
-/

namespace StackCode.Instruction

/-- Push a literal; `0` and `1` have their own instructions. -/
def literal : Value → Instruction
  | .integer 0 => .putZero
  | .integer 1 => .putOne
  | value => .putObject value

def number (n : Int64) : Instruction :=
  literal (.integer n)

/-- The specialised instruction of an operation. -/
def usual (operation : Operation) : Instruction :=
  .operate operation operation.callSite

def usualNotEqual : Instruction :=
  .notEqual (.plain "==" 1) (.plain "!=" 1)

def usualElementWith (key : String) : Instruction :=
  .elementWith key (.plain "[]" 1)

def usualSetElementWith (key : String) : Instruction :=
  .setElementWith key (.plain "[]=" 2)

def usualToString : Instruction :=
  .objectToString (.ofSelf "to_s" 0)

def usualFrozenString (text : String) : Instruction :=
  .frozenString text (.plain "freeze" 0)

def usualSharedString (text : String) : Instruction :=
  .sharedString text (.plain "-@" 0)

def yieldBlock (argumentCount : UInt32) : Instruction :=
  .invokeBlock ⟨none, argumentCount, .plainArguments⟩

end StackCode.Instruction
