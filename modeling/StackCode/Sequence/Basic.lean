import StackCode.Instruction.Effect

/-!
# Looking into a sequence

The instruction at an index, the index of a label, the branch targets of an
instruction, and the sequences directly inside a sequence.
-/

namespace StackCode.Sequence

def length (sequence : Sequence) : Nat :=
  sequence.code.size

def isEmpty (sequence : Sequence) : Bool :=
  sequence.code.isEmpty

def instruction? (sequence : Sequence) (index : Nat) : Option Instruction :=
  sequence.code[index]?

def labelTarget? (sequence : Sequence) (label : Label) : Option Nat :=
  sequence.labels[label]?.join

/-- The indices control may jump to from the instruction at an index. -/
def branchTargets (sequence : Sequence) (index : Nat) : List Nat :=
  match sequence.instruction? index with
  | some instruction => instruction.branchLabels.filterMap sequence.labelTarget?
  | none => []

/-- The sequences directly inside: bodies in instruction order, then handler bodies. -/
def children (sequence : Sequence) : List Sequence :=
  sequence.code.toList.filterMap Instruction.body? ++ sequence.handlers.filterMap Handler.body

end StackCode.Sequence
