import StackCode.Assembly.Build

/-!
# Assembling step by step

The steps of an assembly as data.  Only binding a label can fail; a failed
step leaves the assembly as it was.
-/

namespace StackCode

inductive AssemblyStep where
  | newLabel
  | declare (name : String)
  | bind (label : Label)
  | setParameters (parameters : Parameters)
  | emit (instruction : Instruction)
  /-- Emit a read of a local of this sequence, under its declared name. -/
  | readLocal (slot : Nat)
  | writeLocal (slot : Nat)
  | handle (handler : Handler)

namespace Assembly

def apply (assembly : Assembly) : AssemblyStep → Except BuildError Assembly
  | .newLabel => .ok assembly.newLabel
  | .declare name => .ok (assembly.declare name)
  | .bind label => assembly.bind label
  | .setParameters parameters => .ok { assembly with parameters }
  | .emit instruction => .ok (assembly.emit instruction)
  | .readLocal slot => .ok (assembly.emit (.getOwnLocal (assembly.slotName slot) slot))
  | .writeLocal slot => .ok (assembly.emit (.setOwnLocal (assembly.slotName slot) slot))
  | .handle handler => .ok (assembly.handle handler)

/-- The assembly after all steps, where failed steps have no effect. -/
def applyAll (assembly : Assembly) (steps : List AssemblyStep) : Assembly :=
  steps.foldl (fun current step => (current.apply step).toOption.getD current) assembly

/-- The sequence that the steps make of an assembly; the first failure ends the work. -/
def assemble (assembly : Assembly) (steps : List AssemblyStep) : Except BuildError Sequence := do
  (← steps.foldlM apply assembly).build

end Assembly

end StackCode
