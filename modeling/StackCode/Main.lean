import StackCode.CommandLine

/-!
# The program
-/

def main (arguments : List String) : IO UInt32 := do
  let answer := StackCode.CommandLine.respond arguments
  IO.print answer.text
  return answer.status.toUInt32
