import StackCode.Assembly.Step
import StackCode.Instruction.Forms

/-!
# Sample programs

Small programs in the form in which a compiler lays them out.  Each comment
gives the program in words.
-/

namespace StackCode.Samples

open Instruction (number usual literal)

def sum (first second : Int64) : Except BuildError Sequence :=
  Assembly.top.assemble
    [.emit (number first), .emit (number second), .emit (usual .plus), .emit .leave]

/-- A choice between `-1` and `1`, to which `100` is added after the arms join. -/
def choiceThenAdd : Except BuildError Sequence :=
  Assembly.top.assemble
    [.newLabel, .newLabel,
     .emit (number 14), .emit (number 0), .emit (usual .less), .emit (.branchUnless 0),
     .emit (number (-1)), .emit (.jump 1),
     .bind 0, .emit (number 1),
     .bind 1, .emit (number 100), .emit (usual .plus), .emit .leave]

/-- The same sum with `100` pushed before the choice, so that both arms carry it through. -/
def addThenChoice : Except BuildError Sequence :=
  Assembly.top.assemble
    [.newLabel, .newLabel,
     .emit (number 100), .emit (number 14), .emit (number 0), .emit (usual .less),
     .emit (.branchUnless 0),
     .emit (number (-1)), .emit (.jump 1),
     .bind 0, .emit (number 1),
     .bind 1, .emit (usual .plus), .emit .leave]

/-- A loop that adds up the numbers from `count` down to one. -/
def countdown (count : Int64) : Except BuildError Sequence :=
  Assembly.top.assemble
    [.declare "n", .declare "sum", .newLabel, .newLabel,
     .emit (number count), .writeLocal 0, .emit (number 0), .writeLocal 1, .emit (.jump 0),
     .bind 1, .readLocal 1, .readLocal 0, .emit (usual .plus), .writeLocal 1,
     .readLocal 0, .emit (number 1), .emit (usual .minus), .writeLocal 0,
     .bind 0, .readLocal 0, .emit (number 0), .emit (usual .greater), .emit (.branchIf 1),
     .readLocal 1, .emit .leave]

def recursiveCall (distance : Int64) : List AssemblyStep :=
  [.emit .putSelf, .readLocal 0, .emit (number distance), .emit (usual .minus),
   .emit (.sendWithoutBlock (.ofSelf "fib" 1))]

def fibonacciMethod : Except BuildError Sequence :=
  (Assembly.method "fib" ["n"]).assemble <|
    [.newLabel, .readLocal 0, .emit (number 2), .emit (usual .less), .emit (.branchUnless 0),
     .readLocal 0, .emit .leave, .bind 0] ++
    recursiveCall 1 ++ recursiveCall 2 ++ [.emit (usual .plus), .emit .leave]

def fibonacci (argument : Int64) : Except BuildError Sequence := do
  let body ← fibonacciMethod
  Assembly.top.assemble
    [.emit (.defineMethod "fib" body), .emit .putSelf, .emit (number argument),
     .emit (.sendWithoutBlock (.ofSelf "fib" 1)), .emit .leave]

/-- A block body that adds its argument to the first local of the scope around it. -/
def addToOuter : Except BuildError Sequence :=
  (Assembly.block "block in <compiled>" ["x"]).assemble
    [.emit (.getOuterLocal "sum" 0), .readLocal 0, .emit (usual .plus), .emit .dup,
     .emit (.setOuterLocal "sum" 0), .emit .leave]

def iteratedSum (items : List Int64) : Except BuildError Sequence := do
  let body ← addToOuter
  Assembly.top.assemble
    [.declare "sum", .emit (number 0), .writeLocal 0,
     .emit (.dupArray (.array (items.map .integer))),
     .emit (.send ⟨some "each", 0, .blockBody⟩ (some body)), .emit .pop,
     .readLocal 0, .emit .leave]

def yieldTwice : Except BuildError Sequence := do
  let twice ← (Assembly.method "twice" []).assemble
    [.emit (number 20), .emit (Instruction.yieldBlock 1), .emit (number 1),
     .emit (Instruction.yieldBlock 1), .emit (usual .plus), .emit .leave]
  let body ← (Assembly.block "block in <compiled>" ["x"]).assemble
    [.readLocal 0, .emit (number 1), .emit (usual .plus), .emit .leave]
  Assembly.top.assemble
    [.emit (.defineMethod "twice" twice), .emit .putSelf,
     .emit (.send ⟨some "twice", 0, .ownReceiver ||| .blockBody⟩ (some body)), .emit .leave]

def keyDispatch (key : Int64) : Except BuildError Sequence :=
  Assembly.top.assemble
    [.newLabel, .newLabel, .newLabel, .emit (number key),
     .emit (.caseDispatch [(.integer 1, 0), (.integer 2, 1)] 2),
     .bind 0, .emit (literal (.symbol "one")), .emit .leave,
     .bind 1, .emit (literal (.symbol "two")), .emit .leave,
     .bind 2, .emit (literal (.symbol "other")), .emit .leave]

def embeddedSum : Except BuildError Sequence :=
  Assembly.top.assemble
    [.emit (literal (.string "sum: ")), .emit (number 1), .emit (number 2), .emit (usual .plus),
     .emit .dup, .emit Instruction.usualToString, .emit .anyToString,
     .emit (.concatStrings 2), .emit .leave]

def unassignedLocal : Except BuildError Sequence :=
  Assembly.top.assemble [.declare "x", .readLocal 0, .emit .leave]

def guarded : Except BuildError Sequence := do
  let rescue ← (Assembly.empty "rescue in <compiled>" .block).assemble
    [.emit .putNil, .emit .leave]
  Assembly.top.assemble
    [.newLabel, .newLabel, .bind 0, .emit .putNil, .bind 1, .emit .nop, .emit .leave,
     .handle ⟨.rescue, some rescue, 0, 1, 1⟩]

/-- The samples that have graphs, by name. -/
def catalog : Except BuildError (List (String × Sequence)) := do
  return [
    ("add", ← sum 2 3),
    ("ternary_plus", ← choiceThenAdd),
    ("indirect_ternary", ← addThenChoice),
    ("while_sum", ← countdown 10),
    ("fib", ← fibonacci 10),
    ("each_sum", ← iteratedSum [1, 2, 3]),
    ("yield_twice", ← yieldTwice),
    ("case_dispatch", ← keyDispatch 2),
    ("interpolation", ← embeddedSum)]

end StackCode.Samples
