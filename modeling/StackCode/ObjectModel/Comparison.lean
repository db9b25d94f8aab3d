import StackCode.ObjectModel.Arithmetic
import StackCode.Value.Inspect

/-!
# Comparisons and methods of every object

Integers are compared exactly, strings by their code points, and other pairs
of numbers as floats.  Nothing else can be compared; a float that is not a
number has no place in the order.
-/

namespace StackCode.ObjectModel

def compareFloats? (first second : Float) : Option Ordering :=
  if first < second then some .lt
  else if first == second then some .eq
  else if second < first then some .gt
  else none

def compare? : Value → Value → Option Ordering
  | .integer first, .integer second => some (compare first.toInt second.toInt)
  | .string first, .string second => some (compare first second)
  | first, second => do compareFloats? (← toFloat? first) (← toFloat? second)

/-- The refusal of a method that the receiver does not have. -/
def unknown (receiver : Value) (method : String) : HostError :=
  .unknownMethod receiver.className method

def commonMethod (receiver : Value) (method : String) (arguments : List Value) :
    Except HostError Value :=
  match method, arguments with
  | "!", [] => .ok (.bool !receiver.isTruthy)
  | "nil?", [] => .ok (.bool receiver.isNil)
  | "to_s", [] => .ok (.string receiver.text)
  | "inspect", [] => .ok (.string receiver.inspect)
  | _, _ => .error (unknown receiver method)

def ordered (receiver other : Value) (question : Ordering → Bool) : Except HostError Value :=
  match compare? receiver other with
  | some order => .ok (.bool (question order))
  | none =>
      .error (.raised ("comparison of " ++ receiver.className ++ " with " ++ other.className ++
        " failed"))

/-- The comparisons, and else the methods that every object has. -/
def comparison (receiver : Value) (method : String) (arguments : List Value) :
    Except HostError Value :=
  match method, arguments with
  | "==", [other] => .ok (.bool (receiver == other))
  | "!=", [other] => .ok (.bool (receiver != other))
  | "<", [other] => ordered receiver other (·.isLT)
  | "<=", [other] => ordered receiver other (·.isLE)
  | ">", [other] => ordered receiver other (·.isGT)
  | ">=", [other] => ordered receiver other (·.isGE)
  | _, _ => commonMethod receiver method arguments

end StackCode.ObjectModel
