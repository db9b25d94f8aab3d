import StackCode.Machine.Error
import StackCode.Number.Remainder

/-!
# Arithmetic of the object model

Integers have 64 bits.  Sums, differences, products and quotients are exact or
refused.  Division rounds down, and the remainder has the sign of the divisor;
it is refused whenever the quotient is.  A shift drops the bits that leave the
word and only refuses a distance outside the word.
-/

namespace StackCode.ObjectModel

def overflow : HostError := .raised "integer overflow"

def dividedByZero : HostError := .raised "divided by 0"

/-- The whole numbers that an integer holds. -/
def Fits (exact : Int) : Prop :=
  Int64.minValue.toInt ≤ exact ∧ exact ≤ Int64.maxValue.toInt

instance (exact : Int) : Decidable (Fits exact) := by
  unfold Fits
  infer_instance

def exactInteger (exact : Int) : Except HostError Int64 :=
  if Fits exact then .ok (Int64.ofInt exact) else .error overflow

/-- The quotient cut toward zero. -/
def truncatedQuotient (dividend divisor : Int64) : Except HostError Int64 :=
  exactInteger (dividend.toInt.tdiv divisor.toInt)

/-- One of the two integers is negative and the other is not. -/
def oppose (first second : Int64) : Bool :=
  decide (first < 0) != decide (second < 0)

/-- The quotient, rounded down: one less if it is negative and something was cut off. -/
def quotient (dividend divisor : Int64) : Except HostError Int64 :=
  if divisor = 0 then .error dividedByZero
  else do
    let truncated ← truncatedQuotient dividend divisor
    return if dividend % divisor ≠ 0 ∧ oppose dividend divisor then truncated - 1 else truncated

/-- The remainder of the division that rounds down, on the same side of zero as the divisor. -/
def remainder (dividend divisor : Int64) : Except HostError Int64 :=
  if divisor = 0 then .error dividedByZero
  else do
    let _ ← truncatedQuotient dividend divisor
    let rest := dividend % divisor
    return if rest ≠ 0 ∧ oppose rest divisor then rest + divisor else rest

/-- The bits moved up by a distance smaller than the word. -/
def shiftLeft (number distance : Int64) : Except HostError Int64 :=
  if 0 ≤ distance ∧ distance < 64 then .ok (number <<< distance) else .error overflow

def integerMethod? (first second : Int64) : String → Option (Except HostError Int64)
  | "+" => some (exactInteger (first.toInt + second.toInt))
  | "-" => some (exactInteger (first.toInt - second.toInt))
  | "*" => some (exactInteger (first.toInt * second.toInt))
  | "/" => some (quotient first second)
  | "%" => some (remainder first second)
  | "<<" => some (shiftLeft first second)
  | "&" => some (.ok (first &&& second))
  | "|" => some (.ok (first ||| second))
  | _ => none

def floatMethod? (first second : Float) : String → Option Float
  | "+" => some (first + second)
  | "-" => some (first - second)
  | "*" => some (first * second)
  | "/" => some (first / second)
  | "%" => some (Number.euclideanRemainder first second)
  | _ => none

/-- The float that a number stands for in arithmetic with floats. -/
def toFloat? : Value → Option Float
  | .integer number => some number.toFloat
  | .float number => some number
  | _ => none

def wantsNumber (method : String) : Bool :=
  ["+", "-", "*", "/", "%", "<", "<=", ">", ">="].contains method

/-- The class that the arguments of a number's methods should have. -/
def numericClass : Value → String
  | .float _ => "Float"
  | _ => "Integer"

end StackCode.ObjectModel
