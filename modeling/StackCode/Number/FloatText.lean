import StackCode.Number.Shortest

/-!
# The text of a float

Whole floats of the integer range keep one decimal place, so that they never
read as integers.  All other finite floats are written with the fewest digits
that read back, and never with an exponent.
-/

namespace StackCode.Number

/-- The whole number `mantissa * 2 ^ exponent`, if it is one. -/
def whole? (mantissa : Nat) (exponent : Int) : Option Nat :=
  let places := Nat.pow 2 (-exponent).toNat
  if mantissa % places = 0 then
    some (mantissa / places * Nat.pow 2 exponent.toNat)
  else
    none

/-- The text of a magnitude: a whole one up to `2 ^ 63` has one decimal place. -/
def magnitudeText (mantissa : Nat) (exponent : Int) : String :=
  match whole? mantissa exponent with
  | some number =>
      if number ≤ Nat.pow 2 63 then toString number ++ ".0"
      else (shortest mantissa exponent).positional
  | none => (shortest mantissa exponent).positional

def floatText (x : Float) : String :=
  match Binary64.ofFloat x with
  | .nan => "NaN"
  | .infinite negative => if negative then "-inf" else "inf"
  | .finite negative mantissa exponent =>
      let sign := if negative then "-" else ""
      sign ++ magnitudeText mantissa exponent

end StackCode.Number
