/-!
# Binary floating-point numbers, taken apart

A 64-bit float is not a number, an infinity, or a signed magnitude that is a
whole multiple of a power of two.  The last form carries the text and the
remainder of a float into exact integer arithmetic.
-/

namespace StackCode

/-- A float by its meaning: the magnitude of a finite one is `mantissa * 2 ^ exponent`. -/
inductive Binary64 where
  | nan
  | infinite (negative : Bool)
  | finite (negative : Bool) (mantissa : Nat) (exponent : Int)
  deriving DecidableEq

namespace Binary64

/-- The exponent of the smallest positive magnitude. -/
def leastExponent : Int := -1074

def ofFloat (x : Float) : Binary64 :=
  let bits := x.toBits.toNat
  let negative := bits / Nat.pow 2 63 % 2 == 1
  let biased := bits / Nat.pow 2 52 % Nat.pow 2 11
  let fraction := bits % Nat.pow 2 52
  if biased = Nat.pow 2 11 - 1 then
    if fraction = 0 then .infinite negative else .nan
  else if biased = 0 then
    .finite negative fraction leastExponent
  else
    .finite negative (Nat.pow 2 52 + fraction) (leastExponent + (biased - 1 : Nat))

/--
The bits of a magnitude `mantissa * 2 ^ exponent` that a float can hold
exactly, the sign bit left out.
-/
def magnitudeBits (mantissa : Nat) (exponent : Int) : Nat :=
  if mantissa = 0 then 0
  else
    let top := mantissa.log2
    let scale : Int := top + exponent
    if scale < -1022 then
      mantissa <<< (exponent - leastExponent).toNat
    else
      let leading := if top ≤ 52 then mantissa <<< (52 - top) else mantissa >>> (top - 52)
      (scale + 1023).toNat * Nat.pow 2 52 + (leading - Nat.pow 2 52)

/-- The float of a sign and a magnitude that a float can hold exactly. -/
def exactFloat (negative : Bool) (mantissa : Nat) (exponent : Int) : Float :=
  let sign := if negative then Nat.pow 2 63 else 0
  Float.ofBits (UInt64.ofNat (sign + magnitudeBits mantissa exponent))

end Binary64

end StackCode
