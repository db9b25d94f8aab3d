import StackCode.Number.Binary64

/-!
# The remainder of two floats

The remainder of a division whose quotient is a whole number.  It is computed
on the mantissas, brought to a common power of two, so no digit is lost.
-/

namespace StackCode.Number

/--
What is left of `a` after as many whole multiples of `b` as fit between zero
and `a`.  The result has the sign of `a`.
-/
def truncatedRemainder (a b : Float) : Float :=
  match Binary64.ofFloat a, Binary64.ofFloat b with
  | .nan, _ | _, .nan | .infinite _, _ => 0.0 / 0.0
  | .finite .., .infinite _ => a
  | .finite negative mantissa exponent, .finite _ divisor divisorExponent =>
      if divisor = 0 then 0.0 / 0.0
      else
        let unit := min exponent divisorExponent
        let whole := mantissa <<< (exponent - unit).toNat
        let part := divisor <<< (divisorExponent - unit).toNat
        Binary64.exactFloat negative (whole % part) unit

/-- The remainder that is never negative. -/
def euclideanRemainder (a b : Float) : Float :=
  let remainder := truncatedRemainder a b
  if remainder < 0.0 then remainder + b.abs else remainder

end StackCode.Number
