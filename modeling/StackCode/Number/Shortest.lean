import StackCode.Number.Binary64

/-!
# The shortest decimal of a float

Every real number close enough to a float reads back as that float.  Among the
decimals in that interval the shortest is taken, and of two equally short ones
the nearer; a tie goes to the larger.
-/

namespace StackCode.Number

/-- A decimal `digits * 10 ^ exponent`. -/
structure Decimal where
  digits : Nat
  exponent : Int
  deriving DecidableEq

/--
The reals that read back as one float, each a multiple of `unit / scale`: the
value and the two ends of the interval, and whether the ends belong to it.
-/
structure Interval where
  low : Nat
  value : Nat
  high : Nat
  scale : Nat
  closed : Bool

/--
The interval of the magnitude `mantissa * 2 ^ exponent`, in quarters of the
distance to the next float.  Below a power of two the floats lie twice as
dense.
-/
def Interval.around (mantissa : Nat) (exponent : Int) : Interval :=
  let below := if mantissa = Nat.pow 2 52 ∧ Binary64.leastExponent < exponent then 1 else 2
  let factor := Nat.pow 2 (exponent - 2).toNat
  { low := (4 * mantissa - below) * factor
    value := 4 * mantissa * factor
    high := (4 * mantissa + 2) * factor
    scale := Nat.pow 2 (2 - exponent).toNat
    closed := mantissa % 2 = 0 }

def Interval.holds (interval : Interval) (decimal : Decimal) : Bool :=
  let point := decimal.digits * Nat.pow 10 decimal.exponent.toNat * interval.scale
  let shrink := Nat.pow 10 (-decimal.exponent).toNat
  if interval.closed then
    interval.low * shrink ≤ point && point ≤ interval.high * shrink
  else
    interval.low * shrink < point && point < interval.high * shrink

/-- The exponent of the first decimal digit of the value. -/
def Interval.magnitude (interval : Interval) : Int :=
  let digits := Nat.toDigits 10 (interval.value * Nat.pow 10 400 / interval.scale)
  (digits.length : Int) - 401

/-- The nearer of the value's two neighbours among the multiples of `10 ^ exponent`. -/
def Interval.nearest? (interval : Interval) (exponent : Int) : Option Decimal :=
  let numerator := interval.value * Nat.pow 10 (-exponent).toNat
  let denominator := interval.scale * Nat.pow 10 exponent.toNat
  let lower : Decimal := ⟨numerator / denominator, exponent⟩
  let upper : Decimal := ⟨numerator / denominator + 1, exponent⟩
  let upperIsNearer := denominator ≤ 2 * (numerator % denominator)
  match interval.holds lower, interval.holds upper with
  | true, true => some (if upperIsNearer then upper else lower)
  | true, false => some lower
  | false, true => some upper
  | false, false => none

/-- The first grid with a decimal in the interval, from coarse to fine. -/
def Interval.search (interval : Interval) : Nat → Int → Decimal
  | 0, exponent =>
      let numerator := interval.value * Nat.pow 10 (-exponent).toNat
      ⟨numerator / (interval.scale * Nat.pow 10 exponent.toNat), exponent⟩
  | grids + 1, exponent =>
      match interval.nearest? exponent with
      | some decimal => decimal
      | none => interval.search grids (exponent - 1)

/-- The shortest decimal that reads back as `mantissa * 2 ^ exponent`. -/
def shortest (mantissa : Nat) (exponent : Int) : Decimal :=
  let interval := Interval.around mantissa exponent
  interval.search 17 interval.magnitude

/-- The decimal written without an exponent, with no point after a whole number. -/
def Decimal.positional (decimal : Decimal) : String :=
  let digits := Nat.toDigits 10 decimal.digits
  if 0 ≤ decimal.exponent then
    String.ofList (digits ++ List.replicate decimal.exponent.toNat '0')
  else
    let places := (-decimal.exponent).toNat
    let padded := List.replicate (places + 1 - digits.length) '0' ++ digits
    let fraction := (padded.drop (padded.length - places)).reverse.dropWhile (· = '0')
    let whole := padded.take (padded.length - places)
    if fraction.isEmpty then String.ofList whole
    else String.ofList (whole ++ '.' :: fraction.reverse)

end StackCode.Number
