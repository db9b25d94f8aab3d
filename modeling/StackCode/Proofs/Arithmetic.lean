import Mathlib.Algebra.Ring.Int.Defs
import StackCode.ObjectModel.Host

/-!
# Integer arithmetic is exact

Integers have 64 bits, and what the methods between two of them mean is a whole
number.  Sums, differences, products and quotients are those numbers, or they are
refused because no integer holds them.  Quotient and remainder come from the
division that cuts toward zero; corrected by one divisor they are those of the
division that rounds down.

Two methods go by other rules.  A remainder is refused along with its quotient,
although it is zero then.  A shift refuses long distances only, so that it loses
bits over short ones and does not even move zero over long ones.
-/

namespace StackCode.ObjectModel

/-- The whole number that a method between two integers means, if it means one. -/
def meaning? (first second : Int) : String → Option Int
  | "+" => some (first + second)
  | "-" => some (first - second)
  | "*" => some (first * second)
  | "/" => if second = 0 then none else some (first.fdiv second)
  | "%" => if second = 0 then none else some (first.fmod second)
  | "<<" => if second < 0 then none else some (first * 2 ^ second.toNat)
  | _ => none

/-- The method refuses a number that fits, or it goes on without refusing one that does not. -/
def Misjudges (first second : Int64) : String → Prop
  | "%" => first = Int64.minValue ∧ second = -1
  | "<<" => if second < 64 then ¬ Fits (first.toInt * 2 ^ second.toInt.toNat) else first = 0
  | _ => False

/-! ## Whole numbers that fit -/

theorem fits_iff {exact : Int} : Fits exact ↔ -2 ^ 63 ≤ exact ∧ exact < 2 ^ 63 := by
  have low : Int64.minValue.toInt = -2 ^ 63 := by decide
  have high : Int64.maxValue.toInt = 2 ^ 63 - 1 := by decide
  unfold Fits
  rw [low, high]
  omega

theorem toInt_ofInt {exact : Int} (fits : Fits exact) : (Int64.ofInt exact).toInt = exact :=
  Int64.toInt_ofInt_of_le (fits_iff.mp fits).1 (fits_iff.mp fits).2

theorem toInt_eq_zero_iff {number : Int64} : number.toInt = 0 ↔ number = 0 := by
  rw [← Int64.toInt_inj]
  rfl

theorem oppose_iff {first second : Int64} :
    oppose first second = true ↔ ¬ (first.toInt < 0 ↔ second.toInt < 0) := by
  have zero : (0 : Int64).toInt = 0 := rfl
  simp [oppose, Int64.lt_iff_toInt_lt, zero]

/-! ## Division -/

/-- What is cut off has the sign of the dividend, and less than the size of the divisor. -/
theorem tmod_spec (first : Int) {second : Int} (nonzero : second ≠ 0) :
    first.tmod second + second * first.tdiv second = first ∧
      (0 ≤ first → 0 ≤ first.tmod second ∧ first.tmod second < second.natAbs) ∧
      (first ≤ 0 → -second.natAbs < first.tmod second ∧ first.tmod second ≤ 0) := by
  refine ⟨?_, fun up => ?_, fun down => ?_⟩
  · rw [Int.add_comm]
    exact Int.mul_tdiv_add_tmod first second
  · exact ((Int.tdiv_tmod_unique up nonzero).mp ⟨rfl, rfl⟩).2
  · exact ((Int.tdiv_tmod_unique' down nonzero).mp ⟨rfl, rfl⟩).2

/-- Rounding down differs from cutting toward zero by one if something negative is cut off. -/
theorem floored_eq (first : Int) {second : Int} (nonzero : second ≠ 0) :
    if first.tmod second ≠ 0 ∧ ¬ (first < 0 ↔ second < 0) then
      first.fdiv second = first.tdiv second - 1 ∧
        first.fmod second = first.tmod second + second
    else
      first.fdiv second = first.tdiv second ∧ first.fmod second = first.tmod second := by
  obtain ⟨whole, up, down⟩ := tmod_spec first nonzero
  have lower : second * (first.tdiv second - 1) = second * first.tdiv second - second := by
    rw [Int.mul_sub, Int.mul_one]
  rcases Int.lt_or_gt_of_ne nonzero with negative | positive
  · split
    · rw [Int.fdiv_fmod_unique' negative, lower]
      omega
    · rw [Int.fdiv_fmod_unique' negative]
      omega
  · split
    · rw [Int.fdiv_fmod_unique positive, lower]
      omega
    · rw [Int.fdiv_fmod_unique positive]
      omega

theorem natAbs_tdiv_le_half (first : Int) {second : Int} (large : 2 ≤ second.natAbs) :
    (first.tdiv second).natAbs ≤ first.natAbs / 2 := by
  rw [Int.natAbs_tdiv]
  exact Nat.div_le_div_left large (by decide)

section Division

variable {dividend divisor : Int64}

/-- The quotient of all pairs fits but that of the least integer by -1, which is the next power. -/
theorem fits_tdiv_iff (nonzero : divisor ≠ 0) :
    Fits (dividend.toInt.tdiv divisor.toInt) ↔
      ¬ (dividend = Int64.minValue ∧ divisor = -1) := by
  have least : Int64.minValue.toInt = -2 ^ 63 := by decide
  have minusOne : (-1 : Int64).toInt = -1 := by decide
  have low := dividend.le_toInt
  have high := dividend.toInt_lt
  have apart := mt toInt_eq_zero_iff.mp nonzero
  rw [← Int64.toInt_inj, ← Int64.toInt_inj, least, minusOne, fits_iff]
  by_cases small : divisor.toInt.natAbs < 2
  · have unit : divisor.toInt = 1 ∨ divisor.toInt = -1 := by omega
    rcases unit with one | one <;> rw [one]
    · rw [Int.tdiv_one]
      omega
    · rw [Int.tdiv_neg, Int.tdiv_one]
      omega
  · have half := natAbs_tdiv_le_half dividend.toInt (Nat.le_of_not_lt small)
    omega

/-- If something is cut off, the quotient is so small that there is room below it. -/
theorem fits_fdiv_iff (nonzero : divisor ≠ 0) :
    Fits (dividend.toInt.fdiv divisor.toInt) ↔
      ¬ (dividend = Int64.minValue ∧ divisor = -1) := by
  rw [← fits_tdiv_iff nonzero]
  have apart := mt toInt_eq_zero_iff.mp nonzero
  have floored := floored_eq dividend.toInt apart
  split at floored
  · rename_i cut
    obtain ⟨-, up, down⟩ := tmod_spec dividend.toInt apart
    have low := dividend.le_toInt
    have high := dividend.toInt_lt
    have large : 2 ≤ divisor.toInt.natAbs := by omega
    have half := natAbs_tdiv_le_half dividend.toInt large
    rw [floored.1, fits_iff, fits_iff]
    omega
  · rw [floored.1]

/-- The corrected quotient is the exact one of the division that rounds down. -/
theorem quotient_eq (nonzero : divisor ≠ 0) :
    quotient dividend divisor = exactInteger (dividend.toInt.fdiv divisor.toInt) := by
  rw [quotient, if_neg nonzero, truncatedQuotient, exactInteger, exactInteger]
  by_cases extreme : dividend = Int64.minValue ∧ divisor = -1
  · rw [if_neg (mt (fits_tdiv_iff nonzero).mp (not_not_intro extreme)),
      if_neg (mt (fits_fdiv_iff nonzero).mp (not_not_intro extreme))]
    rfl
  · rw [if_pos ((fits_tdiv_iff nonzero).mpr extreme), if_pos ((fits_fdiv_iff nonzero).mpr extreme)]
    have apart := mt toInt_eq_zero_iff.mp nonzero
    have floored := floored_eq dividend.toInt apart
    simp only [oppose_iff, ne_eq, ← toInt_eq_zero_iff, Int64.toInt_mod]
    change Except.ok _ = _
    congr 1
    split at floored
    · rename_i cut
      rw [if_pos cut, floored.1, Int64.ofInt_sub]
      rfl
    · rename_i whole
      rw [if_neg whole, floored.1]

/-- So is the corrected remainder, unless it is refused along with the quotient. -/
theorem remainder_eq (nonzero : divisor ≠ 0) :
    remainder dividend divisor =
      if dividend = Int64.minValue ∧ divisor = -1 then .error overflow
      else .ok (Int64.ofInt (dividend.toInt.fmod divisor.toInt)) := by
  rw [remainder, if_neg nonzero, truncatedQuotient, exactInteger]
  by_cases extreme : dividend = Int64.minValue ∧ divisor = -1
  · rw [if_neg (mt (fits_tdiv_iff nonzero).mp (not_not_intro extreme)), if_pos extreme]
    rfl
  · rw [if_pos ((fits_tdiv_iff nonzero).mpr extreme), if_neg extreme]
    have apart := mt toInt_eq_zero_iff.mp nonzero
    have floored := floored_eq dividend.toInt apart
    obtain ⟨-, up, down⟩ := tmod_spec dividend.toInt apart
    -- what is left over is on the side of the dividend, if there is anything
    have sides : (dividend.toInt.tmod divisor.toInt ≠ 0 ∧
        ¬ (dividend.toInt < 0 ↔ divisor.toInt < 0)) ↔
        (dividend % divisor ≠ 0 ∧ oppose (dividend % divisor) divisor = true) := by
      rw [oppose_iff, Ne, Ne, ← toInt_eq_zero_iff, Int64.toInt_mod]
      omega
    change Except.ok (if _ then _ else _) = _
    congr 1
    split at floored
    · rename_i cut
      rw [if_pos (sides.mp cut), floored.2, Int64.ofInt_add, Int64.ofInt_toInt,
        ← Int64.toInt_mod, Int64.ofInt_toInt]
    · rename_i whole
      rw [if_neg (mt sides.mpr whole), floored.2, ← Int64.toInt_mod, Int64.ofInt_toInt]

end Division

/-- The remainder of the division that rounds down is smaller than the divisor, and on its side. -/
theorem fmod_spec (first : Int) {second : Int} (nonzero : second ≠ 0) :
    first = first.fdiv second * second + first.fmod second ∧
      (first.fmod second).natAbs < second.natAbs ∧
      (first.fmod second = 0 ∨ (first.fmod second).sign = second.sign) := by
  refine ⟨(Int.fdiv_mul_add_fmod first second).symm, ?_⟩
  rcases Int.lt_or_gt_of_ne nonzero with negative | positive
  · obtain ⟨-, above, upTo⟩ := (Int.fdiv_fmod_unique' (a := first) negative).mp ⟨rfl, rfl⟩
    refine ⟨by omega, ?_⟩
    by_cases none : first.fmod second = 0
    · exact .inl none
    · rw [Int.sign_eq_neg_one_of_neg negative, Int.sign_eq_neg_one_of_neg (by omega)]
      exact .inr rfl
  · obtain ⟨-, from', below⟩ := (Int.fdiv_fmod_unique (a := first) positive).mp ⟨rfl, rfl⟩
    refine ⟨by omega, ?_⟩
    by_cases none : first.fmod second = 0
    · exact .inl none
    · rw [Int.sign_eq_one_of_pos positive, Int.sign_eq_one_of_pos (by omega)]
      exact .inr rfl

/-- No remainder is too large, even where the quotient is. -/
theorem fits_fmod {dividend divisor : Int64} (nonzero : divisor ≠ 0) :
    Fits (dividend.toInt.fmod divisor.toInt) := by
  have apart := mt toInt_eq_zero_iff.mp nonzero
  obtain ⟨-, small, -⟩ := fmod_spec dividend.toInt apart
  have low := divisor.le_toInt
  have high := divisor.toInt_lt
  rw [fits_iff]
  omega

/-! ## Shifts -/

theorem ofInt_two_pow (count : Nat) : BitVec.ofInt 64 (2 ^ count) = BitVec.twoPow 64 count := by
  have power : (2 : Int) ^ count = ((2 ^ count : Nat) : Int) := by
    push_cast
    rfl
  apply BitVec.eq_of_toNat_eq
  rw [power, BitVec.ofInt_natCast, BitVec.toNat_twoPow, BitVec.toNat_ofNat]

/-- Within the word, to shift is to multiply, but for the bits that leave the word. -/
theorem shiftLeft_eq_ofInt {number distance : Int64} (low : 0 ≤ distance.toInt)
    (high : distance.toInt < 64) :
    number <<< distance = Int64.ofInt (number.toInt * 2 ^ distance.toInt.toNat) := by
  have within : distance.toBitVec.smod 64 = distance.toBitVec := by
    rw [← BitVec.toInt_inj, BitVec.toInt_smod, Int64.toInt_toBitVec]
    exact Int.fmod_eq_of_lt low high
  have same : distance.toBitVec.toNat = distance.toInt.toNat := by
    have signed := BitVec.toInt_eq_toNat_cond distance.toBitVec
    have bounded := distance.toBitVec.isLt
    rw [Int64.toInt_toBitVec] at signed
    omega
  rw [← Int64.toBitVec_inj, Int64.toBitVec_shiftLeft, within, BitVec.shiftLeft_eq', same,
    BitVec.shiftLeft_eq_mul_twoPow, ← ofInt_two_pow, Int64.toBitVec_ofInt, BitVec.ofInt_mul,
    ← Int64.toInt_toBitVec number, BitVec.ofInt_toInt]

/-- Only zero can be moved by the length of the word. -/
theorem fits_shifted_iff {number : Int} {count : Nat} (long : 64 ≤ count) :
    Fits (number * 2 ^ count) ↔ number = 0 := by
  constructor
  · intro fits
    refine Decidable.byContradiction fun nonzero => ?_
    have size : 2 ^ 64 ≤ (number * 2 ^ count).natAbs := by
      rw [Int.natAbs_mul, Int.natAbs_pow]
      calc 2 ^ 64 ≤ 1 * 2 ^ count := by
            rw [Nat.one_mul]
            exact Nat.pow_le_pow_right (by decide) long
        _ ≤ number.natAbs * 2 ^ count := Nat.mul_le_mul_right _ (by omega)
    rw [fits_iff] at fits
    omega
  · rintro rfl
    rw [Int.zero_mul]
    decide

/-! ## Refusals -/

/-- The result is the whole number, as far as the word goes, or a refusal: rightly, or misjudged. -/
structure Judges (result : Except HostError Int64) (exact : Int) (misjudged : Prop) : Prop where
  answers : result = .error overflow ∨ result = .ok (Int64.ofInt exact)
  refuses : (result = .error overflow ↔ ¬ Fits exact) ↔ ¬ misjudged

theorem Judges.refused {exact : Int} {misjudged : Prop} (wrong : misjudged ↔ Fits exact) :
    Judges (.error overflow) exact misjudged :=
  ⟨.inl rfl, by simp [wrong]⟩

theorem Judges.answered {exact : Int} {misjudged : Prop} (wrong : misjudged ↔ ¬ Fits exact) :
    Judges (.ok (Int64.ofInt exact)) exact misjudged :=
  ⟨.inr rfl, by simp [wrong]⟩

theorem exactInteger_judges (exact : Int) : Judges (exactInteger exact) exact False := by
  unfold exactInteger
  split
  · rename_i fits
    exact .answered (iff_of_false id (not_not_intro fits))
  · rename_i large
    exact .refused (iff_of_false id large)

theorem remainder_judges {dividend divisor : Int64} (nonzero : divisor ≠ 0) :
    Judges (remainder dividend divisor) (dividend.toInt.fmod divisor.toInt)
      (dividend = Int64.minValue ∧ divisor = -1) := by
  have fits : Fits (dividend.toInt.fmod divisor.toInt) := fits_fmod nonzero
  rw [remainder_eq nonzero]
  split
  · rename_i extreme
    exact .refused (iff_of_true extreme fits)
  · rename_i plain
    exact .answered (iff_of_false plain (not_not_intro fits))

theorem shiftLeft_judges {number distance : Int64} (forward : 0 ≤ distance.toInt) :
    Judges (shiftLeft number distance) (number.toInt * 2 ^ distance.toInt.toNat)
      (if distance < 64 then ¬ Fits (number.toInt * 2 ^ distance.toInt.toNat)
        else number = 0) := by
  have length : (64 : Int64).toInt = 64 := rfl
  have ahead : 0 ≤ distance := Int64.le_iff_toInt_le.mpr forward
  unfold shiftLeft
  by_cases short : distance < 64
  · have within := Int64.lt_iff_toInt_lt.mp short
    rw [if_pos ⟨ahead, short⟩, if_pos short, shiftLeft_eq_ofInt forward within]
    exact .answered Iff.rfl
  · have long : 64 ≤ distance.toInt.toNat := by
      rw [Int64.lt_iff_toInt_lt, length] at short
      omega
    rw [if_neg (fun within => short within.2), if_neg short]
    exact .refused (toInt_eq_zero_iff.symm.trans (fits_shifted_iff long).symm)

/-- Every method of integers that means a number has a result. -/
theorem integerMethod?_judges {first second : Int64} {method : String} {exact : Int}
    (meant : meaning? first.toInt second.toInt method = some exact) :
    ∃ result, integerMethod? first second method = some result ∧
      Judges result exact (Misjudges first second method) := by
  unfold meaning? at meant
  split at meant
  case h_1 | h_2 | h_3 =>
    obtain rfl := Option.some.inj meant
    exact ⟨_, rfl, exactInteger_judges _⟩
  case h_4 =>
    split at meant
    · cases meant
    · rename_i apart
      obtain rfl := Option.some.inj meant
      refine ⟨_, rfl, ?_⟩
      rw [quotient_eq (mt toInt_eq_zero_iff.mpr apart)]
      exact exactInteger_judges _
  case h_5 =>
    split at meant
    · cases meant
    · rename_i apart
      obtain rfl := Option.some.inj meant
      exact ⟨_, rfl, remainder_judges (mt toInt_eq_zero_iff.mpr apart)⟩
  case h_6 =>
    split at meant
    · cases meant
    · rename_i forward
      obtain rfl := Option.some.inj meant
      exact ⟨_, rfl, shiftLeft_judges (by omega)⟩
  case h_7 => cases meant

/-! ## Calls -/

/-- An arithmetic method is what a call of it comes to. -/
theorem send_integers {first second : Int64} {method : String}
    {result : Except HostError Int64}
    (arithmetic : integerMethod? first second method = some result) (model : ObjectModel) :
    model.send (.integer first) method [.integer second] =
      (result.map .integer, model.countCall) := by
  have other : method ≠ "times" := by
    rintro rfl
    cases arithmetic
  simp [send, other, numericMethod, arithmetic, Functor.map]

/--
Quotient and remainder of two integers are those of the division that rounds
down: together they make up the dividend, and the remainder is smaller than the
divisor and on its side.  Both are given, unless the divisor is zero or the
quotient does not fit; what is refused because of a zero is refused as such.
-/
theorem division_rounds_down (model : ObjectModel) (dividend divisor : Int64) :
    let quotient := (model.send (.integer dividend) "/" [.integer divisor]).1
    let remainder := (model.send (.integer dividend) "%" [.integer divisor]).1
    (∀ whole rest, quotient = .ok whole → remainder = .ok rest →
      ∃ q r : Int64, whole = .integer q ∧ rest = .integer r ∧
        dividend.toInt = q.toInt * divisor.toInt + r.toInt ∧
        r.toInt.natAbs < divisor.toInt.natAbs ∧
        (r.toInt = 0 ∨ r.toInt.sign = divisor.toInt.sign)) ∧
    ((∃ whole, quotient = .ok whole) ↔
      divisor ≠ 0 ∧ Fits (dividend.toInt.fdiv divisor.toInt)) ∧
    ((∃ rest, remainder = .ok rest) ↔ ∃ whole, quotient = .ok whole) ∧
    (quotient = .error (.raised "divided by 0") ↔ divisor = 0) ∧
    (remainder = .error (.raised "divided by 0") ↔ divisor = 0) := by
  have divides : integerMethod? dividend divisor "/" = some (quotient dividend divisor) := rfl
  have reduces : integerMethod? dividend divisor "%" = some (remainder dividend divisor) := rfl
  rw [send_integers divides, send_integers reduces]
  by_cases zero : divisor = 0
  · have quotient : quotient dividend divisor = .error dividedByZero := if_pos zero
    have remainder : remainder dividend divisor = .error dividedByZero := if_pos zero
    rw [quotient, remainder]
    simp [zero, dividedByZero, Except.map]
  · rw [quotient_eq zero, remainder_eq zero, exactInteger]
    by_cases extreme : dividend = Int64.minValue ∧ divisor = -1
    · have large := mt (fits_fdiv_iff zero).mp (not_not_intro extreme)
      rw [if_neg large, if_pos extreme]
      simp [zero, large, overflow, Except.map]
    · have fits := (fits_fdiv_iff zero).mpr extreme
      rw [if_pos fits, if_neg extreme]
      have apart := mt toInt_eq_zero_iff.mp zero
      obtain ⟨total, small, side⟩ := fmod_spec dividend.toInt apart
      have rest : Fits (dividend.toInt.fmod divisor.toInt) := fits_fmod zero
      simp only [Except.map]
      refine ⟨?_, by simp [zero, fits], by simp, by simp [zero], by simp [zero]⟩
      rintro _ _ ⟨⟩ ⟨⟩
      refine ⟨_, _, rfl, rfl, ?_⟩
      rw [toInt_ofInt fits, toInt_ofInt rest]
      exact ⟨total, small, side⟩

/-- The least integer by ten, of which the quotient is cut off above what it should be. -/
theorem division_rounds_down_least :
    let model : ObjectModel := .withTables .empty .empty
    (model.send (.integer Int64.minValue) "/" [.integer 10]).1 =
        .ok (.integer (-922337203685477581)) ∧
      (model.send (.integer Int64.minValue) "%" [.integer 10]).1 = .ok (.integer 2) ∧
      ∃ q r : Int64, Value.integer (-922337203685477581) = .integer q ∧
        Value.integer 2 = .integer r ∧
        Int64.minValue.toInt = q.toInt * (10 : Int64).toInt + r.toInt ∧
        r.toInt.natAbs < (10 : Int64).toInt.natAbs ∧
        (r.toInt = 0 ∨ r.toInt.sign = (10 : Int64).toInt.sign) := by
  intro model
  have quotient : (model.send (.integer Int64.minValue) "/" [.integer 10]).1 =
      .ok (.integer (-922337203685477581)) := by rfl
  have remainder : (model.send (.integer Int64.minValue) "%" [.integer 10]).1 =
      .ok (.integer 2) := by rfl
  exact ⟨quotient, remainder,
    (division_rounds_down model Int64.minValue 10).1 _ _ quotient remainder⟩

/--
What a method of integers means is what it answers, as far as the integer goes, or
it is refused as an overflow.  It is refused exactly if no integer holds it, but in
the cases where the method goes by other rules.
-/
theorem overflow_is_refused (model : ObjectModel) (first second : Int64) (method : String)
    (exact : Int) (meant : meaning? first.toInt second.toInt method = some exact) :
    let answer := (model.send (.integer first) method [.integer second]).1
    (answer = .error (.raised "integer overflow") ∨
      answer = .ok (.integer (Int64.ofInt exact))) ∧
    ((answer = .error (.raised "integer overflow") ↔ ¬ Fits exact) ↔
      ¬ Misjudges first second method) := by
  obtain ⟨result, arithmetic, answers, refuses⟩ := integerMethod?_judges meant
  rw [send_integers arithmetic]
  have refused : result.map Value.integer = .error (.raised "integer overflow") ↔
      result = .error overflow := by
    cases result <;> simp [Except.map, overflow]
  refine ⟨?_, by rw [refused, refuses]⟩
  rw [refused]
  exact answers.imp_right fun same => by rw [same]; rfl

/-- The least integer times -1 is one more than the greatest. -/
theorem overflow_is_refused_least :
    let answer := (send (.withTables .empty .empty) (.integer Int64.minValue) "*"
      [.integer (-1)]).1
    meaning? Int64.minValue.toInt (-1 : Int64).toInt "*" = some (2 ^ 63) ∧
      ¬ Fits (2 ^ 63) ∧ ¬ Misjudges Int64.minValue (-1) "*" ∧
      answer = .error (.raised "integer overflow") := by
  have meant : meaning? Int64.minValue.toInt (-1 : Int64).toInt "*" = some (2 ^ 63) := by decide
  have large : ¬ Fits (2 ^ 63) := by decide
  have plain : ¬ Misjudges Int64.minValue (-1) "*" := id
  have judged := overflow_is_refused (.withTables .empty .empty) Int64.minValue (-1) "*" _ meant
  exact ⟨meant, large, plain, (judged.2.mpr plain).mpr large⟩

/--
One, moved into the place of the sign, is taken for negative; zero is refused a
long way; and the remainder of the least integer by -1 is refused, which is zero.
-/
theorem not_every_overflow_is_refused :
    let answer (first : Int64) (method : String) (second : Int64) :=
      (send (.withTables .empty .empty) (.integer first) method [.integer second]).1
    (answer 1 "<<" 63 = .ok (.integer Int64.minValue) ∧
      meaning? 1 63 "<<" = some (2 ^ 63) ∧ ¬ Fits (2 ^ 63)) ∧
    (answer 0 "<<" 64 = .error (.raised "integer overflow") ∧
      meaning? 0 64 "<<" = some 0 ∧ Fits 0) ∧
    (answer Int64.minValue "%" (-1) = .error (.raised "integer overflow") ∧
      meaning? Int64.minValue.toInt (-1) "%" = some 0 ∧ Fits 0) ∧
    ¬ ∀ (first second : Int64) (method : String) (exact : Int),
      meaning? first.toInt second.toInt method = some exact →
        (answer first method second = .error (.raised "integer overflow") ↔ ¬ Fits exact) := by
  intro answer
  have moved : answer 1 "<<" 63 = .ok (.integer Int64.minValue) := by rfl
  have meant : meaning? 1 63 "<<" = some (2 ^ 63) := by decide
  have large : ¬ Fits (2 ^ 63) := by decide
  refine ⟨⟨moved, meant, large⟩, ⟨by rfl, by decide, by decide⟩, ⟨by rfl, by decide, by decide⟩,
    fun claimed => ?_⟩
  have refused := (claimed 1 63 "<<" _ meant).mpr large
  rw [moved] at refused
  cases refused

end StackCode.ObjectModel
