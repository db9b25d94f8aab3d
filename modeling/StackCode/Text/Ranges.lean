/-!
# Sets of characters

A set of characters is written as the list of its ranges of code points, both
ends included.
-/

namespace StackCode.Text

def covers (ranges : List (Nat × Nat)) (c : Char) : Bool :=
  ranges.any fun (first, last) => first ≤ c.toNat && c.toNat ≤ last

theorem covers_iff (ranges : List (Nat × Nat)) (c : Char) :
    covers ranges c = true ↔
      ∃ range ∈ ranges, range.1 ≤ c.toNat ∧ c.toNat ≤ range.2 := by
  simp [covers]

end StackCode.Text
