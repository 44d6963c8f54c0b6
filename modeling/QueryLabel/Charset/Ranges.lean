/-!
Sets of characters as ascending lists of code point ranges.
-/

namespace QueryLabel.Charset

/-- Inclusive, disjoint ranges of code points in ascending order. -/
abbrev Ranges := List (Nat × Nat)

/-- The order of the ranges lets the search end at the first one above `n`. -/
def Ranges.contains : Ranges → Nat → Bool
  | [], _ => false
  | (lo, hi) :: rest, n => if n < lo then false else n ≤ hi || Ranges.contains rest n

theorem isAlpha_lt {c : Char} (h : c.isAlpha) : c.toNat < 128 := by
  have hc : c.val ≤ 90 ∨ c.val ≤ 122 := by
    rcases Bool.or_eq_true_iff.1 h with h | h
    · exact .inl (show 65 ≤ c.val ∧ c.val ≤ 90 from (of_decide_eq_true h)).2
    · change (decide (97 ≤ c.val) && decide (c.val ≤ 122)) = true at h
      exact .inr (of_decide_eq_true (Bool.and_eq_true_iff.1 h).2)
  simp only [UInt32.le_iff_toNat_le] at hc
  have : c.val.toNat ≤ 122 := hc.elim (Nat.le_trans · (by decide)) id
  exact Nat.lt_of_le_of_lt this (by decide)

end QueryLabel.Charset
