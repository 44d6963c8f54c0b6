import QueryLabel.Capacity
import QueryLabel.Digits
import QueryLabel.Proofs.Charset.Trim

/-! Capacities in text. Reading from digit to digit stops as soon as the number is too large, but
what is accepted is no more and no less than a number that fits, written with any count of
digits. -/

namespace QueryLabel.Capacity
open Charset

variable {s : List Char} {m n : Nat} {capacity : Capacity} {raw : String}

/-- The ways to write a number: any digits but none at all, with or without a plus sign. -/
inductive Spells : List Char → Nat → Prop
  | plain {digits : List Char} (hne : digits ≠ []) (hdigits : ∀ c ∈ digits, c.isDigit) :
      Spells digits (Digits.number 10 digits)
  | plus {digits : List Char} (hne : digits ≠ []) (hdigits : ∀ c ∈ digits, c.isDigit) :
      Spells ('+' :: digits) (Digits.number 10 digits)

/-- A text gives a capacity that it writes between blanks, if 64 bits can hold it. -/
structure Gives (raw : String) (capacity : Capacity) : Prop where
  written : ∃ front s back, raw.toList = front ++ (s ++ back) ∧ Spells s capacity ∧
    (∀ c ∈ front, isBlank c) ∧ ∀ c ∈ back, isBlank c
  fits : capacity.val < UInt64.size

/-- The number that is written by digits behind those of `n`. -/
def numberFrom (n : Nat) (s : List Char) : Nat :=
  s.foldl (fun n c => 10 * n + Digits.value c) n

theorem le_numberFrom (n : Nat) (s : List Char) : n ≤ numberFrom n s := by
  induction s generalizing n with
  | nil => exact Nat.le_refl n
  | cons c s ih =>
    have h : 10 * n + Digits.value c ≤ numberFrom n (c :: s) := ih _
    omega

/-- More digits never make a number smaller, so to stop at the first one that is too large loses
nothing. -/
theorem readDigits_eq_ok_iff (hn : n ≤ limit) : readDigits n s = .ok m ↔
    (∀ c ∈ s, c.isDigit) ∧ numberFrom n s = m ∧ m ≤ limit := by
  induction s generalizing n with
  | nil =>
    simp only [readDigits, Except.ok.injEq, numberFrom, List.foldl_nil]
    constructor
    · rintro rfl
      exact ⟨by simp, rfl, hn⟩
    · exact fun h => h.2.1
  | cons c s ih =>
    rw [readDigits, List.forall_mem_cons]
    by_cases hc : c.isDigit
    · have hvalue : 10 * n + (c.toNat - '0'.toNat) = 10 * n + Digits.value c := by
        rw [Digits.value, if_pos hc]
      have hle : 10 * n + Digits.value c ≤ numberFrom n (c :: s) := le_numberFrom _ s
      simp only [hc, if_true, hvalue]
      split
      · next hlarge =>
        -- The digits that were not read any more would have made it no smaller.
        constructor
        · intro h
          cases h
        · rintro ⟨-, rfl, hm⟩
          omega
      · next hsmall =>
        rw [ih (Nat.le_of_not_lt hsmall)]
        simp only [true_and]
        rfl
    · simp [hc]

/-- Behind a plus sign there are digits, and no other sign. -/
theorem spells_plus_iff : Spells ('+' :: s) n ↔
    s ≠ [] ∧ (∀ c ∈ s, c.isDigit) ∧ Digits.number 10 s = n := by
  constructor
  · intro h
    generalize hs : '+' :: s = signed at h
    cases h with
    | plain _ hdigits =>
      subst hs
      exact absurd (hdigits '+' List.mem_cons_self) (by decide)
    | plus hne hdigits =>
      obtain rfl := List.tail_eq_of_cons_eq hs
      exact ⟨hne, hdigits, rfl⟩
  · rintro ⟨hne, hdigits, rfl⟩
    exact .plus hne hdigits

theorem spells_iff_of_ne_plus (hs : ∀ digits, s ≠ '+' :: digits) : Spells s n ↔
    s ≠ [] ∧ (∀ c ∈ s, c.isDigit) ∧ Digits.number 10 s = n := by
  constructor
  · intro h
    cases h with
    | plain hne hdigits => exact ⟨hne, hdigits, rfl⟩
    | plus _ _ => exact absurd rfl (hs _)
  · rintro ⟨hne, hdigits, rfl⟩
    exact .plain hne hdigits

theorem readNumber_eq_ok_iff : readNumber s = .ok n ↔ Spells s n ∧ n ≤ limit := by
  have hdigits (s : List Char) : readDigits 0 s = .ok n ↔
      (∀ c ∈ s, c.isDigit) ∧ Digits.number 10 s = n ∧ n ≤ limit :=
    readDigits_eq_ok_iff (Nat.zero_le limit)
  unfold readNumber
  split
  · simp [spells_iff_of_ne_plus]
  · simp [spells_plus_iff]
  · next s hs =>
    have hne : s ≠ [] := by simpa using hs
    rw [hdigits, spells_plus_iff]
    simp [hne, and_assoc]
  · next hne _ hplus =>
    have hne : s ≠ [] := hne
    rw [hdigits, spells_iff_of_ne_plus hplus]
    simp [hne, and_assoc]

theorem read_eq_ok_iff : read s = .ok capacity ↔
    Spells s capacity ∧ capacity.val < UInt64.size := by
  have hread : read s = .ok capacity ↔ readNumber s = .ok capacity.val := by
    have hpos : 0 < capacity.val := capacity.property
    unfold read
    cases readNumber s with
    | error reason => simp [bind, Except.bind]
    | ok n =>
      simp only [bind, Except.bind, Except.ok.injEq]
      split
      · rw [Except.ok.injEq, Subtype.ext_iff]
      · simp only [reduceCtorEq, false_iff]
        omega
  have hlimit : capacity.val ≤ limit ↔ capacity.val < UInt64.size :=
    Nat.le_sub_one_iff_lt (by decide)
  rw [hread, readNumber_eq_ok_iff, hlimit]

theorem Spells.not_isBlank (h : Spells s n) : ∀ c ∈ s, isBlank c = false := by
  have hdigit (c : Char) (hc : c.isDigit) : isBlank c = false := by
    obtain ⟨hlow, hhigh⟩ : 48 ≤ c.toNat ∧ c.toNat ≤ 57 := Char.isDigit_iff_toNat.1 hc
    simp only [isBlank, Bool.or_eq_false_iff, Bool.and_eq_false_iff, decide_eq_false_iff_not,
      beq_eq_false_iff_ne]
    omega
  cases h with
  | plain _ hdigits => exact fun c hc => hdigit c (hdigits c hc)
  | plus _ hdigits =>
    refine List.forall_mem_cons.2 ⟨by decide, fun c hc => hdigit c (hdigits c hc)⟩

theorem read_trim_eq_ok_iff : read (trim raw.toList) = .ok capacity ↔ Gives raw capacity := by
  rw [read_eq_ok_iff]
  constructor
  · rintro ⟨hs, hfits⟩
    obtain ⟨front, back, hfront, hback, hraw⟩ := exists_eq_append_trim raw.toList
    exact ⟨⟨front, _, back, hraw, hs, hfront, hback⟩, hfits⟩
  · rintro ⟨⟨front, s, back, hraw, hs, hfront, hback⟩, hfits⟩
    have hends : ∀ c, c ∈ s.head? ∨ c ∈ s.getLast? → isBlank c = false := by
      intro c hc
      exact hs.not_isBlank c (hc.elim List.mem_of_head? List.mem_of_getLast?)
    rw [hraw, trim_append hfront hback hends]
    exact ⟨hs, hfits⟩

end QueryLabel.Capacity
