import QueryLabel.Proofs.Rule.Keyword
import QueryLabel.Proofs.Rule.Number
import Mathlib.Tactic.ByContra

/-! Literals: what follows a string or a number that a rule has taken, and what another literal in
its place offers to the text before it. -/

namespace QueryLabel.Rule
open Charset

variable {c : Char} {a b s : List Char} {p : Char → Bool}

/-- What holds of each of the ten digits holds of a digit. -/
theorem of_isDigit {P : Char → Prop} (hP : ∀ n < 10, P (Char.ofNat (48 + n))) (h : c.isDigit) :
    P c := by
  have hc : 48 ≤ c.toNat ∧ c.toNat ≤ 57 := by
    simp only [Char.isDigit, Bool.and_eq_true, decide_eq_true_eq, ge_iff_le,
      UInt32.le_iff_toNat_le] at h
    exact h
  obtain ⟨n, hn⟩ := Nat.exists_eq_add_of_le hc.1
  rw [← Char.ofNat_toNat c, hn]
  exact hP n (by omega)

theorem number_eq_zero (hd : c.isDigit = false) (hp : c ≠ '+') (hm : c ≠ '-') (hdot : c ≠ '.') :
    number (c :: s) = 0 := by
  have hs : sign (c :: s) = 0 := by simp [sign_eq, hp, hm]
  have hr : run Char.isDigit (c :: s) = 0 := run_eq_zero_iff.2 hd
  have hn : mantissa (c :: s) = 0 := by simp [mantissa_of_eq_zero hr, hdot]
  rw [number_eq, hs, List.drop_zero, magnitude_eq, hexadecimal_eq_zero hn, if_pos rfl, hn,
    if_pos rfl, lead_zero]

theorem number_of_digit (h : heads Char.isDigit s) : number s = magnitude s := by
  rw [number_eq, sign_eq_zero_of_digit h, List.drop_zero]
  cases magnitude s <;> simp [lead_succ]

theorem number_ne_zero (h : heads Char.isDigit s) : number s ≠ 0 := by
  have hr : run Char.isDigit s ≠ 0 := fun hr => by simp [run_eq_zero_iff.1 hr] at h
  have hm := run_le_mantissa (u := s)
  rw [number_of_digit h, magnitude_eq]
  split
  · rw [if_neg (by omega)]
    omega
  · assumption

theorem hexadecimal_digits (h : ∀ c ∈ a, c.isDigit) (ha : a ≠ [])
    (hx : hexadecimal (a ++ b) ≤ a.length) : hexadecimal (a ++ b) = 0 := by
  obtain ⟨c, a, rfl⟩ := List.exists_cons_of_ne_nil ha
  rw [List.cons_append, hexadecimal_cons] at hx ⊢
  split at hx
  · next hm =>
    cases a with
    | nil => rw [eq_zero_of_lead_le (Nat.le_succ_of_le hx), lead_zero, ite_self]
    | cons d a =>
      -- the mark of a hexadecimal number would stand where a digit does
      have hd : d.isDigit := h d (by simp)
      simp only [List.cons_append, heads_cons, Bool.and_eq_true, Bool.or_eq_true, beq_iff_eq] at hm
      rcases hm.2 with rfl | rfl <;> exact absurd hd (by decide)
  · next hm => rw [if_neg hm]

/-- The parts of a number that starts with the digits of `a`. -/
theorem magnitude_digits (h : ∀ c ∈ a, c.isDigit) (ha : a ≠ [])
    (hx : hexadecimal (a ++ b) = 0) :
    mantissa (a ++ b) = a.length + run Char.isDigit b + fraction (b.drop (run Char.isDigit b)) ∧
      magnitude (a ++ b) = mantissa (a ++ b) + exponent ((a ++ b).drop (mantissa (a ++ b))) := by
  have hr : run Char.isDigit (a ++ b) = a.length + run Char.isDigit b := run_append_of_forall h
  have hlen : 0 < a.length := List.length_pos_iff.2 ha
  have hm := mantissa_of_ne_zero (s := a ++ b) (by omega)
  rw [hr, List.drop_length_add_append] at hm
  exact ⟨hm, by rw [magnitude_eq, if_pos hx, if_neg (by omega)]⟩

/-- What follows a number of digits only neither continues it nor gives it an exponent. -/
theorem of_number_digits (h : ∀ c ∈ a, c.isDigit) (ha : a ≠ [])
    (hn : number (a ++ b) = a.length) :
    heads Char.isDigit b = false ∧ fraction b = 0 ∧ exponent b = 0 := by
  have hd : heads Char.isDigit (a ++ b) := by
    obtain ⟨c, a, rfl⟩ := List.exists_cons_of_ne_nil ha
    exact h c List.mem_cons_self
  rw [number_of_digit hd] at hn
  have hx : hexadecimal (a ++ b) = 0 := by
    by_contra hx
    rw [magnitude_eq, if_neg hx] at hn
    exact hx (hexadecimal_digits h ha (Nat.le_of_eq hn))
  obtain ⟨hm, he⟩ := magnitude_digits h ha hx
  have hr : run Char.isDigit b = 0 := by omega
  rw [hr, List.drop_zero] at hm
  have hf : fraction b = 0 := by omega
  rw [hf, Nat.add_zero] at hm
  rw [hm, List.drop_left] at he
  exact ⟨run_eq_zero_iff.1 hr, hf, by omega⟩

theorem number_digits (h : ∀ c ∈ a, c.isDigit) (ha : a ≠ []) (h0 : heads (· == '0') a = false)
    (hb : heads Char.isDigit b = false ∧ fraction b = 0 ∧ exponent b = 0) :
    number (a ++ b) = a.length := by
  obtain ⟨c, a, rfl⟩ := List.exists_cons_of_ne_nil ha
  have hx : hexadecimal (c :: a ++ b) = 0 := by
    rw [heads_cons] at h0
    rw [List.cons_append, hexadecimal_cons, h0]
    rfl
  obtain ⟨hm, he⟩ := magnitude_digits h ha hx
  simp only [run_eq_zero_iff.2 hb.1, List.drop_zero, hb.2.1, Nat.add_zero] at hm
  have hd : heads Char.isDigit (c :: a ++ b) := by
    rw [List.cons_append, heads_cons]
    exact h c List.mem_cons_self
  rw [number_of_digit hd, he, hm, List.drop_left, hb.2.2, Nat.add_zero]

/-- A string that is taken is not followed by another quote. -/
theorem heads_drop_stringRest : heads (· == '\'') (s.drop (stringRest s)) = false := by
  fun_induction stringRest s with
  | case1 => rfl
  | case2 => rfl
  | case3 c d s hc hd ih => rwa [← List.drop_drop]
  | case4 c d s hc hd => simpa using hd
  | case5 c d s hc ih => rwa [← List.drop_drop]

theorem commentEnd_of_append (h : commentEnd (a ++ b) = 0) : commentEnd b = 0 := by
  induction a with
  | nil => exact h
  | cons c a ih =>
    rw [List.cons_append, commentEnd_cons] at h
    split at h
    · simp at h
    · exact ih (lead_eq_zero.1 h)

theorem commentEnd_append (ha : '/' ∉ a) (hl : a.getLast? ≠ some '*') (hb : commentEnd b = 0) :
    commentEnd (a ++ b) = 0 := by
  induction a with
  | nil => exact hb
  | cons c a ih =>
    rw [List.mem_cons, not_or] at ha
    have hc : (c == '*' && heads (· == '/') (a ++ b)) = false := by
      cases a with
      | nil =>
        have : c ≠ '*' := by simpa using hl
        simp [this]
      | cons d a =>
        rw [List.mem_cons, not_or] at ha
        have : d ≠ '/' := Ne.symm ha.2.1
        simp [this]
    rw [List.cons_append, commentEnd_cons, hc, if_neg Bool.false_ne_true, ih ha.2 ?_, lead_zero]
    cases a with
    | nil => simp
    | cons d a => rwa [List.getLast?_cons_cons] at hl

theorem class_of_front {c' : Char} (hc : c' = c ∨ c'.isDigit ∧ c.isDigit)
    (hp : ∀ n < 10, p (Char.ofNat (48 + n)) = p '0') : p c' = p c := by
  rcases hc with rfl | ⟨h', h⟩
  · rfl
  · have hd (d : Char) (h : d.isDigit) : p d = p '0' := of_isDigit (P := fun d => p d = p '0') hp h
    rw [hd c' h', hd c h]

/-- A literal offers no more than another one that begins alike, if nothing in it closes a name or
a comment. -/
theorem narrows_literal {c' : Char} {a' : List Char} (hc : c' = c ∨ c'.isDigit ∧ c.isDigit)
    (hj : isJoint c = false) (hq : ∀ q ∈ ['"', '\x60', ']', '/'], q ∉ c :: a)
    (hl : (c :: a).getLast? ≠ some '*') : Narrows (c' :: a' ++ b) (c :: a ++ b) where
  joint := by rwa [List.cons_append, heads_cons]
  digit := by simpa using (class_of_front hc (by decide)).trans
  hex := by simpa using (class_of_front hc (by decide)).trans
  nameStart := by simpa using (class_of_front hc (by decide)).trans
  namePart := by simpa using (class_of_front hc (by decide)).trans
  word := by
    simpa [Keyword.endsWord] using (class_of_front (p := isWord) hc (by decide)).symm
  closing q hm h := by
    have hca : q ∉ c :: a := hq q (by simp at hm ⊢; grind)
    exact List.mem_append_right _ ((List.mem_append.1 h).resolve_left hca)
  blank := by simpa using (class_of_front hc (by decide)).trans
  line := by simpa using (class_of_front hc (by decide)).trans
  quote := by
    simp only [List.cons_append, heads_cons]
    exact fun h => (class_of_front (p := (· == '\'')) hc (by decide)).trans h
  nil h := by simp at h
  comment h := commentEnd_append (hq '/' (by simp)) hl (commentEnd_of_append h)

end QueryLabel.Rule
