import QueryLabel.Proofs.Rule.Literal

/-! Blanks at the end of a text. Only blanks themselves, line comments and strings that nothing
closes go on into them. -/

namespace QueryLabel.Rule
open Charset

variable {c q : Char} {a w : List Char}

/-- The code points of the blanks. -/
def blankCodes : List Nat :=
  [0x9, 0xA, 0xB, 0xC, 0xD, 0x20, 0x85, 0xA0, 0x1680, 0x2000, 0x2001, 0x2002, 0x2003, 0x2004,
   0x2005, 0x2006, 0x2007, 0x2008, 0x2009, 0x200A, 0x2028, 0x2029, 0x202F, 0x205F, 0x3000]

/-- What holds of each of the blanks holds of a blank. -/
theorem of_isBlank {P : Char → Prop} (hP : ∀ n ∈ blankCodes, P (Char.ofNat n)) (h : isBlank c) :
    P c := by
  rw [← Char.ofNat_toNat c]
  apply hP
  simp only [isBlank, Bool.or_eq_true, Bool.and_eq_true, decide_eq_true_eq, beq_iff_eq] at h
  generalize c.toNat = n at h
  simp only [blankCodes, List.mem_cons, List.not_mem_nil, or_false]
  omega

/-- A character that is no part of a number, a word, a name or a string, and closes none. -/
structure NoPart (c : Char) : Prop where
  joint : isJoint c = false
  hex : Digits.isHex c = false
  namePart : isNamePart c = false
  word : isWord c = false
  bracket : c ≠ ']'
  quote : c ≠ '\''

theorem noPart_of_isBlank (h : isBlank c) : NoPart c := by
  have hall : isJoint c = false ∧ Digits.isHex c = false ∧ isNamePart c = false ∧
      isWord c = false ∧ c ≠ ']' ∧ c ≠ '\'' := by
    refine of_isBlank (P := fun c => isJoint c = false ∧ Digits.isHex c = false ∧
      isNamePart c = false ∧ isWord c = false ∧ c ≠ ']' ∧ c ≠ '\'') ?_ h
    decide +kernel
  obtain ⟨hj, hx, hn, hw, hb, hq⟩ := hall
  exact ⟨hj, hx, hn, hw, hb, hq⟩

theorem NoPart.nameStart (h : NoPart c) : isNameStart c = false := by
  have := h.namePart
  simp only [isNamePart, Bool.or_eq_false_iff] at this
  simp [isNameStart, this]

variable (hw : ∀ c ∈ w, isBlank c)
include hw

theorem not_heads_of_blank {p : Char → Bool} (hp : ∀ c, isBlank c → p c = false) :
    heads p w = false := by
  cases w with
  | nil => rfl
  | cons c w => exact hp c (hw c List.mem_cons_self)

/-- Blanks sever what stands before them as the end of the text does. -/
theorem severs_blank : Severs [] w where
  joint := not_heads_of_blank hw fun _ h => (noPart_of_isBlank h).joint
  digit h := by
    have hp (c : Char) (hc : isBlank c) : c.isDigit = false := by
      have := (noPart_of_isBlank hc).hex
      simp only [Digits.isHex, Bool.or_eq_false_iff] at this
      exact this.1.1
    rwa [not_heads_of_blank hw hp] at h
  hex h := by rwa [not_heads_of_blank hw fun _ h => (noPart_of_isBlank h).hex] at h
  nameStart h := by rwa [not_heads_of_blank hw fun _ h => (noPart_of_isBlank h).nameStart] at h
  namePart h := by rwa [not_heads_of_blank hw fun _ h => (noPart_of_isBlank h).namePart] at h
  word := by
    cases w with
    | nil => rfl
    | cons c w => simp [Keyword.endsWord, (noPart_of_isBlank (hw c List.mem_cons_self)).word]
  closing q hq h := by
    have hp := noPart_of_isBlank (hw q h)
    simp only [List.mem_cons, List.not_mem_nil, or_false] at hq
    rcases hq with rfl | rfl | rfl
    · exact absurd hp.joint (by decide)
    · exact absurd hp.joint (by decide)
    · exact absurd rfl hp.bracket

theorem slash_not_mem_blank : '/' ∉ w := by
  intro h
  exact absurd (noPart_of_isBlank (hw _ h)).joint (by decide)

theorem quote_not_mem_blank : '\'' ∉ w := by
  intro h
  exact absurd rfl (noPart_of_isBlank (hw _ h)).quote

/-- A piece within `a` stays as it is before `w`, unless it takes all of `a` and goes on. -/
def Grows (f : List Char → Nat) (a w : List Char) : Prop :=
  f (a ++ w) = f a ∨ f a = a.length ∧ a.length < f (a ++ w)

omit hw in
theorem run_grows {p : Char → Bool} : Grows (run p) a w := by
  rcases Nat.lt_or_ge (run p a) a.length with h | h
  · exact .inl (run_append h)
  · have ha : run p a = a.length := Nat.le_antisymm run_le h
    have hp : ∀ c ∈ a, p c := by
      by_contra hp
      have := run_lt_iff.2 (by simpa using hp)
      omega
    rw [Grows, run_append_of_forall hp, ha]
    rcases Nat.eq_zero_or_pos (run p w) with h | h
    · exact .inl (by omega)
    · exact .inr ⟨rfl, by omega⟩

/-- Blanks at the end begin nothing that the text itself does not begin. -/
theorem heads_append_blank (hc : isBlank c = false) :
    heads (· == c) (a ++ w) = heads (· == c) a := by
  cases a with
  | nil =>
    refine not_heads_of_blank hw fun d hd => beq_eq_false_iff_ne.2 ?_
    rintro rfl
    simp [hc] at hd
  | cons d a => rfl

theorem commentEnd_append_blank : commentEnd (a ++ w) = commentEnd a := by
  induction a with
  | nil =>
    have hl : w.getLast? ≠ some '*' := by
      intro h
      exact absurd (noPart_of_isBlank (hw _ (List.mem_of_getLast? h))).joint (by decide)
    have := commentEnd_append (b := []) (slash_not_mem_blank hw) hl rfl
    rwa [List.append_nil] at this
  | cons c a ih =>
    rw [List.cons_append, commentEnd_cons, commentEnd_cons, heads_append_blank hw (by decide), ih]

theorem comment_grows (ha : a ≠ []) : Grows comment a w := by
  obtain ⟨c, a, rfl⟩ := List.exists_cons_of_ne_nil ha
  have hd : heads (· == '-') (a ++ w) = heads (· == '-') a := heads_append_blank hw (by decide)
  have hs : heads (· == '*') (a ++ w) = heads (· == '*') a := heads_append_blank hw (by decide)
  simp only [Grows, List.cons_append, comment_cons, hd, hs, List.length_cons]
  by_cases hl : (c == '-' && heads (· == '-') a) = true
  · obtain ⟨d, t, rfl, _⟩ := heads_iff.1 (Bool.and_eq_true_iff.1 hl).2
    simp only [if_pos hl, List.cons_append, List.tail_cons, List.length_cons]
    rcases run_grows (p := isInLine) (a := t) (w := w) with h | ⟨h, hlt⟩
    · exact .inl (by rw [h])
    · exact .inr ⟨by omega, by omega⟩
  · rw [if_neg hl, if_neg hl]
    by_cases hb : (c == '/' && heads (· == '*') a) = true
    · obtain ⟨d, t, rfl, _⟩ := heads_iff.1 (Bool.and_eq_true_iff.1 hb).2
      simp only [if_pos hb, List.cons_append, List.tail_cons, commentEnd_append_blank hw]
      exact .inl trivial
    · rw [if_neg hb, if_neg hb]
      exact .inl rfl

omit hw in
theorem stringRest_of_not_mem (h : '\'' ∉ a) : stringRest a = a.length := by
  induction a with
  | nil => rfl
  | cons c a ih =>
    rw [List.mem_cons, not_or] at h
    rw [stringRest_cons, if_neg (by simpa using Ne.symm h.1), ih h.2, List.length_cons,
      Nat.add_comm]

/-- A string that is closed in `a` ends there, and its quotes pair up; any other goes on to the end
of the text. The opening quote is not part of `a`. -/
theorem stringRest_append_blank : ∀ a : List Char,
    (stringRest (a ++ w) = stringRest a ∧ (a.take (stringRest a)).count '\'' % 2 = 1) ∨
    (stringRest a = a.length ∧ stringRest (a ++ w) = (a ++ w).length ∧ a.count '\'' % 2 = 0)
  | [] => .inr ⟨rfl, stringRest_of_not_mem (quote_not_mem_blank hw), rfl⟩
  | [c] => by
    rw [List.singleton_append, stringRest_cons, stringRest_cons, List.length_singleton,
      List.length_cons, stringRest_of_not_mem (quote_not_mem_blank hw),
      ← List.nil_append w, heads_append_blank hw (by decide)]
    by_cases hc : (c == '\'') = true
    · rw [if_pos hc, if_pos hc]
      exact .inl ⟨rfl, by rw [eq_of_beq hc]; rfl⟩
    · rw [if_neg hc, if_neg hc]
      exact .inr ⟨rfl, Nat.add_comm .., by rw [List.count_singleton, if_neg hc]⟩
  | c :: d :: a => by
    have ih := stringRest_append_blank a
    have ihd := stringRest_append_blank (d :: a)
    simp only [List.cons_append, stringRest_cons (c := c), heads_cons, List.tail_cons,
      List.length_cons] at ih ihd ⊢
    by_cases hc : (c == '\'') = true
    · rw [if_pos hc, if_pos hc]
      by_cases hd : (d == '\'') = true
      · have ht : (c :: d :: a).take (2 + stringRest a) = c :: d :: a.take (stringRest a) := by
          rw [Nat.add_comm, List.take_succ_cons, List.take_succ_cons]
        rw [if_pos hd, if_pos hd, ht]
        simp only [List.count_cons, if_pos hc, if_pos hd]
        omega
      · rw [if_neg hd, if_neg hd]
        exact .inl ⟨rfl, by rw [List.take_succ_cons, List.take_zero, eq_of_beq hc]; rfl⟩
    · have ht : (c :: d :: a).take (1 + stringRest (d :: a)) =
          c :: (d :: a).take (stringRest (d :: a)) := by
        rw [Nat.add_comm, List.take_succ_cons]
      rw [if_neg hc, if_neg hc, ht]
      simp only [List.count_cons (b := c), if_neg hc]
      omega

theorem string_append_blank (ha : a ≠ []) :
    (string (a ++ w) = string a ∧ (a.take (string a)).count '\'' % 2 = 0) ∨
    (string a = a.length ∧ string (a ++ w) = (a ++ w).length ∧ a.count '\'' % 2 = 1) := by
  obtain ⟨c, a, rfl⟩ := List.exists_cons_of_ne_nil ha
  have h := stringRest_append_blank hw a
  rw [List.cons_append, string_cons, string_cons, List.length_cons, List.length_cons]
  by_cases hc : (c == '\'') = true
  · have ht : (c :: a).take (1 + stringRest a) = c :: a.take (stringRest a) := by
      rw [Nat.add_comm, List.take_succ_cons]
    rw [if_pos hc, if_pos hc, ht]
    simp only [List.count_cons, if_pos hc]
    omega
  · rw [if_neg hc, if_neg hc]
    exact .inl ⟨rfl, rfl⟩

end QueryLabel.Rule
