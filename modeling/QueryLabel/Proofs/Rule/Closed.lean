import QueryLabel.Proofs.Rule.Blank

/-! Pieces that are closed. A comment, a string or a quoted name that ends inside a text ends there
whatever follows the text, and a line break ends all that need not be closed. -/

namespace QueryLabel.Rule
open Charset

variable {q : Char} {a b s v w : List Char} {k n : Nat}

theorem lead_of_ne_zero (h : n ≠ 0) : lead k n = k + n := by
  obtain ⟨m, rfl⟩ := Nat.exists_eq_succ_of_ne_zero h
  rfl

/-- A line break detaches what stands before it, whatever stood there before. -/
theorem detaches_newline : Detaches v ('\n' :: b) where
  joint := rfl
  digit h := absurd h (by rw [heads_cons]; decide)
  hex h := absurd h (by rw [heads_cons]; decide)
  nameStart h := absurd h (by rw [heads_cons]; decide)
  namePart h := absurd h (by rw [heads_cons]; decide)

theorem commentEnd_append_of_ne_zero (h : commentEnd a ≠ 0) :
    commentEnd (a ++ w) = commentEnd a := by
  induction a with
  | nil => exact absurd rfl h
  | cons c a ih =>
    cases a with
    | nil => exact absurd rfl h
    | cons d a =>
      simp only [List.cons_append, commentEnd_cons (c := c), heads_cons] at h ih ⊢
      by_cases hc : (c == '*' && d == '/') = true
      · rw [if_pos hc, if_pos hc]
      · rw [if_neg hc] at h
        rw [if_neg hc, if_neg hc, ih (mt lead_eq_zero.2 h)]

/-- No comment ends in a part of a text in which none ends. -/
theorem commentEnd_of_infix (h : commentEnd s = 0) (ha : a <:+: s) : commentEnd a = 0 := by
  obtain ⟨u, t, rfl⟩ := ha
  by_contra hne
  have hpre : commentEnd (u ++ a) = 0 := by
    by_contra hp
    exact hp (commentEnd_append_of_ne_zero hp ▸ h)
  exact hne (commentEnd_of_append hpre)

/-- A text that does not begin with a slash lets no comment end where it is put. -/
theorem commentEnd_append_eq_zero (h : commentEnd (a ++ s) = 0) (hw : commentEnd w = 0)
    (hslash : heads (· == '/') w → heads (· == '/') s) : commentEnd (a ++ w) = 0 := by
  induction a with
  | nil => exact hw
  | cons c a ih =>
    rw [List.cons_append, commentEnd_cons] at h ⊢
    have hc : ¬ (c == '*' && heads (· == '/') (a ++ s)) = true := by
      intro hc
      rw [if_pos hc] at h
      exact absurd h (by decide)
    rw [if_neg hc] at h
    rw [ih (lead_eq_zero.1 h), if_neg]
    · rfl
    · intro hc'
      obtain ⟨hstar, hhead⟩ := Bool.and_eq_true_iff.1 hc'
      apply hc
      cases a with
      | nil => exact Bool.and_eq_true_iff.2 ⟨hstar, hslash hhead⟩
      | cons d a => exact hc'

/-- A comment ends neither across a line break nor behind one, if it does not end behind it. -/
theorem commentEnd_append_newline (ha : commentEnd a = 0) (hb : commentEnd b = 0) :
    commentEnd (a ++ '\n' :: b) = 0 := by
  have hn : commentEnd ('\n' :: b) = 0 := by
    rw [commentEnd_cons, hb]
    rfl
  exact commentEnd_append_eq_zero (s := []) (by rwa [List.append_nil]) hn fun h =>
    absurd h (by rw [heads_cons]; decide)

/-- Before a line break a comment ends as before the end of the text, unless it is a block that is
closed behind the line break only. -/
theorem comment_append_newline
    (h : ∀ t, a = '/' :: '*' :: t → commentEnd t = 0 → commentEnd b = 0) (ha : a ≠ []) :
    comment (a ++ '\n' :: b) = comment a := by
  obtain ⟨c, a, rfl⟩ := List.exists_cons_of_ne_nil ha
  cases a with
  | nil => simp [comment_cons]
  | cons d t =>
    have hl : run isInLine (t ++ '\n' :: b) = run isInLine t := by
      have hbreak : heads isInLine ('\n' :: b) = false := rfl
      exact (run_keeps fun h => Bool.noConfusion (hbreak.symm.trans h)).of_nil run_le
    simp only [List.cons_append, comment_cons, heads_cons, List.tail_cons, hl]
    by_cases hb : (c == '/' && d == '*') = true
    · obtain ⟨rfl, rfl⟩ : c = '/' ∧ d = '*' := by simpa using hb
      have hend : commentEnd (t ++ '\n' :: b) = commentEnd t := by
        by_cases ht : commentEnd t = 0
        · rw [ht, commentEnd_append_newline ht (h t rfl ht)]
        · exact commentEnd_append_of_ne_zero ht
      rw [hend]
    · rw [if_neg hb, if_neg hb]

/-- A string whose quotes pair up is closed. The opening quote is not part of `a`. -/
theorem stringRest_append_of_odd (hw : heads (· == '\'') w = false) :
    ∀ a, (a.take (stringRest a)).count '\'' % 2 = 1 → stringRest (a ++ w) = stringRest a
  | [], h => by simp at h
  | [c], h => by
    have hc : (c == '\'') = true := by
      by_contra hc
      simp [stringRest, List.count_singleton, hc] at h
    rw [List.singleton_append, stringRest_cons, stringRest_cons, if_pos hc, if_pos hc, hw]
    rfl
  | c :: d :: a, h => by
    simp only [List.cons_append, stringRest_cons (c := c), heads_cons, List.tail_cons] at h ⊢
    by_cases hc : (c == '\'') = true
    · rw [if_pos hc] at h ⊢
      rw [if_pos hc]
      by_cases hd : (d == '\'') = true
      · rw [if_pos hd] at h ⊢
        rw [if_pos hd]
        have ha : (a.take (stringRest a)).count '\'' % 2 = 1 := by
          rw [Nat.add_comm, List.take_succ_cons, List.take_succ_cons] at h
          simp only [List.count_cons, if_pos hc, if_pos hd] at h
          omega
        rw [stringRest_append_of_odd hw a ha]
      · rw [if_neg hd, if_neg hd]
    · rw [if_neg hc] at h ⊢
      rw [if_neg hc]
      have hd : ((d :: a).take (stringRest (d :: a))).count '\'' % 2 = 1 := by
        rw [Nat.add_comm, List.take_succ_cons, List.count_cons, if_neg hc] at h
        omega
      rw [← List.cons_append, stringRest_append_of_odd hw (d :: a) hd]

theorem string_append_of_even (hw : heads (· == '\'') w = false) (ha : a ≠ [])
    (h : (a.take (string a)).count '\'' % 2 = 0) : string (a ++ w) = string a := by
  obtain ⟨c, a, rfl⟩ := List.exists_cons_of_ne_nil ha
  rw [List.cons_append, string_cons, string_cons] at *
  by_cases hc : (c == '\'') = true
  · rw [if_pos hc] at h ⊢
    rw [Nat.add_comm, List.take_succ_cons, List.count_cons, if_pos hc] at h
    rw [if_pos hc, stringRest_append_of_odd hw a (by omega)]
  · rw [if_neg hc, if_neg hc]

/-- A quoted name whose closing quote no other one follows is closed. The opening quote is not part
of `a`. -/
theorem quotedRest_append_of_closed (hw : heads (· == q) w = false) : ∀ a, quotedRest q a ≠ 0 →
    heads (· == q) (a.drop (quotedRest q a)) = false → quotedRest q (a ++ w) = quotedRest q a
  | [], h, _ => absurd rfl h
  | [c], h, _ => by
    have hc : (c == q) = true := by
      by_contra hc
      simp [quotedRest, hc] at h
    rw [List.singleton_append, quotedRest_cons, quotedRest_cons, if_pos hc, if_pos hc, hw]
    rfl
  | c :: d :: a, h, hd => by
    simp only [List.cons_append, quotedRest_cons (c := c), heads_cons, List.tail_cons] at h hd ⊢
    by_cases hc : (c == q) = true
    · rw [if_pos hc] at hd ⊢
      rw [if_pos hc]
      by_cases he : (d == q) = true
      · rw [if_pos he] at hd ⊢
        have hne : quotedRest q a ≠ 0 := by
          intro hz
          simp [hz, he] at hd
        rw [lead_of_ne_zero hne, ← Nat.add_assoc, Nat.add_comm] at hd
        rw [if_pos he, quotedRest_append_of_closed hw a hne hd]
      · rw [if_neg he, if_neg he]
    · rw [if_neg hc] at h hd ⊢
      have hne : quotedRest q (d :: a) ≠ 0 := mt lead_eq_zero.2 h
      rw [lead_of_ne_zero hne, Nat.add_comm] at hd
      rw [if_neg hc, ← List.cons_append, quotedRest_append_of_closed hw (d :: a) hne hd]

/-- Where a quote follows the closing one, the name was closed there for want of any other quote. -/
theorem not_mem_of_heads_drop_quotedRest : ∀ a, quotedRest q a ≠ 0 →
    heads (· == q) (a.drop (quotedRest q a)) → q ∉ (a.drop (quotedRest q a)).tail
  | [], h, _ => absurd rfl h
  | [c], _, hd => by
    rw [quotedRest] at hd ⊢
    split at hd <;> simp_all
  | c :: d :: a, h, hd => by
    simp only [quotedRest_cons (c := c), heads_cons, List.tail_cons] at h hd ⊢
    by_cases hc : (c == q) = true
    · rw [if_pos hc] at hd ⊢
      by_cases he : (d == q) = true
      · rw [if_pos he] at hd ⊢
        by_cases hz : quotedRest q a = 0
        · rw [hz]
          exact quotedRest_eq_zero_iff.1 hz
        · rw [lead_of_ne_zero hz, ← Nat.add_assoc, Nat.add_comm] at hd ⊢
          exact not_mem_of_heads_drop_quotedRest a hz hd
      · rw [if_neg he] at hd
        exact absurd hd (by simpa using he)
    · rw [if_neg hc] at h hd ⊢
      have hne : quotedRest q (d :: a) ≠ 0 := mt lead_eq_zero.2 h
      rw [lead_of_ne_zero hne, Nat.add_comm] at hd ⊢
      exact not_mem_of_heads_drop_quotedRest (d :: a) hne hd

theorem bracketRest_append_of_ne_zero (h : bracketRest a ≠ 0) :
    bracketRest (a ++ w) = bracketRest a := by
  rw [bracketRest_eq] at h
  have hlt : run (· != ']') a < a.length := by
    by_contra hlt
    exact h (if_neg hlt)
  rw [bracketRest_eq, bracketRest_eq, run_append hlt, if_pos hlt,
    if_pos (by rw [List.length_append]; omega)]

end QueryLabel.Rule
