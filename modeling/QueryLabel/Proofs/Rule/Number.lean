import QueryLabel.Proofs.Rule.Keeps

/-! Numbers before exchanged text. A number is made of parts that may each be missing, so a part
that is missing before `v` must be missing before `w` too. -/

namespace QueryLabel.Rule

variable {c : Char} {u v w : List Char}

theorem sign_append (hu : u ≠ []) : sign (u ++ v) = sign u := by
  obtain ⟨c, u, rfl⟩ := List.exists_cons_of_ne_nil hu
  rfl

theorem sign_eq_zero_of_digit (h : heads Char.isDigit v) : sign v = 0 := by
  obtain ⟨c, t, rfl, hc⟩ := heads_iff.1 h
  rw [sign_eq, heads_cons, if_neg]
  rintro hs
  rcases Bool.or_eq_true_iff.1 hs with hs | hs <;>
    · rw [eq_of_beq hs] at hc
      exact absurd hc (by decide)

theorem Detaches.sign (h : Detaches v w) : sign w = 0 := by
  rw [sign_eq, heads_mono _ h.joint]
  · rfl
  · intro c hc
    rcases Bool.or_eq_true_iff.1 hc with hc | hc <;> rw [eq_of_beq hc] <;> decide

theorem hexadecimal_keeps (h : Detaches v w) (hu : u ≠ []) : Keeps hexadecimal u v w := by
  intro hv
  obtain ⟨c, u, rfl⟩ := List.exists_cons_of_ne_nil hu
  simp only [List.cons_append, hexadecimal_cons, List.length_cons] at hv ⊢
  cases u with
  | nil =>
    have hw : heads (fun d => d == 'x' || d == 'X') w = false := by
      apply heads_mono _ h.joint
      intro d hd
      rcases Bool.or_eq_true_iff.1 hd with hd | hd <;> rw [eq_of_beq hd] <;> decide
    simp only [List.nil_append, List.length_nil] at hv ⊢
    rw [hw]
    split at hv
    · rw [eq_zero_of_lead_le (Nat.le_succ_of_le hv)]
      simp
    · next hx => rw [if_neg hx]; simp
  | cons d u =>
    simp only [List.cons_append, heads_cons, List.tail_cons, List.length_cons] at hv ⊢
    refine ite_keeps ?_ (fun _ _ => rfl) hv
    intro _ hv
    exact (run_keeps h.hex).lead (by omega)

theorem fraction_keeps (h : Detaches v w) : Keeps fraction u v w := by
  intro hu
  unfold fraction at hu ⊢
  cases u with
  | nil =>
    have hw : heads (· == '.') w = false := h.not_heads (by decide)
    simp only [List.nil_append, List.length_nil] at hu ⊢
    split at hu
    · omega
    · next hv => rw [hw, if_neg hv]; simp
  | cons c u =>
    simp only [List.cons_append, heads_cons, List.tail_cons, List.length_cons] at hu ⊢
    refine ite_keeps ?_ (fun _ _ => rfl) hu
    intro _ hu
    rw [run_keeps h.digit (by omega)]

theorem run_le_mantissa : run Char.isDigit u ≤ mantissa u := by
  by_cases hz : run Char.isDigit u = 0
  · omega
  · rw [mantissa_of_ne_zero hz]
    omega

theorem mantissa_keeps (h : Detaches v w) : Keeps mantissa u v w := by
  intro hu
  have hk : run Char.isDigit (u ++ v) ≤ u.length := Nat.le_trans run_le_mantissa hu
  have he : run Char.isDigit (u ++ w) = run Char.isDigit (u ++ v) := run_keeps h.digit hk
  by_cases hz : run Char.isDigit (u ++ v) = 0
  · rw [mantissa_of_eq_zero hz] at hu ⊢
    rw [mantissa_of_eq_zero (he.trans hz)]
    cases u with
    | nil =>
      have hw : heads (· == '.') w = false := h.not_heads (by decide)
      rw [Nat.le_zero.1 hu, List.nil_append, hw]
      simp
    | cons c u =>
      simp only [List.cons_append, heads_cons, List.tail_cons, List.length_cons] at hu ⊢
      refine ite_keeps ?_ (fun _ _ => rfl) hu
      intro _ hu
      exact (run_keeps h.digit).lead (by omega)
  · rw [mantissa_of_ne_zero hz, List.drop_append_of_le_length hk] at hu ⊢
    rw [mantissa_of_ne_zero (he ▸ hz), he, List.drop_append_of_le_length hk]
    rw [fraction_keeps h (by rw [List.length_drop]; omega)]

theorem exponent_keeps (h : Detaches v w) : Keeps exponent u v w := by
  intro hu
  cases u with
  | nil =>
    have hw : exponent w = 0 := by
      cases w with
      | nil => rfl
      | cons d w =>
        rw [exponent_cons, if_neg]
        intro hd
        have hj := h.joint
        rw [heads_cons] at hj
        rcases Bool.or_eq_true_iff.1 hd with hd | hd <;> rw [eq_of_beq hd] at hj <;>
          exact absurd hj (by decide)
    rw [List.nil_append, List.nil_append, hw]
    exact (Nat.le_zero.1 hu).symm
  | cons c u =>
    simp only [List.cons_append, exponent_cons, List.length_cons] at hu ⊢
    refine ite_keeps ?_ (fun _ _ => rfl) hu
    intro _ hu
    cases u with
    | nil =>
      simp only [List.nil_append, List.length_nil] at hu ⊢
      have hv : run Char.isDigit (v.drop (sign v)) = 0 :=
        eq_zero_of_lead_le (Nat.le_trans hu (by omega))
      have hw : run Char.isDigit w = 0 := by
        apply run_eq_zero_iff.2
        apply Bool.eq_false_iff.2
        intro hw
        have hd := h.digit hw
        rw [sign_eq_zero_of_digit hd, List.drop_zero, run_eq_zero_iff] at hv
        rw [hv] at hd
        exact absurd hd (by decide)
      rw [hv, h.sign, List.drop_zero, hw]
      rfl
    | cons d u =>
      have hs := sign_le (s := d :: u)
      rw [sign_append (by simp), List.drop_append_of_le_length hs] at hu ⊢
      rw [sign_append (by simp), List.drop_append_of_le_length hs]
      exact (run_keeps h.digit).lead (by rw [List.length_drop]; omega)

/-- A hexadecimal number starts with a digit too. -/
theorem hexadecimal_eq_zero (h : mantissa u = 0) : hexadecimal u = 0 := by
  cases u with
  | nil => rfl
  | cons c u =>
    have hd : run Char.isDigit (c :: u) = 0 := Nat.le_zero.1 (h ▸ run_le_mantissa)
    rw [run_eq_zero_iff, heads_cons] at hd
    rw [hexadecimal_cons, if_neg]
    intro hx
    rw [eq_of_beq (Bool.and_eq_true_iff.1 hx).1] at hd
    exact absurd hd (by decide)

theorem magnitude_keeps (h : Detaches v w) : Keeps magnitude u v w := by
  intro hu
  rw [magnitude_eq] at hu ⊢
  rw [magnitude_eq]
  by_cases hx : hexadecimal (u ++ v) = 0
  · rw [if_pos hx] at hu ⊢
    by_cases hm : mantissa (u ++ v) = 0
    · have hm' : mantissa (u ++ w) = 0 := by
        rw [mantissa_keeps h (by omega), hm]
      rw [if_pos hm, hexadecimal_eq_zero hm', if_pos rfl, hm', if_pos rfl]
    · rw [if_neg hm] at hu ⊢
      have hk : mantissa (u ++ v) ≤ u.length := by omega
      have hn : u ≠ [] := by
        rintro rfl
        exact hm (Nat.le_zero.1 hk)
      have hx' : hexadecimal (u ++ w) = 0 := by
        rw [hexadecimal_keeps h hn (by omega), hx]
      have he : mantissa (u ++ w) = mantissa (u ++ v) := mantissa_keeps h hk
      rw [if_pos hx', he, if_neg hm]
      rw [List.drop_append_of_le_length hk] at hu ⊢
      rw [List.drop_append_of_le_length hk]
      rw [exponent_keeps h (by rw [List.length_drop]; omega)]
  · rw [if_neg hx] at hu ⊢
    have hn : u ≠ [] := by
      rintro rfl
      exact hx (Nat.le_zero.1 hu)
    rw [hexadecimal_keeps h hn hu, if_neg hx]

theorem number_keeps (h : Detaches v w) (hu : u ≠ []) : Keeps number u v w := by
  intro hv
  have hs := sign_le (s := u)
  rw [number_eq, sign_append hu, List.drop_append_of_le_length hs] at hv ⊢
  rw [number_eq, sign_append hu, List.drop_append_of_le_length hs]
  exact (magnitude_keeps h).lead (by rw [List.length_drop]; omega)

end QueryLabel.Rule
