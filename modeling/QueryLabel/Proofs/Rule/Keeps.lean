import QueryLabel.Proofs.Rule.Basic

/-! What a rule sees of the text behind the piece that it takes: if `w` offers no more than `v`
does, a rule that takes nothing of `v` takes the same before `w`. -/

namespace QueryLabel.Rule
open Charset

variable {p : Char → Bool} {c q : Char} {u v w : List Char}

/-- A rule that takes no more than `u` does not see whether `v` or `w` follows. -/
def Keeps (f : List Char → Nat) (u v w : List Char) : Prop :=
  f (u ++ v) ≤ u.length → f (u ++ w) = f (u ++ v)

/-- Characters that some rule takes after others, or together with the one before. Letters are
among them for the sake of the keywords. -/
def isJoint (c : Char) : Bool :=
  ['-', '+', '*', '/', '.', '=', '>', '@', '"', '\x60'].elem c || (Keyword.fold c).isAlpha

/-- Before `w`, numbers, names and operators find nothing that they did not find before `v`. -/
structure Detaches (v w : List Char) : Prop where
  joint : heads isJoint w = false
  digit : heads Char.isDigit w → heads Char.isDigit v
  hex : heads Digits.isHex w → heads Digits.isHex v
  nameStart : heads isNameStart w → heads isNameStart v
  namePart : heads isNamePart w → heads isNamePart v

/-- Before `w`, keywords and quoted names find nothing either that they did not find before `v`. -/
structure Severs (v w : List Char) : Prop extends Detaches v w where
  word : Keyword.endsWord w = Keyword.endsWord v
  closing : ∀ q ∈ ['"', '\x60', ']'], q ∈ w → q ∈ v

/-- Before `w`, no rule finds anything that it did not find before `v`. Blanks, line comments and
strings are apart because the end of the text is an end for them too. -/
structure Narrows (v w : List Char) : Prop extends Severs v w where
  blank : heads isBlank w → heads isBlank v
  line : heads isInLine w → heads isInLine v
  quote : heads (· == '\'') w → heads (· == '\'') v
  nil : v = [] → w = []
  comment : commentEnd v = 0 → commentEnd w = 0

theorem detaches_nil : Detaches v [] where
  joint := rfl
  digit h := absurd h (by decide)
  hex h := absurd h (by decide)
  nameStart h := absurd h (by decide)
  namePart h := absurd h (by decide)

/-- The end of the text offers less than any text before which a word ends. -/
theorem narrows_nil (h : Keyword.endsWord v) : Narrows v [] where
  toDetaches := detaches_nil
  word := h.symm
  closing q _ hq := absurd hq List.not_mem_nil
  blank h := absurd h (by decide)
  line h := absurd h (by decide)
  quote h := absurd h (by decide)
  nil _ := rfl
  comment _ := rfl

theorem heads_mono {p' : Char → Bool} (hp : ∀ c, p' c → p c) (h : heads p w = false) :
    heads p' w = false := by
  rw [Bool.eq_false_iff] at h ⊢
  intro hw
  obtain ⟨c, t, rfl, hc⟩ := heads_iff.1 hw
  exact h (hp c hc)

theorem heads_beq_false (hp : p c) (h : heads p w = false) : heads (· == c) w = false :=
  heads_mono (fun d hd => by rw [eq_of_beq hd, hp]) h

theorem Detaches.not_heads (h : Detaches v w) (hc : isJoint c) : heads (· == c) w = false :=
  heads_beq_false hc h.joint

theorem run_keeps (h : heads p w → heads p v) : Keeps (run p) u v w := by
  intro hu
  induction u with
  | nil =>
    have hv : heads p v = false := run_eq_zero_iff.1 (Nat.le_zero.1 hu)
    have hw : heads p w = false := Bool.eq_false_iff.2 fun hw => by simp [h hw] at hv
    rw [List.nil_append, List.nil_append, run_eq_zero_iff.2 hv, run_eq_zero_iff.2 hw]
  | cons c u ih =>
    simp only [List.cons_append, run_cons] at hu ⊢
    by_cases hc : p c
    · rw [if_pos hc] at hu
      rw [if_pos hc, if_pos hc, ih (Nat.le_of_succ_le_succ hu)]
    · rw [if_neg hc, if_neg hc]

/-- A run that ends before the end of `u` sees nothing of what follows. -/
theorem run_append_of_lt (h : run p (u ++ v) < u.length) : run p (u ++ w) = run p (u ++ v) := by
  induction u with
  | nil => simp at h
  | cons c u ih =>
    simp only [List.cons_append, run_cons] at h ⊢
    by_cases hc : p c
    · rw [if_pos hc] at h
      rw [if_pos hc, if_pos hc, ih (Nat.lt_of_succ_lt_succ h)]
    · rw [if_neg hc, if_neg hc]

theorem run_append (h : run p u < u.length) : run p (u ++ w) = run p u := by
  have hu := run_append_of_lt (v := []) (w := w) (by rwa [List.append_nil])
  rwa [List.append_nil] at hu

theorem run_append_of_forall (h : ∀ c ∈ u, p c) : run p (u ++ v) = u.length + run p v := by
  induction u with
  | nil => simp
  | cons c u ih =>
    rw [List.cons_append, run_cons, if_pos (h c List.mem_cons_self),
      ih fun d hd => h d (List.mem_cons_of_mem c hd), List.length_cons]
    omega

theorem keeps_nil {f : List Char → Nat} (h : f (u ++ w) = f u) : Keeps f u [] w := fun _ => by
  rw [List.append_nil, h]

/-- Where nothing stood behind `u`, all that a rule needs to be kept is that it takes no more. -/
theorem Keeps.of_nil {f : List Char → Nat} (h : Keeps f u [] w) (hf : f u ≤ u.length) :
    f (u ++ w) = f u := by
  have hu := h (by rwa [List.append_nil])
  rwa [List.append_nil] at hu

/-- Keeping is all that a piece needs whose first characters lie in `u`. -/
theorem Keeps.lead {f : List Char → Nat} {k : Nat} (h : Keeps f u v w)
    (hu : lead k (f (u ++ v)) ≤ k + u.length) : lead k (f (u ++ w)) = lead k (f (u ++ v)) := by
  rw [h (lead_le_iff.1 hu)]

/-- A choice between two rules keeps what both of them keep. -/
theorem ite_keeps {P : Prop} [Decidable P] {n x y x' y' : Nat} (hx : P → x ≤ n → x' = x)
    (hy : ¬ P → y ≤ n → y' = y) (h : (if P then x else y) ≤ n) :
    (if P then x' else y') = if P then x else y := by
  by_cases hp : P
  · rw [if_pos hp] at h
    rw [if_pos hp, if_pos hp, hx hp h]
  · rw [if_neg hp] at h
    rw [if_neg hp, if_neg hp, hy hp h]

theorem commentEnd_keeps (hw : heads (· == '/') w = false)
    (hc : commentEnd v = 0 → commentEnd w = 0) : Keeps commentEnd u v w := by
  intro hu
  induction u with
  | nil =>
    have hv : commentEnd v = 0 := Nat.le_zero.1 hu
    rw [List.nil_append, List.nil_append, hv, hc hv]
  | cons c u ih =>
    simp only [List.cons_append, commentEnd_cons, List.length_cons] at hu ⊢
    -- the closing slash may be the first character of `v`, but then the comment reaches into `v`
    have hs : (c == '*' && heads (· == '/') (u ++ w)) =
        (c == '*' && heads (· == '/') (u ++ v)) := by
      cases u with
      | nil =>
        cases hv : c == '*' && heads (· == '/') v
        · simp only [List.nil_append, hv, hw, Bool.and_false]
        · simp [hv] at hu
      | cons d u => rfl
    rw [hs]
    refine ite_keeps (fun _ _ => rfl) ?_ hu
    intro _ hu
    rw [ih (lead_le_iff.1 (Nat.add_comm _ 1 ▸ hu))]

theorem comment_keeps (h : Detaches v w) (hl : heads isInLine w → heads isInLine v)
    (hc : commentEnd v = 0 → commentEnd w = 0) (hu : u ≠ []) : Keeps comment u v w := by
  intro hv
  obtain ⟨c, u, rfl⟩ := List.exists_cons_of_ne_nil hu
  simp only [List.cons_append, comment_cons, List.length_cons] at hv ⊢
  cases u with
  | nil =>
    have hd : heads (· == '-') w = false := h.not_heads (by decide)
    have hs : heads (· == '*') w = false := h.not_heads (by decide)
    simp only [List.nil_append, hd, hs, Bool.and_false, Bool.false_eq_true, if_false,
      List.length_nil] at hv ⊢
    split at hv
    · omega
    · next hd =>
      rw [if_neg hd]
      split at hv
      · rw [eq_zero_of_lead_le (Nat.le_succ_of_le hv), lead_zero, ite_self]
      · next hs => rw [if_neg hs]
  | cons d u =>
    simp only [List.cons_append, heads_cons, List.tail_cons, List.length_cons] at hv ⊢
    refine ite_keeps ?_ ?_ hv
    · intro _ hv
      rw [run_keeps hl (by omega)]
    · intro _ hv
      refine ite_keeps ?_ (fun _ _ => rfl) hv
      intro _ hv
      exact (commentEnd_keeps (h.not_heads (by decide)) hc).lead (by omega)

theorem stringRest_keeps (hq : heads (· == '\'') w → heads (· == '\'') v)
    (hn : v = [] → w = []) : ∀ u, Keeps stringRest u v w
  | [] => by
    intro hu
    cases v with
    | nil => rw [hn rfl]
    | cons d v =>
      rw [List.nil_append, stringRest_cons] at hu
      split at hu
      · split at hu <;> simp at hu
      · simp at hu
  | [c] => by
    intro hu
    cases v with
    | nil => rw [hn rfl]
    | cons d v =>
      simp only [List.cons_append, List.nil_append, stringRest_cons (c := c)] at hu ⊢
      by_cases hc : (c == '\'') = true
      · rw [if_pos hc] at hu
        have hd : heads (· == '\'') (d :: v) = false := by
          refine Bool.eq_false_iff.2 fun hd => ?_
          rw [if_pos hd, List.length_singleton] at hu
          omega
        have hw : heads (· == '\'') w = false := by
          refine Bool.eq_false_iff.2 fun hw => ?_
          simp [hq hw] at hd
        simp [hc, hd, hw]
      · rw [if_neg hc] at hu
        have : 0 < stringRest (d :: v) := by
          rw [stringRest_cons]
          split
          · split <;> omega
          · omega
        simp only [List.length_singleton] at hu
        omega
  | c :: d :: u => by
    intro hu
    simp only [List.cons_append, stringRest_cons (c := c), heads_cons, List.tail_cons,
      List.length_cons] at hu ⊢
    refine ite_keeps ?_ ?_ hu
    · intro _ hu
      refine ite_keeps ?_ (fun _ _ => rfl) hu
      intro _ hu
      rw [stringRest_keeps hq hn u (by omega)]
    · intro _ hu
      rw [← List.cons_append, ← List.cons_append,
        stringRest_keeps hq hn (d :: u) (by simp only [List.cons_append, List.length_cons]; omega)]

theorem string_keeps (hq : heads (· == '\'') w → heads (· == '\'') v) (hn : v = [] → w = [])
    (hu : u ≠ []) : Keeps string u v w := by
  intro hv
  obtain ⟨c, u, rfl⟩ := List.exists_cons_of_ne_nil hu
  simp only [List.cons_append, string_cons, List.length_cons] at hv ⊢
  refine ite_keeps ?_ (fun _ _ => rfl) hv
  intro _ hv
  rw [stringRest_keeps hq hn u (by omega)]

theorem quotedRest_eq_zero_iff : quotedRest q u = 0 ↔ q ∉ u := by
  fun_induction quotedRest q u <;> simp_all <;> grind

theorem quotedRest_keeps (hq : heads (· == q) w = false) (hc : q ∈ w → q ∈ v) :
    ∀ u, Keeps (quotedRest q) u v w
  | [] => by
    intro hu
    have hv : quotedRest q v = 0 := Nat.le_zero.1 hu
    have hw : quotedRest q w = 0 :=
      quotedRest_eq_zero_iff.2 fun hw => quotedRest_eq_zero_iff.1 hv (hc hw)
    rw [List.nil_append, List.nil_append, hv, hw]
  | [c] => by
    intro hu
    simp only [List.cons_append, List.nil_append, quotedRest_cons, List.length_singleton] at hu ⊢
    by_cases he : (c == q) = true
    · rw [if_pos he] at hu
      rw [if_pos he, if_pos he, hq]
      split at hu
      · next hv =>
        have hz : quotedRest q v.tail = 0 := eq_zero_of_lead_le (k := 1) (by omega)
        simp [hv, hz]
      · next hv => simp [hv]
    · rw [if_neg he] at hu
      rw [if_neg he, if_neg he]
      exact (quotedRest_keeps hq hc []).lead hu
  | c :: d :: u => by
    intro hu
    simp only [List.cons_append, quotedRest_cons (c := c), heads_cons, List.tail_cons,
      List.length_cons] at hu ⊢
    refine ite_keeps ?_ ?_ hu
    · intro _ hu
      refine ite_keeps ?_ (fun _ _ => rfl) hu
      intro _ hu
      rw [(quotedRest_keeps hq hc u).lead (by omega)]
    · intro _ hu
      exact (quotedRest_keeps hq hc (d :: u)).lead
        (by simp only [List.cons_append, List.length_cons]; omega)

theorem bracketRest_keeps (hc : ']' ∈ w → ']' ∈ v) : Keeps bracketRest u v w := by
  intro hu
  rw [bracketRest_eq] at hu ⊢
  rw [bracketRest_eq]
  by_cases hv : run (· != ']') (u ++ v) < (u ++ v).length
  · rw [if_pos hv] at hu
    have hw : run (· != ']') (u ++ w) = run (· != ']') (u ++ v) := run_append_of_lt hu
    rw [hw, if_pos hv, if_pos (by rw [List.length_append]; omega)]
  · have hw : ¬ run (· != ']') (u ++ w) < (u ++ w).length := by
      simp only [run_lt_iff, List.mem_append] at hv ⊢
      rintro ⟨c, hw, hc'⟩
      obtain rfl : c = ']' := by simpa using hc'
      exact hv ⟨']', hw.imp_right hc, rfl⟩
    rw [if_neg hv, if_neg hw]

theorem quotedName_keeps (h : Detaches v w) (hc : ∀ q ∈ ['"', '\x60', ']'], q ∈ w → q ∈ v)
    (hu : u ≠ []) : Keeps quotedName u v w := by
  intro hv
  obtain ⟨c, u, rfl⟩ := List.exists_cons_of_ne_nil hu
  simp only [List.cons_append, quotedName_cons, List.length_cons] at hv ⊢
  -- the choice stands under the opening quote here, so it is kept first and the quote added
  rw [Nat.add_comm, lead_le_iff] at hv
  congr 1
  refine ite_keeps ?_ ?_ hv
  · intro hq hv
    have he : c = '"' ∨ c = '\x60' := by simpa using hq
    have hj : isJoint c := by rcases he with rfl | rfl <;> decide
    have hm : c ∈ ['"', '\x60', ']'] := by rcases he with rfl | rfl <;> simp
    exact quotedRest_keeps (h.not_heads hj) (hc c hm) u hv
  · intro _ hv
    refine ite_keeps ?_ (fun _ _ => rfl) hv
    intro _ hv
    exact bracketRest_keeps (hc ']' (by simp)) hv

theorem plainName_keeps (h : Detaches v w) : Keeps plainName u v w := by
  intro hu
  cases u with
  | nil =>
    have hv : heads isNameStart v = false := by
      cases v with
      | nil => rfl
      | cons c v =>
        simp only [List.nil_append, plainName_cons, List.length_nil] at hu
        split at hu
        · omega
        · simp_all
    have hw : heads isNameStart w = false := Bool.eq_false_iff.2 fun hw => by
      simp [h.nameStart hw] at hv
    cases v <;> cases w <;> simp_all [plainName]
  | cons c u =>
    simp only [List.cons_append, plainName_cons, List.length_cons] at hu ⊢
    refine ite_keeps ?_ (fun _ _ => rfl) hu
    intro _ hu
    rw [run_keeps h.namePart (by omega)]

theorem name_keeps (h : Detaches v w) (hu : u ≠ []) : Keeps name u v w := by
  intro hv
  obtain ⟨c, u, rfl⟩ := List.exists_cons_of_ne_nil hu
  simp only [List.cons_append, name_cons, List.length_cons] at hv ⊢
  refine ite_keeps ?_ ?_ hv
  · intro _ hv
    cases u with
    | nil =>
      have hw : heads (· == '@') w = false := h.not_heads (by decide)
      have hv' : plainName v = 0 := by
        split at hv
        · next hd =>
          obtain ⟨d, t, rfl, hd⟩ := heads_iff.1 hd
          rw [plainName_cons, eq_of_beq hd]
          rfl
        · exact eq_zero_of_lead_le hv
      have hw' : plainName w = 0 := by
        rw [← hv']
        exact plainName_keeps h (u := []) (Nat.le_of_eq hv')
      simp only [List.nil_append, List.length_nil] at hv ⊢
      rw [hw, hv', hw', lead_zero]
      by_cases hd : heads (· == '@') v = true
      · rw [if_pos hd] at hv
        rw [if_pos hd, eq_zero_of_lead_le (Nat.le_succ_of_le hv)]
        simp
      · rw [if_neg hd]
        simp
    | cons d u =>
      simp only [List.cons_append, heads_cons, List.tail_cons, List.length_cons] at hv ⊢
      refine ite_keeps ?_ ?_ hv
      · intro _ hv
        exact (plainName_keeps h).lead (by omega)
      · intro _ hv
        exact (plainName_keeps h (u := d :: u)).lead
          (by simp only [List.cons_append, List.length_cons]; omega)
  · intro _ hv
    exact plainName_keeps h (u := c :: u) hv

theorem operator_keeps (h : Detaches v w) (hu : u ≠ []) : Keeps operator u v w := by
  intro hv
  obtain ⟨c, u, rfl⟩ := List.exists_cons_of_ne_nil hu
  simp only [List.cons_append, operator_cons, List.length_cons] at hv ⊢
  cases u with
  | nil =>
    have hw : heads (isPairOperator c) w = false :=
      heads_mono (fun d hd => by
        have : d = '=' ∨ d = '>' := by grind [isPairOperator]
        rcases this with rfl | rfl <;> decide) h.joint
    simp only [List.nil_append] at hv ⊢
    split at hv
    · simp at hv
    · next hp => simp [hp, hw]
  | cons d u => rfl

end QueryLabel.Rule
