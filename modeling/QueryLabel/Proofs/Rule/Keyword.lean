import QueryLabel.Proofs.Rule.Keeps

/-! Keywords before exchanged text. A keyword looks one character past its end, and letters are
all that it is made of. -/

namespace QueryLabel.Keyword
open Rule

variable {c : Char} {s u v w x : List Char} {xs : List (List Char)}

/-- Whether a text as a whole is a reserved word, up to case. -/
def isReserved (s : List Char) : Bool :=
  reserved.any fun word => s.map fold == word.toList.map fold

theorem endsWord_append (h : endsWord w = endsWord v) : endsWord (s ++ w) = endsWord (s ++ v) := by
  cases s with
  | nil => exact h
  | cons c s => rfl

theorem length_le_of_startsWith (h : startsWith x s) : x.length ≤ s.length := by
  have hl := congrArg List.length (eq_of_beq h)
  simp only [List.length_map, List.length_take] at hl
  omega

/-- What reads as a letter of a keyword may begin a name. -/
theorem isNameStart_of_fold (h : (fold c).isAlpha) : isNameStart c := by
  unfold fold at h
  split at h
  · next hc =>
    obtain rfl := eq_of_beq hc
    decide +kernel
  · split at h
    · next hc =>
      obtain rfl := eq_of_beq hc
      decide +kernel
    · have halpha : c.isAlpha := by
        by_cases hu : 65 ≤ c.val ∧ c.val ≤ 90
        · exact Bool.or_eq_true_iff.2 (.inl (decide_eq_true hu))
        · have hc : c.toLower = c := dif_neg hu
          rwa [hc] at h
      simp [isNameStart, Charset.isLetter_of_isAlpha halpha]

theorem letters_of_reserved : ∀ x ∈ reserved.map String.toList, ∀ c ∈ x, (fold c).isAlpha := by
  have h : (reserved.map String.toList).all (·.all fun c => (fold c).isAlpha) := by decide
  simpa only [List.all_eq_true] using h

/-- Of a text that is long enough for the word, only what follows the word is looked at. -/
theorem matchesWord_of_length_le (hx : x.length ≤ u.length) :
    matchesWord x (u ++ v) = (startsWith x u && endsWord (u.drop x.length ++ v)) := by
  rw [matchesWord, startsWith, startsWith, List.take_append_of_le_length hx,
    List.drop_append_of_le_length hx]

theorem matchesWord_append (h : endsWord w = endsWord v) (hx : x.length ≤ u.length) :
    matchesWord x (u ++ w) = matchesWord x (u ++ v) := by
  rw [matchesWord_of_length_le hx, matchesWord_of_length_le hx, endsWord_append h]

/-- No letter begins `w`, so a word cannot go on into it. -/
theorem not_matchesWord (h : Detaches v w) (ha : ∀ c ∈ x, (fold c).isAlpha)
    (hx : u.length < x.length) : matchesWord x (u ++ w) = false := by
  refine Bool.eq_false_iff.2 fun hm => ?_
  have hs : startsWith x (u ++ w) := (Bool.and_eq_true_iff.1 hm).1
  cases w with
  | nil =>
    have := length_le_of_startsWith hs
    simp only [List.append_nil] at this
    omega
  | cons c w =>
    have hc := congrArg (fun l => l[u.length]?) (eq_of_beq hs)
    simp only [List.getElem?_map, List.getElem?_take, hx, if_true, List.getElem?_append_right
      (Nat.le_refl _), Nat.sub_self, List.getElem?_cons_zero, List.getElem?_eq_getElem hx,
      Option.map_some, Option.some.injEq] at hc
    have hf : (fold c).isAlpha := hc ▸ ha _ (List.getElem_mem hx)
    have hj := h.joint
    rw [heads_cons, isJoint, hf, Bool.or_true] at hj
    exact Bool.noConfusion hj

/-- A word that takes a part of `u` only does not see what follows `u`, and one that takes all of it
looks no further if `u` is another word. -/
theorem matchesWord_append_of_ne (hx : x.length ≤ u.length) (hu : u.map fold ≠ x.map fold) :
    matchesWord x (u ++ w) = matchesWord x (u ++ v) := by
  rw [matchesWord_of_length_le hx, matchesWord_of_length_le hx]
  cases hr : u.drop x.length with
  | cons c r => rfl
  | nil =>
    have hlen : u.length ≤ x.length := List.drop_eq_nil_iff.1 hr
    rw [startsWith, List.take_of_length_le hlen, beq_eq_false_iff_ne.2 hu, Bool.false_and,
      Bool.false_and]

theorem find?_matchesWord_append (h : Detaches v w) (ha : ∀ x ∈ xs, ∀ c ∈ x, (fold c).isAlpha)
    (hm : ∀ x ∈ xs, x.length ≤ u.length → matchesWord x (u ++ w) = matchesWord x (u ++ v))
    (hu : (xs.find? (matchesWord · (u ++ v))).elim 0 List.length ≤ u.length) :
    xs.find? (matchesWord · (u ++ w)) = xs.find? (matchesWord · (u ++ v)) := by
  induction xs with
  | nil => rfl
  | cons x xs ih =>
    have hx := hm x List.mem_cons_self
    have ih := ih (fun y hy => ha y (List.mem_cons_of_mem x hy))
      fun y hy => hm y (List.mem_cons_of_mem x hy)
    cases hv : matchesWord x (u ++ v) with
    | true =>
      simp only [List.find?_cons, hv] at hu ⊢
      rw [(hx hu).trans hv]
    | false =>
      have hw : matchesWord x (u ++ w) = false := by
        rcases Nat.lt_or_ge u.length x.length with hlt | hle
        · exact not_matchesWord h (ha x List.mem_cons_self) hlt
        · exact (hx hle).trans hv
      simp only [List.find?_cons, hv, hw] at hu ⊢
      exact ih hu

theorem length_keeps (h : Detaches v w) (hw : endsWord w = endsWord v) : Keeps length u v w := by
  intro hu
  unfold length at hu ⊢
  rw [find?_matchesWord_append h letters_of_reserved (fun x _ hx => matchesWord_append hw hx) hu]

/-- Where a text is no reserved word, it does not matter whether a word could end behind it. -/
theorem length_keeps_of_not_isReserved (h : Detaches v w) (hr : isReserved u = false) :
    Keeps length u v w := by
  have hne : ∀ x ∈ reserved.map String.toList, u.map fold ≠ x.map fold := by
    simpa [isReserved] using hr
  intro hu
  unfold length at hu ⊢
  rw [find?_matchesWord_append h letters_of_reserved
    (fun x hm hx => matchesWord_append_of_ne hx (hne x hm)) hu]

/-- A keyword is taken only where it ends. -/
theorem endsWord_of_length (h : length (u ++ v) = u.length) (hu : u ≠ []) : endsWord v := by
  unfold length at h
  cases hx : (reserved.map String.toList).find? (matchesWord · (u ++ v)) with
  | none =>
    rw [hx] at h
    exact absurd (List.eq_nil_of_length_eq_zero h.symm) hu
  | some x =>
    rw [hx] at h
    change x.length = u.length at h
    have hm : matchesWord x (u ++ v) := by simpa using List.find?_some hx
    rw [matchesWord_of_length_le (Nat.le_of_eq h), h, List.drop_length, List.nil_append] at hm
    exact (Bool.and_eq_true_iff.1 hm).2

/-- A reserved word begins with a letter. -/
theorem isNameStart_of_isReserved (h : isReserved (c :: s)) : isNameStart c := by
  obtain ⟨word, hmem, heq⟩ := List.any_eq_true.1 h
  have hmap : (c :: s).map fold = word.toList.map fold := eq_of_beq heq
  have hword : word.toList ∈ reserved.map String.toList := List.mem_map_of_mem hmem
  cases hw : word.toList with
  | nil => rw [hw] at hmap; exact absurd hmap (List.cons_ne_nil _ _)
  | cons d t =>
    rw [hw] at hmap hword
    apply isNameStart_of_fold
    rw [(List.cons.inj hmap).1]
    exact letters_of_reserved _ hword d List.mem_cons_self

/-- Keywords begin with a letter. -/
theorem length_eq_zero (hc : (fold c).isAlpha = false) : length (c :: s) = 0 := by
  have hnone : ∀ x ∈ reserved.map String.toList, matchesWord x (c :: s) = false := by
    intro x hx
    refine Bool.eq_false_iff.2 fun hm => ?_
    have hs : startsWith x (c :: s) := (Bool.and_eq_true_iff.1 hm).1
    have hne : x ≠ [] := by
      rintro rfl
      exact absurd hx (by decide)
    obtain ⟨d, t, rfl⟩ := List.exists_cons_of_ne_nil hne
    have hd : fold c = fold d := (List.cons.inj (eq_of_beq hs)).1
    rw [hd, letters_of_reserved _ hx d List.mem_cons_self] at hc
    exact Bool.noConfusion hc
  unfold length
  rw [List.find?_eq_none.2 (by simpa using hnone)]
  rfl

theorem length_le : length s ≤ s.length := by
  unfold length
  cases h : (reserved.map String.toList).find? (matchesWord · s) with
  | none => exact Nat.zero_le _
  | some x =>
    have hx : matchesWord x s := by simpa using List.find?_some h
    exact length_le_of_startsWith (Bool.and_eq_true_iff.1 hx).1

end QueryLabel.Keyword
