import QueryLabel.Charset.Blank
import Mathlib.Data.List.DropRight
import Mathlib.Data.List.Infix

/-! Trimming. A text is what is left of it when it is trimmed, between blanks, and there is one such
way to see it. -/

namespace QueryLabel.Charset

variable {s front back : List Char} {c : Char}

theorem rdropWhile_append_blank (hback : ∀ c ∈ back, isBlank c)
    (hs : ∀ c ∈ s.getLast?, isBlank c = false) : (s ++ back).rdropWhile isBlank = s := by
  have hr : ∀ c ∈ back.reverse, isBlank c := fun c hc => hback c (List.mem_reverse.1 hc)
  have hself : s.rdropWhile isBlank = s := by
    apply List.rdropWhile_eq_self_iff.2
    intro hne
    simpa using hs _ (List.getLast?_eq_some_getLast hne)
  rw [List.rdropWhile, List.reverse_append, List.dropWhile_append_of_pos hr]
  exact hself

/-- No blank stands at an end of a trimmed text. -/
theorem not_isBlank_of_trim (h : c ∈ (trim s).head? ∨ c ∈ (trim s).getLast?) :
    isBlank c = false := by
  rcases h with h | h
  · obtain ⟨t, ht⟩ := List.rdropWhile_prefix isBlank (s.dropWhile isBlank)
    have hc : (s.dropWhile isBlank).head? = some c := by
      rw [← ht, List.head?_append]
      exact Option.or_eq_some_iff.2 (.inl h)
    have := List.head?_dropWhile_not isBlank s
    rwa [hc] at this
  · obtain ⟨hne, rfl⟩ := List.mem_getLast?_eq_getLast h
    exact Bool.eq_false_iff.2 (List.rdropWhile_last_not isBlank (s.dropWhile isBlank) hne)

/-- Trimming takes blanks off the front first and then off the end. -/
theorem exists_dropWhile_eq_trim_append (s : List Char) :
    ∃ w, (∀ c ∈ w, isBlank c) ∧ s.dropWhile isBlank = trim s ++ w :=
  ⟨(s.dropWhile isBlank).rtakeWhile isBlank, fun _ => List.mem_rtakeWhile_imp,
    (List.rdropWhile_append_rtakeWhile ..).symm⟩

theorem trim_infix : trim s <:+: s :=
  (List.rdropWhile_prefix isBlank (s.dropWhile isBlank)).isInfix.trans
    (List.dropWhile_suffix isBlank).isInfix

theorem exists_eq_append_trim (s : List Char) : ∃ front back,
    (∀ c ∈ front, isBlank c) ∧ (∀ c ∈ back, isBlank c) ∧ s = front ++ (trim s ++ back) := by
  obtain ⟨back, hback, hs⟩ := exists_dropWhile_eq_trim_append s
  refine ⟨s.takeWhile isBlank, back, fun c => List.mem_takeWhile_imp, hback, ?_⟩
  rw [← hs, List.takeWhile_append_dropWhile]

theorem trim_append (hfront : ∀ c ∈ front, isBlank c) (hback : ∀ c ∈ back, isBlank c)
    (hs : ∀ c, c ∈ s.head? ∨ c ∈ s.getLast? → isBlank c = false) :
    trim (front ++ (s ++ back)) = s := by
  have hdrop : (front ++ (s ++ back)).dropWhile isBlank = (s ++ back).dropWhile isBlank :=
    List.dropWhile_append_of_pos hfront
  change ((front ++ (s ++ back)).dropWhile isBlank).rdropWhile isBlank = s
  rw [hdrop]
  cases s with
  | nil =>
    rw [List.nil_append, List.dropWhile_eq_nil_iff.2 hback]
    rfl
  | cons c s =>
    have hc : isBlank c = false := hs c (.inl rfl)
    rw [List.cons_append, List.dropWhile_cons_of_neg (by simp [hc]), ← List.cons_append]
    exact rdropWhile_append_blank hback fun d hd => hs d (.inr hd)

end QueryLabel.Charset
