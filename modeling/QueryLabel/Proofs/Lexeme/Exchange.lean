import QueryLabel.Lexeme.Basic
import QueryLabel.Proofs.Rule.Keyword
import QueryLabel.Proofs.Rule.Number
import Mathlib.Data.List.Nodup

/-! Exchange of the text behind a piece. The pieces of a text up to some place stay as they are
when the text from there on is exchanged for one that offers them no more. -/

namespace QueryLabel.Lexeme
open Rule

variable {s t u v w : List Char} {l : Lexeme} {ls ms : List Lexeme}
  {rules : List (Role × (List Char → Nat))}

/-- The outcome of the first rule that applies. -/
def pick (rules : List (Role × (List Char → Nat))) (s : List Char) : Role × Nat :=
  (rules.findSome? fun (role, length) =>
    match length s with
    | 0 => none
    | n => some (role, n)).getD (.unknown, 1)

theorem measure_eq_pick : measure s = pick Rule.all s := rfl

theorem pick_cons {rule : Role × (List Char → Nat)} :
    pick (rule :: rules) s = if rule.2 s = 0 then pick rules s else (rule.1, rule.2 s) := by
  unfold pick
  rw [List.findSome?_cons]
  cases h : rule.2 s <;> simp [h]

theorem pick_keeps (hr : ∀ rule ∈ rules, Keeps rule.2 u v w)
    (hm : (pick rules (u ++ v)).2 ≤ u.length) : pick rules (u ++ w) = pick rules (u ++ v) := by
  induction rules with
  | nil => rfl
  | cons rule rules ih =>
    have hk := hr rule List.mem_cons_self
    rw [pick_cons] at hm ⊢
    rw [pick_cons]
    by_cases hz : rule.2 (u ++ v) = 0
    · rw [if_pos hz] at hm ⊢
      rw [hk (by omega), if_pos hz, ih (fun r hr' => hr r (List.mem_cons_of_mem _ hr')) hm]
    · rw [if_neg hz] at hm ⊢
      rw [hk hm, if_neg hz]

theorem pick_le (hr : ∀ rule ∈ rules, rule.2 s ≤ s.length) (hs : s ≠ []) :
    (pick rules s).2 ≤ s.length := by
  induction rules with
  | nil => exact List.length_pos_iff.2 hs
  | cons rule rules ih =>
    rw [pick_cons]
    split
    · exact ih fun r hr' => hr r (List.mem_cons_of_mem _ hr')
    · exact hr rule List.mem_cons_self

theorem exists_of_pick {role : Role} {n : Nat} (h : pick rules s = (role, n))
    (hr : role ≠ .unknown) : ∃ rule ∈ rules, rule.1 = role ∧ rule.2 s = n ∧ n ≠ 0 := by
  induction rules with
  | nil => exact absurd (congrArg Prod.fst h).symm hr
  | cons rule rules ih =>
    rw [pick_cons] at h
    split at h
    · obtain ⟨rule', hm, hrule⟩ := ih h
      exact ⟨rule', List.mem_cons_of_mem rule hm, hrule⟩
    · next hz =>
      obtain ⟨rfl, rfl⟩ := Prod.mk.inj h
      exact ⟨rule, List.mem_cons_self, rfl, rfl, hz⟩

/-- The role of a piece tells which rule took it. -/
theorem of_measure {r : Role × (List Char → Nat)} {n : Nat} (hm : r ∈ Rule.all)
    (h : measure s = (r.1, n)) : r.2 s = n ∧ n ≠ 0 := by
  have hu : ∀ r ∈ Rule.all, r.1 ≠ .unknown := by simp [Rule.all]
  have hn : (Rule.all.map Prod.fst).Nodup := by decide
  obtain ⟨r', hm', hr, hs⟩ := exists_of_pick (measure_eq_pick ▸ h) (hu r hm)
  obtain rfl := List.inj_on_of_nodup_map hn hm' hm hr
  exact hs

/-- Numbers, names and operators do not see past a detached text, so the other rules decide whether
the first piece is kept. -/
theorem measure_of_detaches (h : Detaches v w) (hu : u ≠ []) (hb : Keeps blank u v w)
    (hc : Keeps comment u v w) (hs : Keeps string u v w) (hq : Keeps quotedName u v w)
    (hk : Keeps Keyword.length u v w) (hm : (measure (u ++ v)).2 ≤ u.length) :
    measure (u ++ w) = measure (u ++ v) := by
  refine pick_keeps ?_ hm
  simp only [Rule.all, List.forall_mem_cons]
  exact ⟨hb, hc, number_keeps h hu, hs, hq, hk, name_keeps h hu, operator_keeps h hu, by simp⟩

theorem measure_keeps (h : Narrows v w) (hu : u ≠ [])
    (hm : (measure (u ++ v)).2 ≤ u.length) : measure (u ++ w) = measure (u ++ v) := by
  have hd : Detaches v w := h.toDetaches
  exact measure_of_detaches hd hu (run_keeps h.blank) (comment_keeps hd h.line h.comment hu)
    (string_keeps h.quote h.nil hu) (quotedName_keeps hd h.closing hu)
    (Keyword.length_keeps hd h.word) hm

theorem measure_le (hs : s ≠ []) : (measure s).2 ≤ s.length := by
  refine pick_le ?_ hs
  simp only [Rule.all, List.forall_mem_cons]
  exact ⟨run_le, comment_le, number_le, string_le, quotedName_le, Keyword.length_le, name_le,
    operator_le, by simp⟩

theorem token?_eq_some_iff {x : Token} :
    l.token? = some x ↔ l.role = .token x.kind ∧ x.text = String.ofList l.text := by
  obtain ⟨role, text⟩ := l
  obtain ⟨kind, text'⟩ := x
  cases role <;> simp [token?, eq_comm]

theorem length_text_first (hs : s ≠ []) : (first s).text.length = (measure s).2 :=
  List.length_take_of_le (measure_le hs)

theorem list_of_ne_nil (hs : s ≠ []) : list s = first s :: list (s.drop (measure s).2) := by
  obtain ⟨c, s, rfl⟩ := List.exists_cons_of_ne_nil hs
  exact list_cons

theorem list_eq_cons (h : list s = l :: ls) :
    s ≠ [] ∧ measure s = (l.role, l.text.length) ∧ ∃ t, s = l.text ++ t ∧ list t = ls := by
  have hs : s ≠ [] := by
    rintro rfl
    simp [list_nil] at h
  rw [list_of_ne_nil hs] at h
  obtain ⟨rfl, rfl⟩ := List.cons.inj h
  refine ⟨hs, ?_, s.drop (measure s).2, (List.take_append_drop _ _).symm, rfl⟩
  rw [length_text_first hs]
  rfl

theorem list_of_measure {role : Role} (hu : u ≠ []) (h : measure (u ++ v) = (role, u.length)) :
    list (u ++ v) = ⟨role, u⟩ :: list v := by
  rw [list_of_ne_nil (by simp [hu]), first, h]
  simp

/-- What stands behind a piece is read as if nothing stood before it. -/
theorem list_flatMap_text (h : list s = ls ++ ms) : list (ms.flatMap text) = ms := by
  induction ls generalizing s with
  | nil => rw [← (show list s = ms from h), flatMap_text_list]
  | cons l ls ih =>
    obtain ⟨_, _, t, _, ht⟩ := list_eq_cons h
    exact ih ht

theorem text_ne_nil (h : l ∈ list s) : l.text ≠ [] := by
  obtain ⟨ls, ms, hs⟩ := List.append_of_mem h
  obtain ⟨_, hm, _⟩ := list_eq_cons (list_flatMap_text hs)
  have hp := measure_pos (s := (l :: ms).flatMap text)
  rw [hm] at hp
  exact List.ne_nil_of_length_pos hp

theorem list_append_of_narrows (h : Narrows v w)
    (hl : list (ls.flatMap text ++ v) = ls ++ list v) :
    list (ls.flatMap text ++ w) = ls ++ list w := by
  induction ls with
  | nil => rfl
  | cons l ls ih =>
    rw [List.flatMap_cons, List.append_assoc] at hl ⊢
    obtain ⟨_, hm, t, ht, htl⟩ := list_eq_cons hl
    obtain rfl := List.append_cancel_left ht
    have hu : l.text ≠ [] := text_ne_nil (by rw [hl]; exact List.mem_cons_self)
    have hm' : measure (l.text ++ (ls.flatMap text ++ w)) = (l.role, l.text.length) := by
      rw [← List.append_assoc] at hm ⊢
      rw [measure_keeps h (by simp [hu]) (by rw [hm, List.length_append]; omega), hm]
    rw [list_of_measure hu hm', ih htl]
    rfl

/-- The pieces up to some place do not depend on what is exchanged behind it. -/
theorem list_exchange (hs : list s = ls ++ ms) (h : Narrows (ms.flatMap text) w) :
    list (ls.flatMap text ++ w) = ls ++ list w := by
  refine list_append_of_narrows h ?_
  rw [list_flatMap_text hs, ← hs, ← List.flatMap_append, ← hs, flatMap_text_list]

end QueryLabel.Lexeme
