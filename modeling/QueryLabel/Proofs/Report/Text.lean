import QueryLabel.Proofs.Summary.Opening
import QueryLabel.Report.Basic

/-! Reports as text tell summaries apart. A line says its number, which ends at the first point, and
behind it the summary, or in place of an empty one a placeholder, which is no summary. -/

namespace QueryLabel.Report

namespace Text

variable {i j : Nat} {c : Char} {s t u v : List Char} {summary summary' sql : String} {r : Record}
  {front records : List Record} {xs ys : List String} {styled : Bool}

/-- What a line says behind its number. -/
def label (summary : String) : List Char :=
  if summary.isEmpty then placeholder else summary.toList

/-- How it is shown. -/
def labelStyle (summary : String) : Style :=
  if summary.isEmpty then .dim else .bold

theorem line_eq : line styled r = Style.applyIf styled .dim (number r.index) ++
    ' ' :: Style.applyIf styled (labelStyle r.summary) (label r.summary) ++ ['\n'] := by
  unfold line label labelStyle
  split <;> rfl

theorem line_plain : line false r = number r.index ++ ' ' :: (label r.summary ++ ['\n']) := by
  rw [line_eq, Style.applyIf_false, Style.applyIf_false, List.append_assoc, List.cons_append]

/-- A text is cut in one way only at the first occurrence of a character. -/
theorem eq_of_append_cons (hs : c ∉ s) (ht : c ∉ t) (h : s ++ c :: u = t ++ c :: v) :
    s = t ∧ u = v := by
  induction s generalizing t with
  | nil =>
    cases t with
    | nil => exact ⟨rfl, (List.cons.inj h).2⟩
    | cons d t => exact absurd ((List.cons.inj h).1 ▸ List.mem_cons_self) ht
  | cons d s ih =>
    cases t with
    | nil => exact absurd ((List.cons.inj h).1 ▸ List.mem_cons_self) hs
    | cons e t =>
      obtain ⟨rfl, htail⟩ := List.cons.inj h
      obtain ⟨rfl, rfl⟩ :=
        ih (List.not_mem_of_not_mem_cons hs) (List.not_mem_of_not_mem_cons ht) htail
      exact ⟨rfl, rfl⟩

theorem mem_padded {k n : Nat} (h : c ∈ List.replicate k ' ' ++ n.repr.toList) :
    c = ' ' ∨ c.isDigit :=
  (List.mem_append.1 h).imp List.eq_of_mem_replicate Digits.isDigit_of_mem_repr

/-- A number ends at its point, whatever its width. -/
theorem eq_of_number_append (h : number i ++ s = number j ++ t) : s = t := by
  have hpoint : ∀ k n : Nat, '.' ∉ List.replicate k ' ' ++ n.repr.toList := by
    intro k n hmem
    rcases mem_padded hmem with hc | hc <;> exact absurd hc (by decide)
  simp only [number, List.append_assoc _ _ s, List.append_assoc _ _ t, List.singleton_append] at h
  exact (eq_of_append_cons (hpoint _ _) (hpoint _ _) h).2

/-- A summary that stands on one line and does not begin like the placeholder. -/
structure Legible (summary : String) : Prop where
  opening : summary.toList.head? ≠ some '('
  line : '\n' ∉ summary.toList

/-- The placeholder is not taken for a summary. -/
theorem label_injective (hs : Legible summary) (ht : Legible summary')
    (h : label summary = label summary') : summary = summary' := by
  have hopen : placeholder.head? = some '(' := rfl
  unfold label at h
  split at h <;> split at h
  · next hs ht => rw [String.isEmpty_iff.1 hs, String.isEmpty_iff.1 ht]
  · exact absurd (h ▸ hopen) ht.opening
  · exact absurd (h ▸ hopen) hs.opening
  · exact String.toList_inj.1 h

/-- Nor is a line with a summary begun like one with the placeholder. -/
theorem label_append_ne (hne : summary ≠ "") (hs : summary.toList.head? ≠ some '(') :
    label summary ++ s ≠ placeholder ++ t := by
  intro h
  have hempty : summary.isEmpty = false := by simpa using hne
  have hlabel : label summary = summary.toList := by rw [label, hempty]; rfl
  cases hc : summary.toList with
  | nil => exact hne (String.toList_eq_nil_iff.1 hc)
  | cons c u =>
    rw [hlabel, hc] at h
    obtain rfl : c = '(' := (List.cons.inj h).1
    exact hs (by rw [hc]; rfl)

theorem Legible.newline_not_mem_label (h : Legible summary) : '\n' ∉ label summary := by
  unfold label
  split
  · decide
  · exact h.line

theorem newline_mem_line : '\n' ∈ line styled r := by
  rw [line_eq]
  simp

theorem render_append_cons : render styled (front ++ r :: records) =
    front.flatMap (line styled) ++ (line styled r ++ records.flatMap (line styled)) := by
  rw [← List.flatMap_cons, ← List.flatMap_append]
  cases front <;> rfl

theorem render_cons_ne_nil : render styled (r :: records) ≠ render styled [] := by
  intro h
  have hmem : '\n' ∈ render styled ([] ++ r :: records) := by
    rw [render_append_cons]
    exact List.mem_append_right _ (List.mem_append_left _ newline_mem_line)
  have hnothing : '\n' ∉ nothing := by decide
  rw [List.nil_append, h] at hmem
  exact hnothing hmem

/-- Lines are told apart one after another, as their numbers are the same. -/
theorem flatMap_line_injective (hx : ∀ s ∈ xs, Legible s) (hy : ∀ s ∈ ys, Legible s)
    (h : (Record.numberFrom i xs).flatMap (line false) =
      (Record.numberFrom i ys).flatMap (line false)) : xs = ys := by
  induction xs generalizing i ys with
  | nil =>
    cases ys with
    | nil => rfl
    | cons y ys => simp [Record.numberFrom, line_plain] at h
  | cons x xs ih =>
    cases ys with
    | nil => simp [Record.numberFrom, line_plain] at h
    | cons y ys =>
      obtain ⟨hlx, hx⟩ := List.forall_mem_cons.1 hx
      obtain ⟨hly, hy⟩ := List.forall_mem_cons.1 hy
      simp only [Record.numberFrom, List.flatMap_cons, line_plain, List.append_assoc,
        List.cons_append, List.append_cancel_left_eq, List.cons.injEq, true_and,
        List.nil_append] at h
      obtain ⟨hlabel, hrest⟩ :=
        eq_of_append_cons hlx.newline_not_mem_label hly.newline_not_mem_label h
      rw [label_injective hlx hly hlabel, ih hx hy hrest]

theorem render_number_injective (hx : ∀ s ∈ xs, Legible s) (hy : ∀ s ∈ ys, Legible s)
    (h : render false (Record.number xs) = render false (Record.number ys)) : xs = ys := by
  cases xs with
  | nil =>
    cases ys with
    | nil => rfl
    | cons => exact absurd h.symm render_cons_ne_nil
  | cons =>
    cases ys with
    | nil => exact absurd h render_cons_ne_nil
    | cons => exact flatMap_line_injective hx hy h

end Text

open Summary (ofQuery)

/-- A report as text without styles tells labels apart, where a label is the summary of a query that
stands on one line. No summary that says something is shown like an empty one, whatever stands
before it and behind; and a report on no statements is like no other. -/
theorem text_tells_labels_apart (terminal terminal' : Bool) {xs ys : List String}
    (hx : ∀ s ∈ xs, (∃ sql, s = ofQuery sql) ∧ '\n' ∉ s.toList)
    (hy : ∀ s ∈ ys, (∃ sql, s = ofQuery sql) ∧ '\n' ∉ s.toList) :
    (render terminal ⟨.text, false⟩ (Record.number xs) =
      render terminal' ⟨.text, false⟩ (Record.number ys) ↔ xs = ys) ∧
    (∀ front sql i j rs rs', ofQuery sql ≠ "" →
      render terminal ⟨.text, false⟩ (front ++ ⟨i, ofQuery sql⟩ :: rs) ≠
        render terminal' ⟨.text, false⟩ (front ++ ⟨j, ""⟩ :: rs')) ∧
    ∀ r rs, render terminal ⟨.text, false⟩ (r :: rs) ≠ render terminal' ⟨.text, false⟩ [] := by
  have hlegible {zs : List String} (h : ∀ s ∈ zs, (∃ sql, s = ofQuery sql) ∧ '\n' ∉ s.toList) :
      ∀ s ∈ zs, Text.Legible s := by
    intro s hs
    obtain ⟨⟨sql, rfl⟩, hline⟩ := h s hs
    exact ⟨Summary.head?_ofQuery sql, hline⟩
  refine ⟨⟨?_, ?_⟩, ?_, ?_⟩
  · intro h
    exact Text.render_number_injective (hlegible hx) (hlegible hy) (String.ofList_inj.1 h)
  · rintro rfl
    rfl
  · intro front sql i j rs rs' hne h
    have hchars : Text.render false (front ++ ⟨i, ofQuery sql⟩ :: rs) =
        Text.render false (front ++ ⟨j, ""⟩ :: rs') := String.ofList_inj.1 h
    rw [Text.render_append_cons, Text.render_append_cons] at hchars
    replace hchars := List.append_cancel_left hchars
    simp only [Text.line_plain, List.append_assoc, List.cons_append] at hchars
    have hlabels := (List.cons.inj (Text.eq_of_number_append hchars)).2
    exact Text.label_append_ne hne (Summary.head?_ofQuery sql) hlabels
  · intro r rs h
    exact Text.render_cons_ne_nil (String.ofList_inj.1 h)

/-- A collection called like the placeholder, before and behind a query that shows nothing. -/
theorem text_tells_labels_apart_placeholder :
    let name := "[(no summary)]"
    (∀ s ∈ [name, ""], (∃ sql, s = ofQuery sql) ∧ '\n' ∉ s.toList) ∧
      (∀ s ∈ ["", name], (∃ sql, s = ofQuery sql) ∧ '\n' ∉ s.toList) ∧
      render true ⟨.text, false⟩ (Record.number [name, ""]) ≠
        render false ⟨.text, false⟩ (Record.number ["", name]) ∧
      ofQuery "FROM [(no summary)]" ≠ "" ∧
      render true ⟨.text, false⟩ [⟨0, ""⟩, ⟨1, ofQuery "FROM [(no summary)]"⟩, ⟨2, ""⟩] ≠
        render false ⟨.text, false⟩ [⟨0, ""⟩, ⟨1, ""⟩] := by
  intro name
  have hname : (∃ sql, name = ofQuery sql) ∧ '\n' ∉ name.toList :=
    ⟨⟨"FROM [(no summary)]", by decide⟩, by decide⟩
  have hempty : (∃ sql, "" = ofQuery sql) ∧ '\n' ∉ "".toList :=
    ⟨⟨"-- FROM t", by decide⟩, by decide⟩
  have hx : ∀ s ∈ [name, ""], (∃ sql, s = ofQuery sql) ∧ '\n' ∉ s.toList :=
    List.forall_mem_cons.2 ⟨hname, List.forall_mem_singleton.2 hempty⟩
  have hy : ∀ s ∈ ["", name], (∃ sql, s = ofQuery sql) ∧ '\n' ∉ s.toList :=
    List.forall_mem_cons.2 ⟨hempty, List.forall_mem_singleton.2 hname⟩
  have hne : ofQuery "FROM [(no summary)]" ≠ "" := by decide
  obtain ⟨hiff, hlabels, -⟩ := text_tells_labels_apart true false hx hy
  exact ⟨hx, hy, mt hiff.1 (by decide), hne, hlabels [⟨0, ""⟩] _ 1 1 [⟨2, ""⟩] [] hne⟩

end QueryLabel.Report
