import QueryLabel.Proofs.Lexeme.First
import QueryLabel.Proofs.Statement.Script
import QueryLabel.Proofs.Summary.Origin

/-! How summaries begin. A piece that opens with a parenthesis is an operator and is not shown, so
no summary begins with one. -/

namespace QueryLabel

variable {s u : List Char} {l : Lexeme} {t : Token} {ws : List String} {w sql : String}

theorem Lexeme.role_of_parenthesis (hl : l ∈ list s) (h : l.text = '(' :: u) :
    l.role = .token .operator := by
  obtain ⟨as, bs, hs⟩ := List.append_of_mem hl
  have hlist : list ((l :: bs).flatMap text) = l :: bs := list_flatMap_text hs
  rw [List.flatMap_cons, h, List.cons_append, list_cons] at hlist
  obtain rfl := (List.cons.inj hlist).1
  have hcomment : Rule.comment ('(' :: (u ++ bs.flatMap text)) = 0 := by
    simp [Rule.comment_cons]
  exact congrArg Prod.fst (measure_loneOperator (by decide) hcomment)

namespace Summary

theorem kind_of_parenthesis (ht : t ∈ tokenize sql) (h : t.text.toList = '(' :: u) :
    t.kind = .operator := by
  obtain ⟨l, hl, hlt⟩ := List.mem_filterMap.1 ht
  obtain ⟨hrole, htext⟩ := Lexeme.token?_eq_some_iff.1 hlt
  have hl' : l.text = '(' :: u := by rw [← h, htext, String.toList_ofList]
  have hop := Lexeme.role_of_parenthesis hl hl'
  rw [hrole] at hop
  exact Role.token.inj hop

/-- No word of a summary is empty or begins with a parenthesis. -/
theorem head_of_mem_parts (h : w ∈ parts (tokenize sql)) :
    ∃ c, w.toList.head? = some c ∧ c ≠ '(' := by
  obtain ⟨t, ht, rfl⟩ := List.mem_map.1 h
  have hmem : t ∈ tokenize sql := selectFrom_sublist.mem ht
  cases hw : t.text.toList with
  | nil => exact absurd (String.toList_eq_nil_iff.1 hw) (Statement.text_ne_empty hmem)
  | cons c u =>
    refine ⟨c, rfl, ?_⟩
    rintro rfl
    have hkind := kind_of_parenthesis hmem hw
    rcases kind_of_mem_selectFrom ht with hk | hk | hk <;> simp [hk] at hkind

theorem head?_intercalate {c : Char} (h : w.toList.head? = some c) :
    (" ".intercalate (w :: ws)).toList.head? = some c := by
  cases ws with
  | nil => rwa [String.intercalate_singleton]
  | cons w' ws =>
    rw [String.intercalate_cons_cons, String.toList_append, String.toList_append,
      List.append_assoc, List.head?_append, h]
    rfl

/-- A summary does not begin with a parenthesis. -/
theorem head?_ofQuery (sql : String) : (ofQuery sql).toList.head? ≠ some '(' := by
  rw [ofQuery, ofTokens]
  cases hparts : parts (tokenize sql) with
  | nil => decide
  | cons w ws =>
    obtain ⟨c, hc, hne⟩ := head_of_mem_parts (hparts ▸ List.mem_cons_self)
    rw [head?_intercalate hc]
    simpa using hne

end Summary

end QueryLabel
