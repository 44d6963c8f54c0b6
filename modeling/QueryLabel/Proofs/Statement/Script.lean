import QueryLabel.Proofs.Statement.Split
import QueryLabel.Proofs.Summary.Operation

/-! Summaries of scripts. If each statement begins with an operation, nothing of a statement shows
in the summary of the next one. -/

namespace QueryLabel.Statement
open Summary

variable {s : State} {sql st : String} {ts seg : List Token} {t : Token}

theorem selectFrom_splitOnP (hs : s ≠ .expectAlias)
    (h : ∀ seg ∈ ts.splitOnP (·.isOperator ";"), ∀ t ∈ seg.head?, (operation? t).isSome) :
    selectFrom s ts = (ts.splitOnP (·.isOperator ";")).flatMap (selectFrom .idle) := by
  induction ts using split_induction (p := fun t : Token => t.isOperator ";") generalizing s with
  | last ts hp =>
    rw [List.splitOnP_eq_singleton hp] at h ⊢
    rw [List.flatMap_singleton, selectFrom_of_operation (h ts (by simp)) hs]
  | next ts sep us hp hsep ih =>
    rw [List.splitOnP_append_cons_of_forall_mem hp sep hsep] at h ⊢
    -- the semicolon may itself be taken for an alias, but none is expected behind it
    obtain ⟨hshown, halias⟩ := step_semicolon (s := after s ts) hsep
    rw [selectFrom_append, selectFrom_of_operation (h ts List.mem_cons_self) hs, selectFrom, hshown,
      if_neg Bool.false_ne_true, ih halias fun seg hm => h seg (List.mem_cons_of_mem _ hm),
      List.flatMap_cons]

theorem text_ne_empty (h : t ∈ tokenize sql) : t.text ≠ "" := by
  obtain ⟨l, hl, hlt⟩ := List.mem_filterMap.1 h
  rw [(Lexeme.token?_eq_some_iff.1 hlt).2]
  simpa using Lexeme.text_ne_nil hl

theorem mem_tokenize (hseg : seg ∈ tokenSegments sql) (ht : t ∈ seg) : t ∈ tokenize sql := by
  obtain ⟨as, bs, hs, _⟩ := exists_of_mem_splitOnP (List.mem_filter.1 hseg).1
  simp [hs, ht]

theorem parts_tokenize (h : ∀ seg ∈ tokenSegments sql, ∀ t ∈ seg.head?, (operation? t).isSome) :
    parts (tokenize sql) = ((tokenSegments sql).map parts).flatten := by
  have hall : ∀ seg ∈ (tokenize sql).splitOnP (·.isOperator ";"), ∀ t ∈ seg.head?,
      (operation? t).isSome := by
    intro seg hseg t ht
    have hne : seg ≠ [] := by
      rintro rfl
      simp at ht
    exact h seg (List.mem_filter.2 ⟨hseg, by simpa using hne⟩) t ht
  rw [parts, selectFrom_splitOnP (by simp) hall, tokenSegments]
  generalize (tokenize sql).splitOnP (·.isOperator ";") = segs
  induction segs with
  | nil => rfl
  | cons seg segs ih =>
    cases seg <;> simp_all [parts, selectFrom]

/-- Trimming does not touch the keyword that begins a statement. -/
theorem head_of_shorn (h : ∀ t ∈ (seg.map Token.shorn).head?, t.isAnyKeyword operationWords) :
    ∀ t ∈ seg.head?, (operation? t).isSome := by
  intro t ht
  have hk : t.shorn.isAnyKeyword operationWords :=
    h t.shorn (by rw [List.head?_map]; exact Option.mem_map_of_mem Token.shorn ht)
  have ho : t.isOpen = false := by
    obtain ⟨w, _, hw⟩ := Token.isAnyKeyword_iff.1 hk
    have : t.kind = .keyword := t.kind_shorn ▸ (Token.isKeyword_iff.1 hw).1
    simp [Token.isOpen, this]
  rw [Token.shorn_of_not_isOpen ho] at hk
  exact isSome_operation?_iff.2 hk

/-- The summary of a script whose statements begin with operations is made of their summaries. -/
theorem ofQuery_script
    (h : ∀ st ∈ split sql, (tokenize st).head?.any (·.isAnyKeyword operationWords)) :
    ofQuery sql = " ".intercalate (((split sql).map ofQuery).filter (· ≠ "")) := by
  have hheads : ∀ seg ∈ tokenSegments sql, ∀ t ∈ seg.head?, (operation? t).isSome := by
    intro seg hseg
    apply head_of_shorn
    intro t ht
    have hmem : seg.map Token.shorn ∈ (split sql).map tokenize := by
      rw [map_tokenize_split]
      exact List.mem_map_of_mem hseg
    obtain ⟨st, hst, hts⟩ := List.mem_map.1 hmem
    have hany := h st hst
    rw [hts, ht] at hany
    exact hany
  have hwords : ∀ ws ∈ (tokenSegments sql).map parts, ∀ w ∈ ws, w ≠ "" := by
    intro ws hws
    obtain ⟨seg, hseg, rfl⟩ := List.mem_map.1 hws
    exact parts_ne_empty fun t ht => text_ne_empty (mem_tokenize hseg ht)
  rw [map_ofQuery_split, ofQuery, ofTokens, parts_tokenize hheads, intercalate_flatten hwords,
    List.map_map]
  rfl

/-- Statements that end behind `AS`, behind `CREATE` and in the middle of a list, and one that shows
nothing. -/
theorem ofQuery_script_unfinished :
    let script := "SELECT a FROM t AS; create; FROM u,; IN; DELETE FROM v"
    ofQuery script = " ".intercalate (((split script).map ofQuery).filter (· ≠ "")) ∧
      ofQuery script = "SELECT t create u DELETE v" :=
  ⟨ofQuery_script (by decide), by decide⟩

end QueryLabel.Statement
