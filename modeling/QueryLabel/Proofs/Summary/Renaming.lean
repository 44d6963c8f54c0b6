import QueryLabel.Proofs.Summary.Selection

/-! Renaming in a summary. What a name or a literal says, in which case a keyword is written, and
which operator stands there unless it is a comma: none of it decides which tokens are shown. -/

namespace QueryLabel

variable {t u : Token} {ts us : List Token}

/-- Tokens that may stand for each other: of one kind, and equal as keywords or as commas. -/
structure Token.Renames (t u : Token) : Prop where
  kind : u.kind = t.kind
  keyword (h : t.kind = .keyword) : sameWord u.text t.text
  comma (h : t.kind = .operator) : u.text = "," ↔ t.text = ","

namespace Token.Renames

theorem isKeyword (h : t.Renames u) (word : String) : u.isKeyword word = t.isKeyword word := by
  apply Bool.eq_iff_iff.2
  rw [isKeyword_iff, isKeyword_iff, h.kind]
  apply and_congr_right
  intro hk
  have hsame := h.keyword hk
  constructor
  · intro hu
    exact sameWord_trans (sameWord_symm hsame) hu
  · intro ht
    exact sameWord_trans hsame ht

theorem isAnyKeyword (h : t.Renames u) (words : List String) :
    u.isAnyKeyword words = t.isAnyKeyword words := by
  simp only [Token.isAnyKeyword, funext h.isKeyword]

theorem isComma (h : t.Renames u) : u.isOperator "," = t.isOperator "," := by
  simp only [isOperator, h.kind]
  cases hk : t.kind with
  | operator =>
    rw [Bool.eq_iff_iff]
    simpa using h.comma hk
  | keyword | identifier | quotedIdentifier | string | numeric => rfl

end Token.Renames

namespace Summary

variable {s : State}

theorem step_renames (h : t.Renames u) (s : State) : s.step u = s.step t := by
  have hop : operation? u = operation? t := by
    simp only [operation?, h.isAnyKeyword]
  have hobject : isObjectType u = isObjectType t := h.isAnyKeyword objectTypes
  have hname : isName u = isName t := by
    simp only [isName, h.kind, hobject]
  have hproceed : s.proceed u = s.proceed t := by
    cases s <;> simp only [State.proceed, hname, hobject, h.kind, h.isKeyword, h.isComma]
  cases s <;> simp only [State.step, hop, hproceed]

theorem shown_renames (h : List.Forall₂ Token.Renames ts us) : shown s us = shown s ts := by
  induction h generalizing s with
  | nil => rfl
  | cons htu _ ih => rw [shown, shown, step_renames htu, ih]

/-- The tokens at some places, each with its counterpart. -/
def pairsAt (places : List Nat) (ts us : List Token) : List (Token × Token) :=
  places.filterMap ((ts.zip us)[·]?)

theorem map_fst_pairsAt {places : List Nat} (h : ts.length = us.length) :
    (pairsAt places ts us).map Prod.fst = places.filterMap (ts[·]?) := by
  have hzip (p : Nat) : ((ts.zip us)[p]?).map Prod.fst = ts[p]? := by
    rw [← List.getElem?_map, List.map_fst_zip (Nat.le_of_eq h)]
  simp only [pairsAt, List.map_filterMap, hzip]

theorem map_snd_pairsAt {places : List Nat} (h : ts.length = us.length) :
    (pairsAt places ts us).map Prod.snd = places.filterMap (us[·]?) := by
  have hzip (p : Nat) : ((ts.zip us)[p]?).map Prod.snd = us[p]? := by
    rw [← List.getElem?_map, List.map_snd_zip (Nat.le_of_eq h.symm)]
  simp only [pairsAt, List.map_filterMap, hzip]

/-- Renamed tokens are shown at the same places, so the summaries are those of the same tokens and
of their counterparts. -/
theorem selection_renames (h : List.Forall₂ Token.Renames ts us) :
    selection us = selection ts ∧
      ofTokens ts = " ".intercalate ((pairsAt (selection ts) ts us).map fun x => x.1.text) ∧
      ofTokens us = " ".intercalate ((pairsAt (selection ts) ts us).map fun x => x.2.text) := by
  have hsame : selection us = selection ts := by
    rw [selection, selection, shown_renames h]
  refine ⟨hsame, ?_, ?_⟩
  · rw [ofTokens, parts_eq_selection, ← map_fst_pairsAt h.length_eq, List.map_map]
    rfl
  · rw [ofTokens, parts_eq_selection, hsame, ← map_snd_pairsAt h.length_eq, List.map_map]
    rfl

/-- A query in other letters, with other names, another literal and another operator; the keyword
that ends it holds a letter that is no ASCII letter. -/
theorem selection_renames_recased :
    let ts : List Token := [⟨.keyword, "SELECT"⟩, ⟨.operator, "*"⟩, ⟨.keyword, "FROM"⟩,
      ⟨.identifier, "users"⟩, ⟨.keyword, "AS"⟩, ⟨.string, "'u'"⟩, ⟨.operator, ","⟩,
      ⟨.quotedIdentifier, "\"t\""⟩, ⟨.operator, "="⟩, ⟨.keyword, "UNION"⟩, ⟨.keyword, "all"⟩,
      ⟨.keyword, "INſERT"⟩]
    let us : List Token := [⟨.keyword, "select"⟩, ⟨.operator, "("⟩, ⟨.keyword, "From"⟩,
      ⟨.identifier, "SELECT"⟩, ⟨.keyword, "as"⟩, ⟨.string, "'x, y'"⟩, ⟨.operator, ","⟩,
      ⟨.quotedIdentifier, ","⟩, ⟨.operator, ";"⟩, ⟨.keyword, "uNION"⟩, ⟨.keyword, "ALL"⟩,
      ⟨.keyword, "inſert"⟩]
    List.Forall₂ Token.Renames ts us ∧ selection us = selection ts ∧
      selection ts = [0, 3, 7, 9, 10] ∧ ofTokens ts = "SELECT users \"t\" UNION all" ∧
      ofTokens us = "select SELECT , uNION ALL" := by
  intro ts us
  have h : List.Forall₂ Token.Renames ts us := by
    simp only [ts, us, List.forall₂_cons, List.forall₂_nil_left_iff, and_true]
    refine ⟨?_, ?_, ?_, ?_, ?_, ?_, ?_, ?_, ?_, ?_, ?_, ?_⟩ <;>
      exact ⟨rfl, by decide, by decide⟩
  exact ⟨h, (selection_renames h).1, by decide, by decide, by decide⟩

end Summary

end QueryLabel
