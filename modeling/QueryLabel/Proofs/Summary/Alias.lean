import QueryLabel.Proofs.Summary.Operation
import QueryLabel.Proofs.Summary.Selection

/-! Operations and aliases. An operation is overlooked only in the place of an alias, that is behind
an `AS` behind the name of a collection. Every other one is in the summary, if operations of its
kind are shown at all, and what begins with an operation adds to a summary what it would say
alone. -/

namespace QueryLabel.Summary

variable {s s' : State} {t u : Token} {ts us : List Token} {ws ws' : List String} {p q : Nat}
  {op : Operation}

/-- No token is a keyword of two lists that have no word in common. -/
theorem isAnyKeyword_eq_false (hws : ∀ w ∈ ws, ∀ w' ∈ ws', sameWord w w' = false)
    (h : t.isAnyKeyword ws) : t.isAnyKeyword ws' = false := by
  obtain ⟨w, hw, htw⟩ := Token.isAnyKeyword_iff.1 h
  refine Bool.eq_false_iff.2 fun h' => ?_
  obtain ⟨w', hw', htw'⟩ := Token.isAnyKeyword_iff.1 h'
  have hsame : sameWord w w' := sameWord_trans
    (sameWord_symm (Token.isKeyword_iff.1 htw).2) (Token.isKeyword_iff.1 htw').2
  exact Bool.noConfusion (hsame.symm.trans (hws w hw w' hw'))

/-- A name is no keyword but the type of an object. -/
theorem isAnyKeyword_name (hws : ∀ w ∈ objectTypes, ∀ w' ∈ ws, sameWord w w' = false)
    (h : isName t) : t.isAnyKeyword ws = false := by
  simp only [isName, Bool.or_eq_true, beq_iff_eq] at h
  rcases h with (hk | hk) | ho
  · exact Token.isAnyKeyword_of_kind_ne (by simp [hk]) ws
  · exact Token.isAnyKeyword_of_kind_ne (by simp [hk]) ws
  · exact isAnyKeyword_eq_false hws ho

theorem operation?_eq_none_iff : operation? t = none ↔ t.isAnyKeyword operationWords = false := by
  rw [← Option.not_isSome_iff_eq_none, isSome_operation?_iff, Bool.not_eq_true]

/-- No word belongs to two operations. -/
theorem operation?_eq_some_iff : operation? t = some op ↔ t.isAnyKeyword op.words := by
  constructor
  · exact isAnyKeyword_of_operation
  · intro h
    have hwords : op.words ⊆ operationWords := by cases op <;> decide
    obtain ⟨op', hop'⟩ :=
      Option.isSome_iff_exists.1 (isSome_operation?_iff.2 (isAnyKeyword_mono hwords h))
    have hdisjoint : op ≠ op' → ∀ w ∈ op.words, ∀ w' ∈ op'.words, sameWord w w' = false := by
      cases op <;> cases op' <;> decide
    by_contra hne
    have hnot := isAnyKeyword_eq_false (hdisjoint fun heq => hne (heq ▸ hop')) h
    exact Bool.noConfusion ((isAnyKeyword_of_operation hop').symm.trans hnot)

theorem operation?_name (h : isName t) : operation? t = none :=
  operation?_eq_none_iff.2 (isAnyKeyword_name (by decide) h)

/-- States that take a token alike where it begins no operation take it alike anyway. -/
theorem step_congr (hs : s ≠ .expectAlias) (hs' : s' ≠ .expectAlias)
    (h : s.proceed t = s'.proceed t) : s.step t = s'.step t := by
  cases hop : operation? t with
  | some op => rw [step_eq_of_operation hop hs, step_eq_of_operation hop hs']
  | none => rw [step_eq_proceed hop, step_eq_proceed hop, h]

theorem step_name (h : isName t) : State.expectName.step t = (true, .afterName) := by
  rw [step_eq_proceed (operation?_name h)]
  simp [State.proceed, h]

theorem operation?_of_kind_ne (h : t.kind ≠ .keyword) : operation? t = none :=
  operation?_eq_none_iff.2 (Token.isAnyKeyword_of_kind_ne h operationWords)

/-- A keyword that is none of those begins no operation. -/
theorem operation?_keyword {w : String} (hw : ∀ w' ∈ operationWords, sameWord w w' = false)
    (h : t.isKeyword w) : operation? t = none := by
  rw [← isAnyKeyword_singleton] at h
  exact operation?_eq_none_iff.2 (isAnyKeyword_eq_false (by simpa using hw) h)

theorem step_as (h : t.isKeyword "AS") : State.afterName.step t = (false, .expectAlias) := by
  rw [step_eq_proceed (operation?_keyword (by decide) h)]
  simp [State.proceed, h]

theorem ne_expectAlias_of_shown (h : (s.step t).1) : s ≠ .expectAlias := by
  rintro rfl
  exact Bool.noConfusion h

/-- Only a name, where one is expected, leads to the place behind a name. -/
theorem of_step_afterName (h : (s.step t).2 = .afterName) : s = .expectName ∧ isName t := by
  have hm := moves_step (s := s) (t := t)
  generalize (s.step t).1 = b, (s.step t).2 = s' at hm h
  cases hm with
  | name hn => exact ⟨rfl, hn⟩
  | @operation _ op => cases op <;> cases h
  | symbol | objectType | all | as | bareAlias | anyAlias | comma | other => cases h

/-- Only an `AS` behind a name leads to the place of an alias. -/
theorem of_step_expectAlias (h : (s.step t).2 = .expectAlias) :
    s = .afterName ∧ t.isKeyword "AS" := by
  have hm := moves_step (s := s) (t := t)
  generalize (s.step t).1 = b, (s.step t).2 = s' at hm h
  cases hm with
  | as has => exact ⟨rfl, has⟩
  | @operation _ op => cases op <;> cases h
  | name | symbol | objectType | all | bareAlias | anyAlias | comma | other => cases h

/-- A name is shown where one is expected, or as the type of an object. -/
theorem of_step_shown_name (hn : isName t) (h : (s.step t).1) :
    s = .expectName ∨ s = .afterDefinition := by
  have hm := moves_step (s := s) (t := t)
  generalize (s.step t).1 = b, (s.step t).2 = s' at hm h
  cases hm with
  | name => exact .inl rfl
  | objectType => exact .inr rfl
  | operation hop => cases (operation?_name hn).symm.trans hop
  | all ha =>
    rw [← isAnyKeyword_singleton, isAnyKeyword_name (by decide) hn] at ha
    exact Bool.noConfusion ha
  | symbol | as | bareAlias | anyAlias | comma | other => exact Bool.noConfusion h

/-- The token at a place is shown as the name of a collection: it is a name that is shown, and not
as the type of an object behind `CREATE` and its like. -/
structure NamesCollection (ts : List Token) (p : Nat) : Prop where
  shown : p ∈ selection ts
  name : ∃ t, ts[p]? = some t ∧ isName t
  notType : ∀ q u, p = q + 1 → q ∈ selection ts → ts[q]? = some u →
    u.isAnyKeyword Operation.definition.words = false

/-- The names of collections are the names where one is expected. -/
theorem namesCollection_iff : NamesCollection ts p ↔
    after .idle (ts.take p) = .expectName ∧ ∃ t, ts[p]? = some t ∧ isName t := by
  constructor
  · intro h
    obtain ⟨t, ht, hn⟩ := h.name
    rcases of_step_shown_name hn ((mem_selection_iff_step ht).1 h.shown) with hs | hs
    · exact ⟨hs, t, ht, hn⟩
    · have hp : p ≤ ts.length := Nat.le_of_lt (List.getElem?_eq_some_iff.1 ht).1
      obtain ⟨q, u, hpq, hq, hu, hwords⟩ := of_after_operation (.inl rfl) hs hp
      exact Bool.noConfusion (hwords.symm.trans (h.notType q u hpq hq hu))
  · rintro ⟨hs, t, ht, hn⟩
    refine ⟨(mem_selection_iff_step ht).2 (by rw [hs, step_name hn]), ⟨t, ht, hn⟩, ?_⟩
    rintro q u rfl hq hu
    refine Bool.eq_false_iff.2 fun hwords => ?_
    have hop : operation? u = some .definition := operation?_eq_some_iff.2 hwords
    have hshown := (mem_selection_iff_step hu).1 hq
    rw [after_take_succ hu, step_eq_of_operation hop (ne_expectAlias_of_shown hshown)] at hs
    cases hs

/-- An alias is expected behind an `AS` behind the name of a collection and nowhere else. -/
theorem after_eq_expectAlias_iff (hp : p ≤ ts.length) : after .idle (ts.take p) = .expectAlias ↔
    ∃ q u, p = q + 2 ∧ NamesCollection ts q ∧ ts[q + 1]? = some u ∧ u.isKeyword "AS" := by
  constructor
  · intro h
    obtain ⟨r, u, rfl, hu, hstep⟩ := exists_step_of_after h (by decide) hp
    obtain ⟨hname, has⟩ := of_step_expectAlias hstep
    obtain ⟨q, t, rfl, ht, hstep⟩ := exists_step_of_after hname (by decide) (by omega)
    obtain ⟨hexpect, hn⟩ := of_step_afterName hstep
    exact ⟨q, u, rfl, namesCollection_iff.2 ⟨hexpect, t, ht, hn⟩, hu, has⟩
  · rintro ⟨q, u, rfl, hq, hu, has⟩
    obtain ⟨hexpect, t, ht, hn⟩ := namesCollection_iff.1 hq
    rw [after_take_succ hu, after_take_succ ht, hexpect, step_name hn, step_as has]

/-- Behind anything but an `AS` no alias is expected. -/
theorem after_ne_expectAlias (h : ∀ t ∈ ts.getLast?, t.isKeyword "AS" = false) :
    after .idle ts ≠ .expectAlias := by
  rcases List.eq_nil_or_concat ts with rfl | ⟨ts, t, rfl⟩
  · decide
  · intro hs
    rw [List.concat_eq_append, after_concat] at hs
    have has := (of_step_expectAlias hs).2
    exact Bool.noConfusion (has.symm.trans (h t (by simp)))

/-- The keywords of the operations that are shown. -/
def shownOperations : List String :=
  ["SELECT", "INSERT", "DELETE", "WITH", "UPDATE", "CREATE", "ALTER", "DROP", "TRUNCATE", "UNION"]

theorem exists_operation_of_shown (h : t.isAnyKeyword shownOperations) :
    ∃ op, operation? t = some op ∧ op.step.1 := by
  obtain ⟨w, hw, htw⟩ := Token.isAnyKeyword_iff.1 h
  have hall : ∀ w ∈ shownOperations, ∃ op ∈ [Operation.action, .target, .definition, .union],
      w ∈ op.words := by decide
  obtain ⟨op, hop, hmem⟩ := hall w hw
  refine ⟨op, operation?_eq_some_iff.2 (Token.isAnyKeyword_iff.2 ⟨w, hmem, htw⟩), ?_⟩
  simp only [List.mem_cons, List.not_mem_nil, or_false] at hop
  rcases hop with rfl | rfl | rfl | rfl <;> rfl

/-- No operation is lost. The summary is the texts at the places that are shown, each once and from
the left, and an operation of a kind that is shown at all is at one of them, unless an `AS` is in
front of it; it is left out just if it follows the name of a collection and an `AS`. -/
theorem operations_shown (ts : List Token) :
    parts ts = ((selection ts).filterMap (ts[·]?)).map Token.text ∧
      (selection ts).Pairwise (· < ·) ∧
      ∀ p t, ts[p]? = some t → t.isAnyKeyword shownOperations →
        ((∀ q u, p = q + 1 → ts[q]? = some u → u.isKeyword "AS" = false) → p ∈ selection ts) ∧
        (p ∉ selection ts ↔
          ∃ q u, p = q + 2 ∧ NamesCollection ts q ∧ ts[q + 1]? = some u ∧ u.isKeyword "AS") := by
  refine ⟨parts_eq_selection, pairwise_selection ts, ?_⟩
  intro p t ht hword
  obtain ⟨op, hop, hshown⟩ := exists_operation_of_shown hword
  have hp : p ≤ ts.length := Nat.le_of_lt (List.getElem?_eq_some_iff.1 ht).1
  have hmem : p ∈ selection ts ↔ after .idle (ts.take p) ≠ .expectAlias := by
    rw [mem_selection_iff_step ht]
    constructor
    · exact ne_expectAlias_of_shown
    · intro hs
      rwa [step_eq_of_operation hop hs]
  have hleft : p ∉ selection ts ↔
      ∃ q u, p = q + 2 ∧ NamesCollection ts q ∧ ts[q + 1]? = some u ∧ u.isKeyword "AS" := by
    rw [hmem, not_ne_iff]
    exact after_eq_expectAlias_iff hp
  refine ⟨fun h => ?_, hleft⟩
  by_contra hnot
  obtain ⟨q, u, hpq, -, hu, has⟩ := hleft.1 hnot
  exact Bool.noConfusion (has.symm.trans (h (q + 1) u hpq hu))

/-- An operation as an alias, one behind a name, and one behind an `AS` that follows the type of an
object. -/
theorem operations_shown_alias :
    let ts : List Token := [⟨.keyword, "FROM"⟩, ⟨.identifier, "a"⟩, ⟨.keyword, "AS"⟩,
      ⟨.keyword, "select"⟩, ⟨.operator, ","⟩, ⟨.quotedIdentifier, "[b]"⟩, ⟨.keyword, "Union"⟩,
      ⟨.keyword, "create"⟩, ⟨.keyword, "TABLE"⟩, ⟨.keyword, "as"⟩, ⟨.keyword, "drop"⟩]
    parts ts = ["a", "[b]", "Union", "create", "TABLE", "drop"] ∧
      (3 ∉ selection ts ∧
        ∃ q u, 3 = q + 2 ∧ NamesCollection ts q ∧ ts[q + 1]? = some u ∧ u.isKeyword "AS") ∧
      ((∀ q u, 6 = q + 1 → ts[q]? = some u → u.isKeyword "AS" = false) ∧ 6 ∈ selection ts) ∧
      10 ∈ selection ts ∧ ¬ NamesCollection ts 8 := by
  intro ts
  obtain ⟨-, -, h⟩ := operations_shown ts
  obtain ⟨-, halias⟩ := h 3 ⟨.keyword, "select"⟩ rfl (by decide)
  obtain ⟨hunion, -⟩ := h 6 ⟨.keyword, "Union"⟩ rfl (by decide)
  obtain ⟨-, hdrop⟩ := h 10 ⟨.keyword, "drop"⟩ rfl (by decide)
  have hleft : 3 ∉ selection ts := by decide
  have hshown : 10 ∈ selection ts := by decide
  have hfront : ∀ q u, 6 = q + 1 → ts[q]? = some u → u.isKeyword "AS" = false := by
    rintro q u hq hu
    obtain rfl : q = 5 := by omega
    obtain rfl : ⟨.quotedIdentifier, "[b]"⟩ = u := Option.some.inj hu
    decide
  refine ⟨by decide, ⟨hleft, halias.1 hleft⟩, ⟨hfront, hunion hfront⟩, hshown, fun hname => ?_⟩
  exact hdrop.2 ⟨8, ⟨.keyword, "as"⟩, rfl, hname, rfl, by decide⟩ hshown

/-- Summaries compose at operations: what begins with one says behind other tokens what it says
alone, if they do not end with an `AS`. -/
theorem parts_append_operation (hus : us.head?.any (·.isAnyKeyword operationWords))
    (hts : ∀ t ∈ ts.getLast?, t.isKeyword "AS" = false) :
    parts (ts ++ us) = parts ts ++ parts us := by
  have hhead : ∀ t ∈ us.head?, (operation? t).isSome := by
    intro t ht
    rw [Option.mem_def.1 ht] at hus
    exact isSome_operation?_iff.2 hus
  rw [parts, selectFrom_append, selectFrom_of_operation hhead (after_ne_expectAlias hts),
    List.map_append]
  rfl

/-- Tokens that end where the type of an object may follow, before ones in which a type of an object
is a name. -/
theorem parts_append_operation_definition :
    let ts : List Token := [⟨.keyword, "select"⟩, ⟨.keyword, "From"⟩, ⟨.identifier, "a"⟩,
      ⟨.keyword, "AS"⟩, ⟨.string, "'b'"⟩, ⟨.operator, ","⟩, ⟨.keyword, "create"⟩]
    let us : List Token := [⟨.keyword, "in"⟩, ⟨.keyword, "TABLE"⟩, ⟨.identifier, "x"⟩]
    us.head?.any (·.isAnyKeyword operationWords) ∧
      (∀ t ∈ ts.getLast?, t.isKeyword "AS" = false) ∧
      parts (ts ++ us) = parts ts ++ parts us ∧
      parts (ts ++ us) = ["select", "a", "create", "TABLE"] := by
  intro ts us
  have hus : us.head?.any (·.isAnyKeyword operationWords) := by decide
  have hts : ∀ t ∈ ts.getLast?, t.isKeyword "AS" = false := by decide
  exact ⟨hus, hts, parts_append_operation hus hts, by decide⟩

/-- Behind an `AS` the operation would be taken for an alias. -/
example :
    let ts : List Token := [⟨.keyword, "FROM"⟩, ⟨.identifier, "a"⟩, ⟨.keyword, "AS"⟩]
    let us : List Token := [⟨.keyword, "UNION"⟩]
    parts (ts ++ us) = ["a"] ∧ parts us = ["UNION"] := by decide

end QueryLabel.Summary
