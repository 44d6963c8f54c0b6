import QueryLabel.Summary
import Mathlib.Data.List.Forall2

/-! Which tokens a summary shows, by their places. The summary is what stands there, and what may
stand there is a name, an operation that is shown, or what may follow one. -/

namespace QueryLabel.Summary

variable {s : State} {t : Token} {ts : List Token} {p : Nat}

/-- The places of the tokens that are shown, from the left. -/
def selection (ts : List Token) : List Nat :=
  (shown .idle ts).findIdxs id

theorem pairwise_selection (ts : List Token) : (selection ts).Pairwise (· < ·) :=
  List.pairwise_findIdxs

theorem filterMap_findIdxs {α : Type} {xs : List α} {mask : List Bool}
    (h : mask.length = xs.length) :
    (mask.findIdxs id).filterMap (xs[·]?) = ((xs.zip mask).filter Prod.snd).map Prod.fst := by
  induction xs generalizing mask with
  | nil => simp_all
  | cons x xs ih =>
    obtain ⟨b, mask, rfl⟩ := List.exists_cons_of_length_eq_add_one h
    have hrest : (mask.findIdxs id 1).filterMap ((x :: xs)[·]?) =
        ((xs.zip mask).filter Prod.snd).map Prod.fst := by
      rw [List.findIdxs_start, List.filterMap_map, ← ih (by simpa using h)]
      rfl
    rw [List.findIdxs_cons, List.zip_cons_cons]
    cases b <;> simp [hrest]

theorem filterMap_selection : (selection ts).filterMap (ts[·]?) = selectFrom .idle ts := by
  rw [selectFrom_eq_shown]
  exact filterMap_findIdxs length_shown

/-- A summary is made of the texts at the places that are shown. -/
theorem parts_eq_selection : parts ts = ((selection ts).filterMap (ts[·]?)).map Token.text := by
  rw [parts, filterMap_selection]

theorem after_concat : after s (ts ++ [t]) = ((after s ts).step t).2 := by
  simp [after]

theorem after_take_succ (ht : ts[p]? = some t) :
    after s (ts.take (p + 1)) = ((after s (ts.take p)).step t).2 := by
  rw [List.take_add_one, ht, Option.toList_some, after_concat]

/-- A state other than the first one was led to by the token before it. -/
theorem exists_step_of_after (h : after .idle (ts.take p) = s) (hs : s ≠ .idle)
    (hp : p ≤ ts.length) :
    ∃ q u, p = q + 1 ∧ ts[q]? = some u ∧ ((after .idle (ts.take q)).step u).2 = s := by
  cases p with
  | zero => exact absurd h.symm hs
  | succ q =>
    obtain ⟨u, hu⟩ : ∃ u, ts[q]? = some u := ⟨ts[q], List.getElem?_eq_getElem hp⟩
    rw [after_take_succ hu] at h
    exact ⟨q, u, rfl, hu, h⟩

/-- Whether a token is shown is decided by the tokens before it. -/
theorem getElem?_shown :
    (shown s ts)[p]? = ts[p]?.map fun t => ((after s (ts.take p)).step t).1 := by
  induction ts generalizing s p with
  | nil => rfl
  | cons t ts ih =>
    cases p with
    | zero => rfl
    | succ p => exact ih

theorem mem_selection_iff :
    p ∈ selection ts ↔ ∃ t, ts[p]? = some t ∧ ((after .idle (ts.take p)).step t).1 := by
  have hmask : p ∈ selection ts ↔ (shown .idle ts)[p]? = some true := by
    rw [selection, List.mem_findIdxs_iff_exists_getElem_pos, List.getElem?_eq_some_iff]
    rfl
  rw [hmask, getElem?_shown, Option.map_eq_some_iff]

theorem mem_selection_iff_step (ht : ts[p]? = some t) :
    p ∈ selection ts ↔ ((after .idle (ts.take p)).step t).1 := by
  simp [mem_selection_iff, ht]

/-- The keywords that are shown wherever they begin an operation, and those for types of objects. -/
def shownWords : List String :=
  ["SELECT", "INSERT", "DELETE", "WITH", "UPDATE", "CREATE", "ALTER", "DROP", "TRUNCATE", "UNION",
   "TABLE", "INDEX", "PROCEDURE", "VIEW", "DATABASE"]

theorem isAnyKeyword_singleton {w : String} : t.isAnyKeyword [w] = t.isKeyword w := by
  simp [Token.isAnyKeyword]

theorem isAnyKeyword_mono {ws ws' : List String} (h : ws ⊆ ws') (ht : t.isAnyKeyword ws) :
    t.isAnyKeyword ws' := by
  obtain ⟨w, hw, hk⟩ := Token.isAnyKeyword_iff.1 ht
  exact Token.isAnyKeyword_iff.2 ⟨w, h hw, hk⟩

theorem isAnyKeyword_of_operation {op : Operation} (h : operation? t = some op) :
    t.isAnyKeyword op.words := by
  simpa using List.find?_some h

/-- Everything that a token can do: in which state it is read, whether it is shown, and what it
leads to. -/
inductive Moves (t : Token) : State → Bool → State → Prop
  | operation {s : State} {op : Operation} (hop : operation? t = some op) (hs : s ≠ .expectAlias) :
      Moves t s op.step.1 op.step.2
  | name (h : isName t) : Moves t .expectName true .afterName
  | symbol (h : t.kind = .operator) : Moves t .expectName false .expectName
  | objectType (h : isObjectType t) : Moves t .afterDefinition true .expectName
  | all (h : t.isKeyword "ALL") : Moves t .afterUnion true .idle
  | as (h : t.isKeyword "AS") : Moves t .afterName false .expectAlias
  | bareAlias (h : t.kind = .identifier) : Moves t .afterName false .afterAlias
  | anyAlias : Moves t .expectAlias false .afterAlias
  | comma {s : State} (h : t.isOperator ",") (hs : s = .afterName ∨ s = .afterAlias) :
      Moves t s false .expectName
  | other {s : State} : Moves t s false .idle

/-- What begins no operation is taken as the state has it. -/
theorem step_eq_proceed (h : operation? t = none) : s.step t = s.proceed t := by
  cases s <;> simp [State.step, h]

theorem moves_step : Moves t s (s.step t).1 (s.step t).2 := by
  cases hop : operation? t with
  | some op =>
    have hmove (hs : s ≠ .expectAlias) : Moves t s op.step.1 op.step.2 := .operation hop hs
    cases s with
    | expectAlias => exact .anyAlias
    | idle | expectName | afterDefinition | afterUnion | afterName | afterAlias =>
      simpa [State.step, hop] using hmove
  | none =>
    rw [step_eq_proceed hop]
    cases s with
    | idle => exact .other
    | expectName =>
      simp only [State.proceed]
      split_ifs with hn ho
      · exact .name hn
      · exact .symbol (eq_of_beq ho)
      · exact .other
    | afterDefinition =>
      simp only [State.proceed]
      split_ifs with ho
      · exact .objectType ho
      · exact .other
    | afterUnion =>
      simp only [State.proceed]
      cases ha : t.isKeyword "ALL" with
      | true => exact .all ha
      | false => exact .other
    | afterName =>
      simp only [State.proceed]
      split_ifs with has hi hc
      · exact .as has
      · exact .bareAlias (eq_of_beq hi)
      · exact .comma hc (.inl rfl)
      · exact .other
    | expectAlias => exact .anyAlias
    | afterAlias =>
      simp only [State.proceed]
      split_ifs with hc
      · exact .comma hc (.inr rfl)
      · exact .other

/-- What kinds of tokens are shown at all, and when. -/
theorem of_step_shown (h : (s.step t).1) :
    (t.kind = .identifier ∨ t.kind = .quotedIdentifier) ∨ t.isAnyKeyword shownWords ∨
      s = .afterUnion ∧ t.isKeyword "ALL" := by
  have hobject (ho : isObjectType t) : t.isAnyKeyword shownWords :=
    isAnyKeyword_mono (by decide) ho
  have hm := moves_step (s := s) (t := t)
  generalize (s.step t).1 = b, (s.step t).2 = s' at hm h
  cases hm with
  | @operation _ op hop _ =>
    have hw : op.words ⊆ shownWords := by
      cases op with
      | source => simp [Operation.step] at h
      | action | target | definition | union => decide
    exact .inr (.inl (isAnyKeyword_mono hw (isAnyKeyword_of_operation hop)))
  | name hn =>
    simp only [isName, Bool.or_eq_true, beq_iff_eq] at hn
    exact hn.imp_right fun ho => .inl (hobject ho)
  | objectType ho => exact .inr (.inl (hobject ho))
  | all ha => exact .inr (.inr ⟨rfl, ha⟩)
  | symbol | as | bareAlias | anyAlias | comma | other => exact Bool.noConfusion h

/-- Only the operation itself, where it is shown, leads to the place behind a definition or a
union. -/
theorem of_step_after_operation {op : Operation} (hop : op = .definition ∨ op = .union)
    (h : (s.step t).2 = op.step.2) : (s.step t).1 ∧ t.isAnyKeyword op.words := by
  have hm := moves_step (s := s) (t := t)
  generalize (s.step t).1 = b, (s.step t).2 = s' at hm h ⊢
  cases hm with
  | @operation _ op' hop' _ =>
    obtain rfl : op' = op := by rcases hop with rfl | rfl <;> cases op' <;> simp_all [Operation.step]
    refine ⟨?_, isAnyKeyword_of_operation hop'⟩
    rcases hop with rfl | rfl <;> rfl
  | name | symbol | objectType | all | as | bareAlias | anyAlias | comma | other =>
    rcases hop with rfl | rfl <;> cases h

theorem of_after_operation {op : Operation} (hop : op = .definition ∨ op = .union)
    (h : after .idle (ts.take p) = op.step.2) (hp : p ≤ ts.length) :
    ∃ q u, p = q + 1 ∧ q ∈ selection ts ∧ ts[q]? = some u ∧ u.isAnyKeyword op.words := by
  have hidle : op.step.2 ≠ .idle := by rcases hop with rfl | rfl <;> decide
  obtain ⟨q, u, hpq, hu, hstep⟩ := exists_step_of_after h hidle hp
  obtain ⟨hshown, hwords⟩ := of_step_after_operation hop hstep
  exact ⟨q, u, hpq, (mem_selection_iff_step hu).2 hshown, hu, hwords⟩

/-- What a token at a place that is shown may be. -/
inductive Showable (ts : List Token) (p : Nat) (t : Token) : Prop
  | name (h : t.kind = .identifier ∨ t.kind = .quotedIdentifier)
  | word (h : t.isAnyKeyword shownWords)
  | all {q : Nat} {u : Token} (h : t.isKeyword "ALL") (hp : p = q + 1) (hq : q ∈ selection ts)
      (hu : ts[q]? = some u) (hw : u.isKeyword "UNION")

theorem Showable.kind (h : Showable ts p t) :
    t.kind = .identifier ∨ t.kind = .quotedIdentifier ∨ t.kind = .keyword := by
  cases h with
  | name h => exact h.imp_right .inl
  | word h =>
    obtain ⟨w, _, hk⟩ := Token.isAnyKeyword_iff.1 h
    exact .inr (.inr (Token.isKeyword_iff.1 hk).1)
  | all h => exact .inr (.inr (Token.isKeyword_iff.1 h).1)

theorem showable_of_mem (h : p ∈ selection ts) : ∃ t, ts[p]? = some t ∧ Showable ts p t := by
  obtain ⟨t, ht, hstep⟩ := mem_selection_iff.1 h
  refine ⟨t, ht, ?_⟩
  rcases of_step_shown hstep with hname | hword | ⟨hs, hall⟩
  · exact .name hname
  · exact .word hword
  · have hp : p < ts.length := (List.getElem?_eq_some_iff.1 ht).1
    obtain ⟨q, u, hpq, hq, hu, hunion⟩ := of_after_operation (.inr rfl) hs (Nat.le_of_lt hp)
    exact .all hall hpq hq hu (isAnyKeyword_singleton ▸ hunion)

end QueryLabel.Summary
