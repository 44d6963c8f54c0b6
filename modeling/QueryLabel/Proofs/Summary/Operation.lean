import QueryLabel.Summary

/-! Operations in a summary. An operation means the same wherever it stands, except in the place of
an alias; so what begins with one is summarized as if nothing stood before it. -/

namespace QueryLabel.Summary

variable {s : State} {t : Token} {ts : List Token} {op : Operation} {ws : List String}
  {wss : List (List String)}

/-- The keywords that begin an operation. -/
def operationWords : List String :=
  ["SELECT", "INSERT", "DELETE", "WITH", "UPDATE", "FROM", "INTO", "JOIN", "IN", "CREATE",
   "ALTER", "DROP", "TRUNCATE", "UNION"]

theorem isSome_operation?_iff : (operation? t).isSome ↔ t.isAnyKeyword operationWords := by
  simp only [operation?, List.isSome_find?, Token.isAnyKeyword, Operation.words, operationWords,
    List.any_cons, List.any_nil, Bool.or_false, Bool.or_assoc]

theorem step_eq_of_operation (hop : operation? t = some op) (hs : s ≠ .expectAlias) :
    s.step t = op.step := by
  cases s <;> simp_all [State.step]

theorem step_of_operation (ht : (operation? t).isSome) (hs : s ≠ .expectAlias) :
    s.step t = State.idle.step t := by
  obtain ⟨op, hop⟩ := Option.isSome_iff_exists.1 ht
  rw [step_eq_of_operation hop hs, step_eq_of_operation hop (by decide)]

theorem selectFrom_of_operation (ht : ∀ t ∈ ts.head?, (operation? t).isSome)
    (hs : s ≠ .expectAlias) : selectFrom s ts = selectFrom .idle ts := by
  cases ts with
  | nil => rfl
  | cons t ts => rw [selectFrom, selectFrom, step_of_operation (ht t rfl) hs]

/-- A semicolon is not shown, and whatever came before it, no alias is expected behind it. -/
theorem step_semicolon (ht : t.isOperator ";") :
    (s.step t).1 = false ∧ (s.step t).2 ≠ .expectAlias := by
  obtain rfl := Token.isOperator_iff.1 ht
  cases s <;> decide

theorem parts_ne_empty (h : ∀ t ∈ ts, t.text ≠ "") : ∀ w ∈ parts ts, w ≠ "" := by
  intro w hw
  obtain ⟨t, ht, rfl⟩ := List.mem_map.1 hw
  exact h t (selectFrom_sublist.mem ht)

theorem eq_nil_of_intercalate (h : ∀ w ∈ ws, w ≠ "") (he : " ".intercalate ws = "") : ws = [] := by
  cases ws with
  | nil => rfl
  | cons w ws =>
    have hw : w = "" := by
      cases ws with
      | nil => simpa using he
      | cons v ws =>
        rw [String.intercalate_cons_cons] at he
        simp_all
    exact absurd hw (h w List.mem_cons_self)

/-- Joining words in one go or in groups is the same, if groups without a word are left out. -/
theorem intercalate_flatten (h : ∀ ws ∈ wss, ∀ w ∈ ws, w ≠ "") :
    " ".intercalate wss.flatten =
      " ".intercalate ((wss.map " ".intercalate).filter (· ≠ "")) := by
  induction wss with
  | nil => rfl
  | cons ws wss ih =>
    have hws := h ws List.mem_cons_self
    have hrest (vs : List String) (hvs : vs ∈ wss) := h vs (List.mem_cons_of_mem _ hvs)
    have ih := ih hrest
    rw [List.flatten_cons, List.map_cons]
    by_cases hne : ws = []
    · subst hne
      exact ih
    · have hjoin : " ".intercalate ws ≠ "" := fun he => hne (eq_nil_of_intercalate hws he)
      rw [List.filter_cons_of_pos (by simpa using hjoin)]
      by_cases hflat : wss.flatten = []
      · have hnil : (wss.map " ".intercalate).filter (· ≠ "") = [] :=
          eq_nil_of_intercalate (fun w hw => by simpa using (List.mem_filter.1 hw).2)
            (by rw [← ih, hflat, String.intercalate_nil])
        rw [hflat, hnil, List.append_nil, String.intercalate_singleton]
      · have hcons : (wss.map " ".intercalate).filter (· ≠ "") ≠ [] := fun hnil =>
          hflat (eq_nil_of_intercalate
            (fun w hw => by
              obtain ⟨vs, hvs, hwvs⟩ := List.mem_flatten.1 hw
              exact hrest vs hvs w hwvs)
            (by rw [ih, hnil, String.intercalate_nil]))
        rw [String.intercalate_append_of_ne_nil hne hflat, String.intercalate_cons_of_ne_nil hcons,
          ih]

end QueryLabel.Summary
