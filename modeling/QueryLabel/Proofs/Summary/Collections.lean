import QueryLabel.Proofs.Summary.Alias

/-! Lists of collections. Behind a keyword that leads to collections a summary shows the names in a
list of any length, in their order and without their aliases, and then reads on as if nothing had
stood before. -/

namespace QueryLabel.Summary

variable {s : State} {t : Token} {ts rest : List Token}

/-- What a collection is called besides its name. -/
inductive Alias
  | none
  | bare (called : Token) (h : called.kind = .identifier)
  | as (word called : Token) (h : word.isKeyword "AS")

def Alias.tokens : Alias → List Token
  | none => []
  | bare called _ => [called]
  | as word called _ => [word, called]

/-- A collection in a list. -/
structure Collection where
  /-- Such as the parentheses in front of the name. -/
  symbols : List Token
  name : Token
  called : Alias
  symbols_kind : ∀ t ∈ symbols, t.kind = .operator
  isName : name.kind = .identifier ∨ name.kind = .quotedIdentifier ∨
    name.isAnyKeyword ["TABLE", "INDEX", "PROCEDURE", "VIEW", "DATABASE"]

namespace Collection

variable {c : Collection}

def tokens (c : Collection) : List Token :=
  c.symbols ++ c.name :: c.called.tokens

/-- Collections with commas between them. -/
def listTokens (cs : List Collection) : List Token :=
  [⟨.operator, ","⟩].intercalate (cs.map tokens)

theorem isName_name : Summary.isName c.name := by
  have h := c.isName
  simp only [Summary.isName, Bool.or_eq_true, beq_iff_eq, or_assoc]
  exact h

end Collection

/-- Where a collection has been named: nothing but a comma leads on to another one. -/
def State.Named (s : State) : Prop :=
  s = .afterName ∨ s = .afterAlias

theorem State.Named.ne_expectAlias (hs : s.Named) : s ≠ .expectAlias := by
  rcases hs with rfl | rfl <;> decide

theorem step_comma (hs : s.Named) : s.step ⟨.operator, ","⟩ = (false, .expectName) := by
  rcases hs with rfl | rfl <;> decide

/-- Tokens that neither go on with an alias nor with a list. -/
def EndsList (rest : List Token) : Prop :=
  ∀ t ∈ rest.head?, t.isKeyword "AS" = false ∧ t.kind ≠ .identifier ∧ t.isOperator "," = false

/-- What ends a list is read as at the start. -/
theorem selectFrom_endsList (hs : s.Named) (hrest : EndsList rest) :
    selectFrom s rest = selectFrom .idle rest := by
  cases rest with
  | nil => rfl
  | cons t rest =>
    obtain ⟨has, hid, hcomma⟩ := hrest t rfl
    have hstep : s.step t = State.idle.step t := by
      apply step_congr hs.ne_expectAlias (by decide)
      rcases hs with rfl | rfl <;> simp [State.proceed, has, hid, hcomma]
    rw [selectFrom, selectFrom, hstep]

theorem selectFrom_symbols (hts : ∀ t ∈ ts, t.kind = .operator) :
    selectFrom .expectName (ts ++ rest) = selectFrom .expectName rest := by
  induction ts with
  | nil => rfl
  | cons t ts ih =>
    obtain ⟨ht, hts⟩ := List.forall_mem_cons.1 hts
    have hk : t.kind ≠ .keyword := by simp [ht]
    have hname : isName t = false := by
      simp [isName, isObjectType, Token.isAnyKeyword_of_kind_ne hk, ht]
    have hstep : State.expectName.step t = (false, .expectName) := by
      rw [step_eq_proceed (operation?_of_kind_ne hk)]
      simp [State.proceed, hname, ht]
    rw [List.cons_append, selectFrom, hstep]
    exact ih hts

theorem exists_selectFrom_alias (a : Alias) : ∃ s : State, s.Named ∧
    ∀ rest, selectFrom .afterName (a.tokens ++ rest) = selectFrom s rest := by
  cases a with
  | none => exact ⟨.afterName, .inl rfl, fun _ => rfl⟩
  | bare called h =>
    refine ⟨.afterAlias, .inr rfl, fun rest => ?_⟩
    have hk : called.kind ≠ .keyword := by simp [h]
    have hstep : State.afterName.step called = (false, .afterAlias) := by
      rw [step_eq_proceed (operation?_of_kind_ne hk)]
      simp [State.proceed, Token.isKeyword_of_kind_ne hk, h]
    simp [Alias.tokens, selectFrom, hstep]
  | as word called h =>
    refine ⟨.afterAlias, .inr rfl, fun rest => ?_⟩
    have hany : State.expectAlias.step called = (false, .afterAlias) := rfl
    simp [Alias.tokens, selectFrom, step_as h, hany]

/-- Of a collection the name is shown. -/
theorem exists_selectFrom_collection (c : Collection) : ∃ s : State, s.Named ∧
    ∀ rest, selectFrom .expectName (c.tokens ++ rest) = c.name :: selectFrom s rest := by
  obtain ⟨s, hs, halias⟩ := exists_selectFrom_alias c.called
  refine ⟨s, hs, fun rest => ?_⟩
  rw [Collection.tokens, List.append_assoc, selectFrom_symbols c.symbols_kind, List.cons_append,
    selectFrom, step_name c.isName_name, ← halias]
  rfl

theorem selectFrom_listTokens {cs : List Collection} (hcs : cs ≠ [])
    (hrest : EndsList rest) : selectFrom .expectName (Collection.listTokens cs ++ rest) =
      cs.map Collection.name ++ selectFrom .idle rest := by
  induction cs with
  | nil => exact absurd rfl hcs
  | cons c cs ih =>
    -- Whatever its alias, a collection ends in a state that a comma leads on from.
    obtain ⟨s, hs, hc⟩ := exists_selectFrom_collection c
    cases cs with
    | nil =>
      rw [Collection.listTokens, List.map_singleton, List.intercalate_singleton, hc,
        selectFrom_endsList hs hrest]
      rfl
    | cons c' cs =>
      have ih := ih (List.cons_ne_nil c' cs)
      rw [Collection.listTokens, List.map_cons, List.map_cons, List.intercalate_cons_cons,
        List.append_assoc, List.append_assoc, hc, List.singleton_append, selectFrom, step_comma hs]
      exact congrArg (c.name :: ·) ih

/-- Behind a keyword that leads to collections, the names of a list of them are shown in order,
whatever their aliases, and then what the rest says alone. -/
theorem parts_collections {t : Token} {cs : List Collection} {rest : List Token}
    (ht : t.isAnyKeyword ["FROM", "INTO", "JOIN", "IN"]) (hcs : cs ≠ []) (hrest : EndsList rest) :
    parts (t :: (Collection.listTokens cs ++ rest)) = cs.map (·.name.text) ++ parts rest := by
  have hop : operation? t = some .source := operation?_eq_some_iff.2 ht
  have hstep : State.idle.step t = (false, .expectName) := step_eq_of_operation hop (by decide)
  calc parts (t :: (Collection.listTokens cs ++ rest))
      = (selectFrom .expectName (Collection.listTokens cs ++ rest)).map Token.text := by
        rw [parts, selectFrom, hstep]
        rfl
    _ = (cs.map Collection.name).map Token.text ++ parts rest := by
        rw [selectFrom_listTokens hcs hrest, List.map_append, parts]
    _ = cs.map (·.name.text) ++ parts rest := by
        rw [List.map_map]
        rfl

/-- A parenthesis and a stray comma in front of names, an operation as an alias, a type of an object
as a name, and an operation behind the list. -/
theorem parts_collections_aliases :
    let t : Token := ⟨.keyword, "Join"⟩
    let a : Collection := ⟨[⟨.operator, "("⟩], ⟨.identifier, "a"⟩,
      .as ⟨.keyword, "as"⟩ ⟨.keyword, "SELECT"⟩ (by decide), by decide, by decide⟩
    let b : Collection := ⟨[⟨.operator, ","⟩], ⟨.quotedIdentifier, "[b]"⟩,
      .bare ⟨.identifier, "x"⟩ rfl, by decide, by decide⟩
    let c : Collection := ⟨[], ⟨.keyword, "Table"⟩, .none, by decide, by decide⟩
    let rest : List Token := [⟨.operator, ")"⟩, ⟨.keyword, "UNION"⟩, ⟨.keyword, "all"⟩]
    t.isAnyKeyword ["FROM", "INTO", "JOIN", "IN"] ∧ [a, b, c] ≠ [] ∧ EndsList rest ∧
      parts (t :: (Collection.listTokens [a, b, c] ++ rest)) =
        [a, b, c].map (·.name.text) ++ parts rest ∧
      parts (t :: (Collection.listTokens [a, b, c] ++ rest)) =
        ["a", "[b]", "Table", "UNION", "all"] := by
  intro t a b c rest
  have ht : t.isAnyKeyword ["FROM", "INTO", "JOIN", "IN"] := by decide
  have hcs : [a, b, c] ≠ [] := List.cons_ne_nil a [b, c]
  have hrest : EndsList rest := by
    intro u hu
    obtain rfl : ⟨.operator, ")"⟩ = u := Option.some.inj hu
    decide
  exact ⟨ht, hcs, hrest, parts_collections ht hcs hrest, by decide⟩

end QueryLabel.Summary
