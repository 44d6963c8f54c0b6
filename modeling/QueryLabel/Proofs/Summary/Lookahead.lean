import QueryLabel.Proofs.Summary.Alias

/-! Reading ahead. The words of a summary are also found by a reader that knows no more than whether
a name is expected, and looks at the next token wherever that may belong to the one before it. It
shows the same tokens as reading one by one does. So it never takes back a word for what it sees
ahead, and summaries only grow. -/

namespace QueryLabel.Summary

variable {s s₁ s₂ : State} {t : Token} {ts : List Token} {p : Token → Bool} {expectsName : Bool}

/-- Takes the next token, if it is as asked for. -/
def takeIf (p : Token → Bool) : List Token → Option Token × List Token
  | [] => (none, [])
  | t :: ts => if p t then (some t, ts) else (none, t :: ts)

/-- What is left behind the alias of a collection, if there is one: any token behind an `AS`, or an
identifier. -/
def behindAlias (ts : List Token) : List Token :=
  match takeIf (·.isKeyword "AS") ts with
  | (some _, rest) => rest.tail
  | (none, rest) => (takeIf (·.kind == .identifier) rest).2

/-- What a token comes to, with those that belong to it: the tokens shown, whether a name is
expected behind them, and the tokens that are left. -/
structure Reading where
  shown : List Token
  expectsName : Bool
  rest : List Token

/-- Reads an operation. The type of an object behind a definition and the `ALL` behind a union
belong to it. -/
def Operation.read (t : Token) (ts : List Token) : Operation → Reading
  | action => ⟨[t], false, ts⟩
  | target => ⟨[t], true, ts⟩
  | source => ⟨[], true, ts⟩
  | definition =>
    let (type, rest) := takeIf isObjectType ts
    ⟨t :: type.toList, type.isSome, rest⟩
  | union =>
    let (all, rest) := takeIf (·.isKeyword "ALL") ts
    ⟨t :: all.toList, false, rest⟩

/-- Reads a token in the place of a name. Its alias belongs to a name, and a comma tells whether
another one is expected. -/
def readName (t : Token) (ts : List Token) : Reading :=
  if isName t then
    let (comma, rest) := takeIf (·.isOperator ",") (behindAlias ts)
    ⟨[t], comma.isSome, rest⟩
  else ⟨[], t.kind == .operator, ts⟩

/-- Reads a token, and those ahead that belong to it. -/
def read (expectsName : Bool) (t : Token) (ts : List Token) : Reading :=
  match operation? t with
  | some op => op.read t ts
  | none => if expectsName then readName t ts else ⟨[], false, ts⟩

theorem takeIf_suffix (p : Token → Bool) (ts : List Token) : (takeIf p ts).2 <:+ ts := by
  cases ts with
  | nil => exact List.suffix_rfl
  | cons t ts =>
    rw [takeIf]
    split
    · exact List.suffix_cons t ts
    · exact List.suffix_rfl

theorem behindAlias_suffix (ts : List Token) : behindAlias ts <:+ ts := by
  have has := takeIf_suffix (·.isKeyword "AS") ts
  rw [behindAlias]
  split
  · next heq =>
    rw [heq] at has
    exact (List.tail_suffix _).trans has
  · next heq =>
    rw [heq] at has
    exact (takeIf_suffix _ _).trans has

theorem read_suffix (expectsName : Bool) (t : Token) (ts : List Token) :
    (read expectsName t ts).rest <:+ ts := by
  rw [read]
  split
  · next op _ =>
    cases op with
    | action | target | source => exact List.suffix_rfl
    | definition | union => exact takeIf_suffix _ ts
  · split
    · rw [readName]
      split
      · exact (takeIf_suffix _ _).trans (behindAlias_suffix ts)
      · exact List.suffix_rfl
    · exact List.suffix_rfl

/-- The tokens that a reader shows. -/
def readAll (expectsName : Bool) : List Token → List Token
  | [] => []
  | t :: ts =>
    (read expectsName t ts).shown ++
      readAll (read expectsName t ts).expectsName (read expectsName t ts).rest
termination_by ts => ts.length
decreasing_by exact Nat.lt_succ_of_le (read_suffix expectsName t ts).length_le

/-- The state of one who reads one by one, where a reader comes to a new token. -/
def State.awaiting (expectsName : Bool) : State :=
  if expectsName then .expectName else .idle

/-- The tokens shown from a reading on, if the rest is read one by one. -/
def Reading.selected (r : Reading) : List Token :=
  r.shown ++ selectFrom (.awaiting r.expectsName) r.rest

/-- A state that waits for tokens of one kind, and takes all others as another state does. -/
theorem selectFrom_takeIf (shows : Bool) (htake : ∀ t, p t → s.step t = (shows, s₁))
    (hleave : ∀ t, p t = false → s.step t = s₂.step t) :
    selectFrom s ts = (if shows then (takeIf p ts).1.toList else []) ++
      selectFrom (if (takeIf p ts).1.isSome then s₁ else s₂) (takeIf p ts).2 := by
  cases ts with
  | nil => simp [takeIf, selectFrom]
  | cons t ts =>
    cases hp : p t with
    | true =>
      simp only [takeIf, hp, selectFrom, htake t hp]
      cases shows <;> rfl
    | false =>
      simp only [takeIf, hp, selectFrom, hleave t hp]
      cases shows <;> rfl

theorem selectFrom_afterDefinition : selectFrom .afterDefinition ts =
    (takeIf isObjectType ts).1.toList ++
      selectFrom (.awaiting (takeIf isObjectType ts).1.isSome) (takeIf isObjectType ts).2 := by
  refine selectFrom_takeIf true ?_ ?_
  · intro t ht
    have hname : isName t := by simp [isName, ht]
    rw [step_eq_proceed (operation?_name hname)]
    simp [State.proceed, ht]
  · intro t ht
    exact step_congr (by decide) (by decide) (by simp [State.proceed, ht])

theorem selectFrom_afterUnion : selectFrom .afterUnion ts =
    (takeIf (·.isKeyword "ALL") ts).1.toList ++
      selectFrom .idle (takeIf (·.isKeyword "ALL") ts).2 := by
  have htake (t : Token) (ht : t.isKeyword "ALL") : State.afterUnion.step t = (true, .idle) := by
    rw [step_eq_proceed (operation?_keyword (by decide) ht)]
    simp [State.proceed, ht]
  have hleave (t : Token) (ht : t.isKeyword "ALL" = false) :
      State.afterUnion.step t = State.idle.step t :=
    step_congr (by decide) (by decide) (by simp [State.proceed, ht])
  rw [selectFrom_takeIf true htake hleave, ite_self]
  rfl

theorem selectFrom_afterAlias : selectFrom .afterAlias ts =
    selectFrom (.awaiting (takeIf (·.isOperator ",") ts).1.isSome)
      (takeIf (·.isOperator ",") ts).2 := by
  refine selectFrom_takeIf false ?_ ?_
  · intro t ht
    obtain rfl := Token.isOperator_iff.1 ht
    decide
  · intro t ht
    exact step_congr (by decide) (by decide) (by simp [State.proceed, ht])

theorem selectFrom_afterName :
    selectFrom .afterName ts = selectFrom .afterAlias (behindAlias ts) := by
  cases ts with
  | nil => rfl
  | cons t ts =>
    by_cases has : t.isKeyword "AS"
    · -- The token behind the `AS` is passed over unread, so it is no matter whether there is one.
      rw [selectFrom, step_as has]
      simp only [behindAlias, takeIf, has]
      cases ts <;> rfl
    · by_cases hid : t.kind = .identifier
      · have hk : t.kind ≠ .keyword := by simp [hid]
        rw [selectFrom, step_eq_proceed (operation?_of_kind_ne hk)]
        simp [behindAlias, takeIf, has, hid, State.proceed]
      · have hstep : State.afterName.step t = State.afterAlias.step t :=
          step_congr (by decide) (by decide) (by simp [State.proceed, has, hid])
        simp [behindAlias, takeIf, has, hid, selectFrom, hstep]

theorem selectFrom_operation {op : Operation} (hop : operation? t = some op)
    (hs : s ≠ .expectAlias) : selectFrom s (t :: ts) = (op.read t ts).selected := by
  rw [selectFrom, step_eq_of_operation hop hs]
  cases op with
  | action | target | source => rfl
  | definition => exact congrArg (t :: ·) selectFrom_afterDefinition
  | union => exact congrArg (t :: ·) selectFrom_afterUnion

theorem selectFrom_readName (hop : operation? t = none) :
    selectFrom .expectName (t :: ts) = (readName t ts).selected := by
  by_cases hname : isName t
  · rw [selectFrom, step_name hname]
    simp only [readName, hname, if_true, selectFrom_afterName, selectFrom_afterAlias]
    rfl
  · rw [selectFrom, step_eq_proceed hop]
    simp only [readName, hname, State.proceed]
    cases t.kind == .operator <;> rfl

/-- Reading one by one comes to what reading ahead says of the first token, and goes on behind all
that belongs to it. -/
theorem selectFrom_read :
    selectFrom (.awaiting expectsName) (t :: ts) = (read expectsName t ts).selected := by
  cases hop : operation? t with
  | some op =>
    have hs : State.awaiting expectsName ≠ .expectAlias := by cases expectsName <;> decide
    rw [selectFrom_operation hop hs]
    simp only [read, hop]
  | none =>
    cases expectsName with
    | true =>
      simp only [read, hop]
      exact selectFrom_readName hop
    | false =>
      simp only [read, hop, State.awaiting, selectFrom, step_eq_proceed hop]
      rfl

theorem readAll_eq_selectFrom : readAll expectsName ts = selectFrom (.awaiting expectsName) ts := by
  fun_induction readAll expectsName ts with
  | case1 => rfl
  | case2 expectsName t ts ih =>
    rw [ih, selectFrom_read]
    rfl

/-- The words that a reader finds. -/
def wordsAhead (ts : List Token) : List String :=
  (readAll false ts).map Token.text

/-- A reader finds the words of the summary. -/
theorem wordsAhead_eq_parts : wordsAhead ts = parts ts := by
  rw [wordsAhead, readAll_eq_selectFrom]
  rfl

theorem exists_parts_append (ts us : List Token) :
    ∃ ws, parts (ts ++ us) = parts ts ++ ws ∧ ws.Sublist (us.map Token.text) := by
  refine ⟨(selectFrom (after .idle ts) us).map Token.text, ?_, selectFrom_sublist.map _⟩
  rw [parts, selectFrom_append, List.map_append]
  rfl

theorem exists_intercalate_append (ws vs : List String) :
    ∃ rest, " ".intercalate (ws ++ vs) = " ".intercalate ws ++ rest := by
  by_cases hws : ws = []
  · exact ⟨" ".intercalate vs, by simp [hws]⟩
  · by_cases hvs : vs = []
    · exact ⟨"", by simp [hvs]⟩
    · exact ⟨" " ++ " ".intercalate vs, by
        rw [String.intercalate_append_of_ne_nil hws hvs, String.append_assoc]⟩

/-- Summaries only grow. More tokens leave the words before them as they are and add none but their
own, so the text is only made longer; and a reader that looks ahead takes back none of its words
either, wherever the tokens were cut off before. -/
theorem summary_grows (ts us : List Token) :
    (∃ ws, parts (ts ++ us) = parts ts ++ ws ∧ ws.Sublist (us.map Token.text)) ∧
    (∃ rest, ofTokens (ts ++ us) = ofTokens ts ++ rest) ∧
    wordsAhead ts <+: wordsAhead (ts ++ us) := by
  obtain ⟨ws, hparts, hws⟩ := exists_parts_append ts us
  have htext := exists_intercalate_append (parts ts) ws
  refine ⟨⟨ws, hparts, hws⟩, ?_, ?_⟩
  · rwa [← hparts] at htext
  · rw [wordsAhead_eq_parts, wordsAhead_eq_parts, hparts]
    exact List.prefix_append _ _

end QueryLabel.Summary
