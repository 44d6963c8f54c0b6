import QueryLabel.Lexer
/-!
Summaries: the operations of a query and the collections that they name, and
nothing of its data. One pass over the tokens decides which of them are shown.
-/

namespace QueryLabel.Summary

/-- Keywords that begin something, by what they lead to. -/
inductive Operation
  /-- Shown, and names nothing itself. -/
  | action
  /-- Shown, and the name of a collection follows. -/
  | target
  /-- Not shown, but the name of a collection follows. -/
  | source
  /-- Shown, and the type of an object may follow. -/
  | definition
  /-- Shown, and `ALL` may follow. -/
  | union
  deriving DecidableEq

/-- The keywords of each operation. -/
def Operation.words : Operation → List String
  | action => ["SELECT", "INSERT", "DELETE"]
  | target => ["WITH", "UPDATE"]
  | source => ["FROM", "INTO", "JOIN", "IN"]
  | definition => ["CREATE", "ALTER", "DROP", "TRUNCATE"]
  | union => ["UNION"]

/-- The operation that a token begins. -/
def operation? (t : Token) : Option Operation :=
  [Operation.action, .target, .source, .definition, .union].find? fun op =>
    t.isAnyKeyword op.words

/-- Keywords for the types of objects. They also serve as names of collections. -/
def objectTypes : List String :=
  ["TABLE", "INDEX", "PROCEDURE", "VIEW", "DATABASE"]

def isObjectType (t : Token) : Bool :=
  t.isAnyKeyword objectTypes

/-- Whether a token can name a collection. -/
def isName (t : Token) : Bool :=
  t.kind == .identifier || t.kind == .quotedIdentifier || isObjectType t

/-- What the tokens so far lead to expect. -/
inductive State
  | idle
  | expectName
  /-- Just after `CREATE` and its like. -/
  | afterDefinition
  /-- Just after `UNION`. -/
  | afterUnion
  /-- Just after the name of a collection. -/
  | afterName
  /-- Just after the `AS` behind a name: any token is its alias. -/
  | expectAlias
  /-- Just after the alias of a collection. -/
  | afterAlias
  deriving DecidableEq

/-- Whether an operation is shown, and what it leads to. -/
def Operation.step : Operation → Bool × State
  | action => (true, .idle)
  | target => (true, .expectName)
  | source => (false, .expectName)
  | definition => (true, .afterDefinition)
  | union => (true, .afterUnion)

/-- Whether a token that begins no operation is shown, and what it leads to. -/
def State.proceed (t : Token) : State → Bool × State
  | idle => (false, .idle)
  | expectName =>
    if isName t then (true, .afterName)
    else if t.kind == .operator then (false, .expectName)
    else (false, .idle)
  | afterDefinition => if isObjectType t then (true, .expectName) else (false, .idle)
  | afterUnion => (t.isKeyword "ALL", .idle)
  | afterName =>
    if t.isKeyword "AS" then (false, .expectAlias)
    else if t.kind == .identifier then (false, .afterAlias)
    else if t.isOperator "," then (false, .expectName)
    else (false, .idle)
  | expectAlias => (false, .afterAlias)
  | afterAlias => if t.isOperator "," then (false, .expectName) else (false, .idle)

/-- Whether a token is shown, and what it leads to. An operation is seen
everywhere except in place of an alias. -/
def State.step (s : State) (t : Token) : Bool × State :=
  match s, operation? t with
  | .expectAlias, _ => s.proceed t
  | _, some op => op.step
  | _, none => s.proceed t

/-- For each token, whether it is shown. -/
def shown : State → List Token → List Bool
  | _, [] => []
  | s, t :: ts => (s.step t).1 :: shown (s.step t).2 ts

/-- The state after a run of tokens. -/
def after (s : State) (ts : List Token) : State :=
  ts.foldl (fun s t => (s.step t).2) s

/-- The tokens that are shown, read from a given state. -/
def selectFrom : State → List Token → List Token
  | _, [] => []
  | s, t :: ts =>
    if (s.step t).1 then t :: selectFrom (s.step t).2 ts else selectFrom (s.step t).2 ts

/-- The words of a summary. -/
def parts (ts : List Token) : List String :=
  (selectFrom .idle ts).map Token.text

/-- The summary of a run of tokens, empty if nothing in it is worth showing. -/
def ofTokens (ts : List Token) : String :=
  " ".intercalate (parts ts)

/-- The summary of a query. -/
def ofQuery (sql : String) : String :=
  ofTokens (tokenize sql)

variable {s : State} {t : Token} {ts us : List Token}

theorem selectFrom_append :
    selectFrom s (ts ++ us) = selectFrom s ts ++ selectFrom (after s ts) us := by
  induction ts generalizing s with
  | nil => rfl
  | cons t ts ih =>
    simp only [List.cons_append, selectFrom, ih, after, List.foldl_cons]
    split <;> rfl

theorem length_shown : (shown s ts).length = ts.length := by
  induction ts generalizing s with
  | nil => rfl
  | cons t ts ih => simp [shown, ih]

/-- The mask and the selection tell the same tokens. -/
theorem selectFrom_eq_shown :
    selectFrom s ts = ((ts.zip (shown s ts)).filter Prod.snd).map Prod.fst := by
  induction ts generalizing s with
  | nil => rfl
  | cons t ts ih =>
    simp only [selectFrom, shown, List.zip_cons_cons, List.filter_cons, ih]
    split <;> simp_all

theorem selectFrom_sublist : (selectFrom s ts).Sublist ts := by
  induction ts generalizing s with
  | nil => exact .slnil
  | cons t ts ih =>
    unfold selectFrom
    split
    · exact ih.cons_cons t
    · exact ih.cons t

end QueryLabel.Summary
