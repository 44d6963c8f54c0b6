import QueryLabel.Lexeme.Basic
/-!
Reading query text as tokens.
-/

namespace QueryLabel

/-- A token and the bytes of the text that it stands in, from `start` up to but
not including `stop`. -/
structure Spanned where
  token : Token
  start : Nat
  stop : Nat
  deriving DecidableEq

/-- A reader of tokens: the pieces of text still ahead, and the number of bytes
already behind. -/
structure Lexer where
  ahead : List Lexeme
  offset : Nat

namespace Lexer

def ofString (sql : String) : Lexer :=
  ⟨Lexeme.list sql.toList, 0⟩

/-- Reads on to the next token, past the pieces that are none. -/
def nextFrom (offset : Nat) : List Lexeme → Option Spanned × Lexer
  | [] => (none, ⟨[], offset⟩)
  | l :: ls =>
    match l.token? with
    | some t => (some ⟨t, offset, offset + l.size⟩, ⟨ls, offset + l.size⟩)
    | none => nextFrom (offset + l.size) ls

/-- The next token, if there is one, and the reader after it. -/
def next (l : Lexer) : Option Spanned × Lexer :=
  nextFrom l.offset l.ahead

/-- The tokens among pieces that begin at `offset`. -/
def spannedFrom (offset : Nat) : List Lexeme → List Spanned
  | [] => []
  | l :: ls =>
    match l.token? with
    | some t => ⟨t, offset, offset + l.size⟩ :: spannedFrom (offset + l.size) ls
    | none => spannedFrom (offset + l.size) ls

/-- All tokens ahead, with their places in the whole text. -/
def spanned (l : Lexer) : List Spanned :=
  spannedFrom l.offset l.ahead

/-- All tokens ahead. -/
def tokens (l : Lexer) : List Token :=
  l.ahead.filterMap Lexeme.token?

variable {offset : Nat} {ls : List Lexeme} {l r : Lexer} {x : Spanned}

theorem map_token_spannedFrom :
    (spannedFrom offset ls).map Spanned.token = ls.filterMap Lexeme.token? := by
  induction ls generalizing offset with
  | nil => rfl
  | cons l ls ih => cases h : l.token? <;> simp [spannedFrom, h, ih]

theorem map_token_spanned : l.spanned.map Spanned.token = l.tokens :=
  map_token_spannedFrom

/-- Reading on and listing agree: each token is read exactly once. -/
theorem spanned_eq_next :
    l.spanned = match l.next with
      | (some x, r) => x :: r.spanned
      | (none, _) => [] := by
  obtain ⟨ls, offset⟩ := l
  unfold next spanned
  induction ls generalizing offset with
  | nil => rfl
  | cons p ls ih =>
    cases h : p.token? with
    | none => simpa [spannedFrom, nextFrom, h] using ih _
    | some t => simp [spannedFrom, nextFrom, h]

end Lexer

/-- The tokens of a text with their places. -/
def spanned (sql : String) : List Spanned :=
  (Lexer.ofString sql).spanned

/-- The tokens of a text. -/
def tokenize (sql : String) : List Token :=
  (Lexer.ofString sql).tokens

end QueryLabel
