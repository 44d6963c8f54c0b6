import QueryLabel.Lexeme.Rule
import QueryLabel.Token
/-!
Lexemes: the pieces into which any query text falls. Together they are the text,
character by character.
-/

namespace QueryLabel

/-- What a piece of text is good for. Only tokens are kept. -/
inductive Role
  | token (kind : Kind)
  | blank
  | comment
  | unknown
  deriving DecidableEq

/-- A piece of query text. -/
structure Lexeme where
  role : Role
  text : List Char
  deriving DecidableEq

/-- The rules in the order in which they are tried. The order matters: a keyword
is also a name, and a comment starts like an operator. -/
def Rule.all : List (Role × (List Char → Nat)) :=
  [(.blank, Rule.blank), (.comment, Rule.comment), (.token .numeric, Rule.number),
   (.token .string, Rule.string), (.token .quotedIdentifier, Rule.quotedName),
   (.token .keyword, Keyword.length), (.token .identifier, Rule.name),
   (.token .operator, Rule.operator)]

namespace Lexeme

/-- The role and length of the first piece of the text. A character that no rule
takes is a piece of its own, so that scanning always moves on. -/
def measure (s : List Char) : Role × Nat :=
  (Rule.all.findSome? fun (role, length) =>
    match length s with
    | 0 => none
    | n => some (role, n)).getD (.unknown, 1)

/-- The first piece of the text. -/
def first (s : List Char) : Lexeme :=
  ⟨(measure s).1, s.take (measure s).2⟩

/-- The pieces of the text, once its first `taken` characters are passed over. -/
def listAfter : (taken : Nat) → List Char → List Lexeme
  | _, [] => []
  | taken + 1, _ :: s => listAfter taken s
  | 0, c :: s => first (c :: s) :: listAfter ((measure (c :: s)).2 - 1) s

/-- The pieces into which the text falls. -/
def list (s : List Char) : List Lexeme :=
  listAfter 0 s

/-- The number of bytes of the piece in UTF-8. -/
def size (l : Lexeme) : Nat :=
  l.text.foldr (fun c n => c.utf8Size + n) 0

/-- The token that the piece is, unless it is discarded. -/
def token? (l : Lexeme) : Option Token :=
  match l.role with
  | .token kind => some ⟨kind, String.ofList l.text⟩
  | _ => none

/-- A semicolon that ends a statement, not one inside quotes or a comment. -/
def isTerminator (l : Lexeme) : Bool :=
  l.role == .token .operator && l.text == [';']

variable {n : Nat} {c : Char} {s : List Char}

/-- No piece is empty. -/
theorem measure_pos : 0 < (measure s).2 := by
  unfold measure
  cases h : Rule.all.findSome? fun (x : Role × (List Char → Nat)) =>
      match x.2 s with
      | 0 => none
      | n => some (x.1, n) with
  | none => simp
  | some x =>
    obtain ⟨rule, _, hx⟩ := List.exists_of_findSome?_eq_some h
    split at hx
    · simp at hx
    · next hn =>
      obtain rfl : (rule.1, rule.2 s) = x := by simpa using hx
      exact Nat.pos_of_ne_zero hn

theorem listAfter_eq : listAfter n s = list (s.drop n) := by
  induction s generalizing n with
  | nil => simp [list, listAfter]
  | cons c s ih =>
    cases n with
    | zero => rfl
    | succ n => simpa [listAfter] using ih

theorem list_nil : list [] = [] := rfl

theorem list_cons :
    list (c :: s) = first (c :: s) :: list ((c :: s).drop (measure (c :: s)).2) := by
  obtain ⟨n, hn⟩ := Nat.exists_eq_succ_of_ne_zero (Nat.ne_of_gt (measure_pos (s := c :: s)))
  rw [list, listAfter, listAfter_eq, hn]
  rfl

/-- The pieces leave nothing out. -/
theorem flatMap_text_list : (list s).flatMap text = s := by
  induction h : s.length using Nat.strongRecOn generalizing s with
  | _ n ih =>
    cases s with
    | nil => rfl
    | cons c s =>
      have hpos := measure_pos (s := c :: s)
      rw [list_cons, List.flatMap_cons, ih _ (by simp at h ⊢; omega) rfl]
      exact List.take_append_drop _ _

end Lexeme

end QueryLabel
