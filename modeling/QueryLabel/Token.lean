/-!
Tokens: classified pieces of query text.
-/

namespace QueryLabel

/-- What a token is. -/
inductive Kind
  | keyword
  | identifier
  | quotedIdentifier
  | string
  | numeric
  | operator
  deriving DecidableEq

/-- The name under which a kind is reported. -/
def Kind.name : Kind → String
  | keyword => "keyword"
  | identifier => "identifier"
  | quotedIdentifier => "quoted_identifier"
  | string => "string"
  | numeric => "numeric"
  | operator => "operator"

/-- A token keeps the spelling that the query gave it, so that labels show
names and keywords in their own case. -/
structure Token where
  kind : Kind
  text : String
  deriving DecidableEq

/-- Keywords are compared ignoring the case of ASCII letters only. -/
def sameWord (a b : String) : Bool :=
  a.toList.map Char.toLower == b.toList.map Char.toLower

namespace Token

/-- A name in quotes is never a keyword, whatever it says. -/
def isKeyword (t : Token) (word : String) : Bool :=
  t.kind == .keyword && sameWord t.text word

/-- Whether the token is one of several keywords. -/
def isAnyKeyword (t : Token) (words : List String) : Bool :=
  words.any t.isKeyword

/-- Whether the token is the operator spelled exactly so. -/
def isOperator (t : Token) (text : String) : Bool :=
  t.kind == .operator && t.text == text

/-- Literals hold the data of a query, which no label may show. -/
def isLiteral (t : Token) : Bool :=
  t.kind == .string || t.kind == .numeric

end Token

variable {a b c : String} {t : Token}

theorem sameWord_iff :
    sameWord a b ↔ a.toList.map Char.toLower = b.toList.map Char.toLower := by
  simp [sameWord]

theorem sameWord_symm (h : sameWord a b) : sameWord b a :=
  sameWord_iff.2 (sameWord_iff.1 h).symm

theorem sameWord_trans (h : sameWord a b) (h' : sameWord b c) : sameWord a c :=
  sameWord_iff.2 ((sameWord_iff.1 h).trans (sameWord_iff.1 h'))

namespace Token

theorem isKeyword_iff {word : String} :
    t.isKeyword word ↔ t.kind = .keyword ∧ sameWord t.text word := by
  simp [isKeyword]

theorem isAnyKeyword_iff {words : List String} :
    t.isAnyKeyword words ↔ ∃ w ∈ words, t.isKeyword w := by
  simp [isAnyKeyword]

theorem isKeyword_of_kind_ne (h : t.kind ≠ .keyword) (word : String) :
    t.isKeyword word = false := by
  simp [isKeyword, h]

theorem isAnyKeyword_of_kind_ne (h : t.kind ≠ .keyword) (words : List String) :
    t.isAnyKeyword words = false := by
  simp [isAnyKeyword, isKeyword_of_kind_ne h]

theorem isOperator_iff {text : String} : t.isOperator text ↔ t = ⟨.operator, text⟩ := by
  cases t; simp [isOperator]

theorem isLiteral_iff : t.isLiteral ↔ t.kind = .string ∨ t.kind = .numeric := by
  simp [isLiteral]

end Token

end QueryLabel
