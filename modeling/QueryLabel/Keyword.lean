import QueryLabel.Charset.Word
/-!
Reserved words and how they are found in text.
-/

namespace QueryLabel.Keyword
open Charset

/-- The words that read as keywords rather than as names. -/
def reserved : List String :=
  ["SELECT", "INSERT", "UPDATE", "DELETE", "FROM", "INTO", "JOIN", "CREATE", "ALTER", "DROP",
   "TRUNCATE", "WITH", "UNION", "TABLE", "INDEX", "PROCEDURE", "VIEW", "DATABASE", "AS", "ALL",
   "IN"]

/-- Simple case folding, as far as it reaches an ASCII letter: besides the
capitals, the long s and the Kelvin sign do. -/
def fold (c : Char) : Char :=
  if c == '\u017F' then 's' else if c == '\u212A' then 'k' else c.toLower

/-- Whether the text begins with the word, up to case. -/
def startsWith (word s : List Char) : Bool :=
  (s.take word.length).map fold == word.map fold

/-- A word ends where the text does, or before a character that continues no
word. -/
def endsWord : List Char → Bool
  | [] => true
  | c :: _ => !isWord c

/-- Whether the text begins with the word and the word ends there. -/
def matchesWord (word s : List Char) : Bool :=
  startsWith word s && endsWord (s.drop word.length)

/-- The length of the reserved word that begins the text, or zero. Trying the
words in order is enough: of `IN` and `INTO` only one can end where it ends. -/
def length (s : List Char) : Nat :=
  ((reserved.map String.toList).find? (matchesWord · s)).elim 0 List.length

end QueryLabel.Keyword
