import QueryLabel.Lexer
/-!
Splitting a script into statements.
-/

namespace QueryLabel.Statement

/-- The pieces between semicolons, as far as they hold a token. What is blank or
comment only is no statement. -/
def segments (ls : List Lexeme) : List (List Lexeme) :=
  (ls.splitOnP Lexeme.isTerminator).filter fun segment => segment.any fun l => l.token?.isSome

/-- The text of a statement keeps its inner comments but not the blanks at its
ends. -/
def text (segment : List Lexeme) : String :=
  String.ofList (Charset.trim (segment.flatMap Lexeme.text))

/-- The statements of a script in order. -/
def split (sql : String) : List String :=
  (segments (Lexeme.list sql.toList)).map text

end QueryLabel.Statement
