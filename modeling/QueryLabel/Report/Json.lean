import QueryLabel.Digits
import QueryLabel.Record
/-!
Reports as JSON, indented by two spaces.
-/

namespace QueryLabel.Report.Json

/-- Quotes, backslashes and control characters are escaped, and nothing else. -/
def escape (c : Char) : List Char :=
  if c == '"' then ['\\', '"']
  else if c == '\\' then ['\\', '\\']
  else if c == '\n' then ['\\', 'n']
  else if c == '\r' then ['\\', 'r']
  else if c == '\t' then ['\\', 't']
  else if c == '\x08' then ['\\', 'b']
  else if c == '\x0c' then ['\\', 'f']
  else if c.toNat < 32 then '\\' :: 'u' :: Digits.hex 'a' 4 c.toNat
  else [c]

/-- A text in quotes. -/
def quote (s : List Char) : List Char :=
  '"' :: s.flatMap escape ++ ['"']

/-- A record, set in by two spaces. -/
def object (r : Record) : List Char :=
  "  \x7b\n    \"index\": ".toList ++ r.index.repr.toList ++
    ",\n    \"summary\": ".toList ++ quote r.summary.toList ++ "\n  \x7d".toList

/-- Records after the first one. -/
def rest (records : List Record) : List Char :=
  records.flatMap fun r => ",\n".toList ++ object r

def render : List Record → List Char
  | [] => "[]".toList
  | r :: records => "[\n".toList ++ object r ++ rest records ++ "\n]".toList

end QueryLabel.Report.Json
