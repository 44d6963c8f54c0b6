import QueryLabel.Record
import QueryLabel.Report.Style
/-!
Reports for people to read: a numbered line for each statement.
-/

namespace QueryLabel.Report.Text

/-- A number as people count, from one, set to the right of four columns. Counting
has 64 bits, so behind its end it goes on at zero. -/
def number (index : Nat) : List Char :=
  let digits := ((index + 1) % UInt64.size).repr.toList
  List.replicate (4 - digits.length) ' ' ++ digits ++ ['.']

/-- What stands in place of an empty summary. -/
def placeholder : List Char := "(no summary)".toList

/-- The summary stands out, and its number and a placeholder recede. -/
def line (styled : Bool) (r : Record) : List Char :=
  let label :=
    if r.summary.isEmpty then Style.applyIf styled .dim placeholder
    else Style.applyIf styled .bold r.summary.toList
  Style.applyIf styled .dim (number r.index) ++ ' ' :: label ++ ['\n']

/-- What a report on no statements says. -/
def nothing : List Char := "No statements found".toList

def render (styled : Bool) : List Record → List Char
  | [] => nothing
  | records => records.flatMap (line styled)

end QueryLabel.Report.Text
