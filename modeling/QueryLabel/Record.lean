/-!
Records: the summaries of a script with their places in it.
-/

namespace QueryLabel

/-- The summary of one statement, counted from zero. -/
structure Record where
  index : Nat
  summary : String
  deriving DecidableEq

namespace Record

/-- Numbers summaries in their order, from a given number on. -/
def numberFrom (index : Nat) : List String → List Record
  | [] => []
  | summary :: rest => ⟨index, summary⟩ :: numberFrom (index + 1) rest

/-- Numbers summaries in their order. -/
def number (summaries : List String) : List Record :=
  numberFrom 0 summaries

end Record

end QueryLabel
