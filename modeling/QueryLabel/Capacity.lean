/-!
Capacities of a cache and how people write them.
-/

namespace QueryLabel

/-- The most entries that a cache may hold, at least one. -/
abbrev Capacity := { n : Nat // 0 < n }

namespace Capacity

/-- The capacity of a cache for which none was chosen. -/
def standard : Capacity := ⟨1000, by decide⟩

/-- The greatest capacity that can be written down: sizes have 64 bits. -/
def limit : Nat := UInt64.size - 1

/-- Why a text is no capacity. -/
inductive ReadError
  | empty
  | invalidDigit
  | tooLarge
  | zero
  deriving DecidableEq

def ReadError.message : ReadError → String
  | empty => "cannot parse integer from empty string"
  | invalidDigit => "invalid digit found in string"
  | tooLarge => "number too large to fit in target type"
  | zero => "number would be zero for non-zero type"

/-- Reads digits from the left after those that made `n`, and stops at the first
fault: a character that is no digit, or a number beyond the limit. -/
def readDigits (n : Nat) : List Char → Except ReadError Nat
  | [] => .ok n
  | c :: s =>
    if c.isDigit then
      let n' := 10 * n + (c.toNat - '0'.toNat)
      if limit < n' then .error .tooLarge else readDigits n' s
    else .error .invalidDigit

/-- Reads a number of at least one digit, with or without a plus sign. -/
def readNumber : List Char → Except ReadError Nat
  | [] => .error .empty
  | ['+'] => .error .invalidDigit
  | '+' :: s => readDigits 0 s
  | s => readDigits 0 s

def read (s : List Char) : Except ReadError Capacity := do
  let n ← readNumber s
  if h : 0 < n then .ok ⟨n, h⟩ else .error .zero

end Capacity

end QueryLabel
