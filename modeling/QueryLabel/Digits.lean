/-!
Digits and the whole numbers that they write, in bases up to sixteen.
-/

namespace QueryLabel.Digits

/-- Hexadecimal digits, with letters of either case. -/
def isHex (c : Char) : Bool :=
  c.isDigit || ('a' ≤ c && c ≤ 'f') || ('A' ≤ c && c ≤ 'F')

/-- The value of a digit. -/
def value (c : Char) : Nat :=
  if c.isDigit then c.toNat - '0'.toNat
  else if c.isUpper then c.toNat - 'A'.toNat + 10
  else c.toNat - 'a'.toNat + 10

/-- Whether a character is a digit of a base. -/
def isIn (base : Nat) (c : Char) : Bool :=
  isHex c && value c < base

/-- The number that digits write in a base, from the left. -/
def number (base : Nat) (s : List Char) : Nat :=
  s.foldl (fun n c => base * n + value c) 0

/-- The digit of a value, where the digits from ten on begin at the letter `a`. -/
def ofValue (a : Char) (n : Nat) : Char :=
  if n < 10 then Char.ofNat ('0'.toNat + n) else Char.ofNat (a.toNat + (n - 10))

/-- A number in a fixed count of hexadecimal digits, of which the higher ones
are cut off if they do not fit. -/
def hex (a : Char) : (count n : Nat) → List Char
  | 0, _ => []
  | count + 1, n => hex a count (n / 16) ++ [ofValue a (n % 16)]

/-- Decimal numbers are written in digits. -/
theorem isDigit_of_mem_repr {n : Nat} {c : Char} (h : c ∈ n.repr.toList) : c.isDigit := by
  rw [Nat.toList_repr] at h
  exact Nat.isDigit_of_mem_toDigits (by decide) (by decide) h

end QueryLabel.Digits
