import QueryLabel.Digits
/-!
Decimal numbers as they are written, and which of them a double can hold.
-/

namespace QueryLabel

/-- The number `mantissa * 10 ^ exponent`. -/
structure Decimal where
  mantissa : Nat
  exponent : Int

namespace Decimal

/-- Digits before and after the point, and the exponent that was written. -/
def ofParts (whole fraction : List Char) (exponent : Int) : Decimal :=
  ⟨Digits.number 10 (whole ++ fraction), exponent - fraction.length⟩

/-- Halfway between the largest double and the next power of two. From here on
numbers are rounded to infinity. -/
def doubleLimit : Nat := Nat.pow 2 1024 - Nat.pow 2 970

/-- Whether the nearest double is finite. The number of digits settles all but
the numbers of the size of the limit, so that no large power is ever computed. -/
def isFinite (d : Decimal) : Bool :=
  let top := (Nat.toDigits 10 d.mantissa).length + d.exponent
  if d.mantissa = 0 ∨ top ≤ 308 then true
  else if 309 < top then false
  else if 0 ≤ d.exponent then d.mantissa * Nat.pow 10 d.exponent.toNat < doubleLimit
  else d.mantissa < doubleLimit * Nat.pow 10 (-d.exponent).toNat

end Decimal

end QueryLabel
