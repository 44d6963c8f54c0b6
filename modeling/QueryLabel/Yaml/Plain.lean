import QueryLabel.Decimal
/-!
Bare words of YAML that do not read as strings: nulls, booleans and numbers.
-/

namespace QueryLabel.Yaml

def isNull (s : List Char) : Bool :=
  s.isEmpty || ["null", "Null", "NULL", "~"].any fun word => s == word.toList

def isBoolean (s : List Char) : Bool :=
  ["true", "True", "TRUE", "false", "False", "FALSE"].any fun word => s == word.toList

/-- Whether digits are there and give a number up to a limit. -/
def isNatural (base limit : Nat) (s : List Char) : Bool :=
  !s.isEmpty && s.all (Digits.isIn base) && Digits.number base s ≤ limit

/-- Digits behind the mark of a base, if a mark stands here. -/
def unmark : List Char → Option (Nat × List Char)
  | '0' :: 'x' :: s => some (16, s)
  | '0' :: 'o' :: s => some (8, s)
  | '0' :: 'b' :: s => some (2, s)
  | _ => none

def dropPlus : List Char → List Char
  | '+' :: s => s
  | s => s

def dropSign : List Char → List Char
  | '+' :: s => s
  | '-' :: s => s
  | s => s

/-- A natural number, marked or decimal. Integers have up to 128 bits. -/
def isMagnitude (limit : Nat) (s : List Char) : Bool :=
  match unmark s with
  | some (base, digits) => isNatural base limit digits
  | none => isNatural 10 limit s

def isInteger : List Char → Bool
  | '-' :: s => isMagnitude (Nat.pow 2 127) s
  | s => isMagnitude (Nat.pow 2 128 - 1) (dropPlus s)

/-- Digits behind a leading zero, which make no number but look like one. -/
def isZeroLed (s : List Char) : Bool :=
  match dropSign s with
  | '0' :: d :: digits => (d :: digits).all Char.isDigit
  | _ => false

/-- An exponent, or nothing. -/
def exponent? : List Char → Option Int
  | [] => some 0
  | c :: s =>
    let digits := dropSign s
    if (c == 'e' || c == 'E') && !digits.isEmpty && digits.all Char.isDigit then
      let n : Int := Digits.number 10 digits
      some (if s.head? == some '-' then -n else n)
    else none

/-- A decimal number: digits with at most one point among or around them. -/
def decimal? (s : List Char) : Option Decimal :=
  let (whole, afterWhole) := s.span Char.isDigit
  let (fraction, afterFraction) := match afterWhole with
    | '.' :: t => t.span Char.isDigit
    | t => ([], t)
  if whole.isEmpty && fraction.isEmpty then none
  else (exponent? afterFraction).map (.ofParts whole fraction ·)

/-- A float that a double can hold, an infinity, or no number. -/
def isFloat (s : List Char) : Bool :=
  [".inf", ".Inf", ".INF", "+.inf", "+.Inf", "+.INF", "-.inf", "-.Inf", "-.INF",
    ".nan", ".NaN", ".NAN"].any (fun word => s == word.toList) ||
  (decimal? (dropSign s)).any Decimal.isFinite

/-- Whether a bare word would read back as something other than itself. -/
def isAmbiguous (s : List Char) : Bool :=
  isNull s || isBoolean s || isInteger s || isZeroLed s || isFloat s

end QueryLabel.Yaml
