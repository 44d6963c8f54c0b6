import QueryLabel.Toml.Quoted
import QueryLabel.Toml.Value
/-!
Values of a TOML document that are written bare: numbers, booleans, dates and
times.
-/

namespace QueryLabel.Toml

/-- Digits without the underscores that may stand between them. -/
def ungroup (p : Char → Bool) : List Char → Option (List Char)
  | [] => none
  | [c] => if p c then some [c] else none
  | c :: d :: s =>
    if !p c then none
    else if d == '_' then (ungroup p s).map (c :: ·)
    else (ungroup p (d :: s)).map (c :: ·)

/-- Digits of a decimal number, without a leading zero. -/
def wholeDigits (s : List Char) : Option (List Char) := do
  let digits ← ungroup Char.isDigit s
  if digits.head? == some '0' && digits.length != 1 then none else return digits

def inBase (base : Nat) (s : List Char) : Option Int :=
  (ungroup (Digits.isIn base) s).map fun digits => Digits.number base digits

/-- A sign, and what follows it. -/
def splitSign : List Char → Bool × List Char
  | '-' :: s => (true, s)
  | '+' :: s => (false, s)
  | s => (false, s)

/-- Only decimal integers may have a sign. -/
def integer? (s : List Char) : Option Int :=
  match s with
  | '0' :: 'x' :: t => inBase 16 t
  | '0' :: 'o' :: t => inBase 8 t
  | '0' :: 'b' :: t => inBase 2 t
  | s =>
    let (negative, t) := splitSign s
    (wholeDigits t).map fun digits =>
      let n : Int := Digits.number 10 digits
      if negative then -n else n

def isGrouped (c : Char) : Bool := c.isDigit || c == '_'

/-- An exponent with its letter. -/
def exponent? : List Char → Option Int
  | [] => none
  | c :: s =>
    if c == 'e' || c == 'E' then
      let (negative, t) := splitSign s
      (ungroup Char.isDigit t).map fun digits =>
        let n : Int := Digits.number 10 digits
        if negative then -n else n
    else none

/-- A float has a fraction, an exponent or both. -/
def float? (s : List Char) : Option Decimal := do
  let (_, t) := splitSign s
  let (whole, rest) := t.span isGrouped
  let whole ← wholeDigits whole
  match rest with
  | '.' :: u =>
    let (fraction, rest) := u.span isGrouped
    let fraction ← ungroup Char.isDigit fraction
    match rest with
    | [] => return .ofParts whole fraction 0
    | rest => return .ofParts whole fraction (← exponent? rest)
  | rest => return .ofParts whole [] (← exponent? rest)

/-- A number of a fixed count of digits. -/
def digits? (count : Nat) : Reader Nat := do
  let s ← get
  let digits := s.take count
  if digits.length == count && digits.all Char.isDigit then
    set (s.drop count)
    return Digits.number 10 digits
  else failure

/-- A number of two digits up to a limit. -/
def twoDigits (limit : Nat) : Reader Unit := do
  if limit < (← digits? 2) then failure

def daysIn (year month : Nat) : Nat :=
  if month == 2 then
    if (year % 4 == 0 && year % 100 != 0) || year % 400 == 0 then 29 else 28
  else if [4, 6, 9, 11].elem month then 30
  else 31

def date : Reader Unit := do
  let year ← digits? 4
  Reader.char '-'
  let month ← digits? 2
  Reader.char '-'
  let day ← digits? 2
  if month < 1 || 12 < month || day < 1 || daysIn year month < day then failure

/-- A time of day. Seconds may be left out, and may tell a leap second. -/
def time : Reader Unit := do
  twoDigits 23
  Reader.char ':'
  twoDigits 59
  if ← Reader.char? ':' then
    twoDigits 60
    if ← Reader.char? '.' then
      if (← Reader.run Char.isDigit).isEmpty then failure

/-- The offset of a time from universal time, if one is given. -/
def offset : Reader Unit := do
  match ← get with
  | c :: s =>
    if c == 'Z' || c == 'z' then set s
    else if c == '+' || c == '-' then
      set s
      twoDigits 23
      Reader.char ':'
      twoDigits 59
  | [] => return

/-- A date, a time, or a date with a time and perhaps an offset. -/
def isDatetime (s : List Char) : Bool :=
  match date s with
  | some (_, []) => true
  | some (_, c :: rest) =>
    (c == 'T' || c == 't' || c == ' ') && (((do time; offset) : Reader Unit) rest matches some (_, []))
  | none => time s matches some (_, [])

/-- The value of a bare word. -/
def scalar? (s : List Char) : Option Value :=
  if s == "true".toList then some (.boolean true)
  else if s == "false".toList then some (.boolean false)
  else if (splitSign s).2 == "inf".toList || (splitSign s).2 == "nan".toList then some .nonFinite
  else match integer? s, float? s with
    | some n, _ => some (.integer n)
    | none, some d => some (.float d)
    | none, none => if isDatetime s then some .datetime else none

def isBare (c : Char) : Bool :=
  c.isAlphanum || c == '_' || c == '-' || c == '+' || c == '.' || c == ':'

/-- Reads a bare word as a value. A date may be parted from its time by a single
space. -/
def scalar : Reader Value := do
  let word ← Reader.run isBare
  let word ← do
    match date word, ← get with
    | some (_, []), ' ' :: c :: s =>
      if c.isDigit then
        set (c :: s)
        pure (word ++ ' ' :: (← Reader.run isBare))
      else pure word
    | _, _ => pure word
  match scalar? word with
  | some v => return v
  | none => failure

end QueryLabel.Toml
