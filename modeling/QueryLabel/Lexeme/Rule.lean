import QueryLabel.Charset.Blank
import QueryLabel.Digits
import QueryLabel.Keyword
/-!
The rules that recognise one piece of query text. Each rule gives the number of
characters that it takes from the front of the text, zero where it does not
apply.
-/

namespace QueryLabel.Rule
open Charset

/-- The length of the longest run of characters in a class. -/
def run (p : Char → Bool) (s : List Char) : Nat :=
  (s.takeWhile p).length

def blank (s : List Char) : Nat :=
  run isBlank s

/-- Characters up to and with the first end of a block comment. -/
def commentEnd : List Char → Nat
  | [] => 0
  | [_] => 0
  | c :: d :: s =>
    if c == '*' && d == '/' then 2
    else match commentEnd (d :: s) with
      | 0 => 0
      | n => n + 1

/-- A comment goes to the end of its line, or to the end of its block. A block
that is never closed is no comment. -/
def comment : List Char → Nat
  | '-' :: '-' :: s => 2 + run (fun c => c != '\r' && c != '\n') s
  | '/' :: '*' :: s =>
    match commentEnd s with
    | 0 => 0
    | n => 2 + n
  | _ => 0

/-- A sign may stand before a number and before an exponent. -/
def sign : List Char → Nat
  | c :: _ => if c == '+' || c == '-' then 1 else 0
  | [] => 0

/-- Hexadecimal digits after their mark. -/
def hexadecimal : List Char → Nat
  | '0' :: c :: s =>
    if c == 'x' || c == 'X' then
      match run Digits.isHex s with
      | 0 => 0
      | n => 2 + n
    else 0
  | _ => 0

/-- Digits with an optional fraction; a point alone is no number. -/
def mantissa (s : List Char) : Nat :=
  match run Char.isDigit s, s.drop (run Char.isDigit s) with
  | 0, '.' :: t =>
    match run Char.isDigit t with
    | 0 => 0
    | n => 1 + n
  | 0, _ => 0
  | n, '.' :: t => n + 1 + run Char.isDigit t
  | n, _ => n

/-- An exponent needs a digit, otherwise its letter belongs to what follows. -/
def exponent : List Char → Nat
  | [] => 0
  | c :: s =>
    if c == 'e' || c == 'E' then
      match run Char.isDigit (s.drop (sign s)) with
      | 0 => 0
      | n => 1 + sign s + n
    else 0

/-- A number without its sign. -/
def magnitude (s : List Char) : Nat :=
  match hexadecimal s with
  | 0 =>
    match mantissa s with
    | 0 => 0
    | n => n + exponent (s.drop n)
  | n => n

def number (s : List Char) : Nat :=
  match magnitude (s.drop (sign s)) with
  | 0 => 0
  | n => sign s + n

/-- The rest of a string after its opening quote. A doubled quote belongs to the
string, a single one closes it, and so does the end of the text. -/
def stringRest : List Char → Nat
  | [] => 0
  | [_] => 1
  | c :: d :: s =>
    if c == '\'' then
      if d == '\'' then 2 + stringRest s else 1
    else 1 + stringRest (d :: s)

def string : List Char → Nat
  | '\'' :: s => 1 + stringRest s
  | _ => 0

/-- The rest of a quoted name after its opening quote, zero if nothing closes
it. Doubled quotes are paired from the left; where no single quote closes the
name, the first quote of the last pair does. -/
def quotedRest (q : Char) : List Char → Nat
  | [] => 0
  | [c] => if c == q then 1 else 0
  | c :: d :: s =>
    if c == q then
      if d == q then
        match quotedRest q s with
        | 0 => 1
        | n => 2 + n
      else 1
    else match quotedRest q (d :: s) with
      | 0 => 0
      | n => 1 + n

/-- The rest of a bracketed name; inside brackets nothing is doubled. -/
def bracketRest (s : List Char) : Nat :=
  if s.elem ']' then run (· != ']') s + 1 else 0

def quotedName : List Char → Nat
  | [] => 0
  | c :: s =>
    let rest :=
      if c == '"' || c == '\x60' then quotedRest c s
      else if c == '[' then bracketRest s
      else 0
    match rest with
    | 0 => 0
    | n => 1 + n

def isNameStart (c : Char) : Bool :=
  isLetter c || c == '_'

/-- Dots join the parts of a qualified name into one name. -/
def isNamePart (c : Char) : Bool :=
  isLetter c || isDecimal c || c == '_' || c == '.'

/-- A bare name that starts at once. -/
def plainName : List Char → Nat
  | [] => 0
  | c :: s => if isNameStart c then 1 + run isNamePart s else 0

/-- Names of variables carry one or two marks in front. -/
def name : List Char → Nat
  | '@' :: '@' :: s =>
    match plainName s with
    | 0 => 0
    | n => 2 + n
  | '@' :: s =>
    match plainName s with
    | 0 => 0
    | n => 1 + n
  | s => plainName s

/-- The operators of two characters. -/
def isPairOperator (c d : Char) : Bool :=
  (c == '<' && (d == '=' || d == '>')) || (c == '>' && d == '=') || (c == '!' && d == '=')

def isOperatorChar (c : Char) : Bool :=
  ['=', '<', '>', '+', '-', '*', '/', '%', ',', ';', '(', ')', '!'].elem c

def operator : List Char → Nat
  | [] => 0
  | [c] => if isOperatorChar c then 1 else 0
  | c :: d :: _ => if isPairOperator c d then 2 else if isOperatorChar c then 1 else 0

end QueryLabel.Rule
