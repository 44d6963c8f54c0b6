import QueryLabel.Digits
import QueryLabel.Toml.Reader
/-!
Strings of a TOML document: basic and literal, on one line or on several.
-/

namespace QueryLabel.Toml

/-- The four kinds of strings. -/
structure Quotation where
  quote : Char
  /-- On several lines, between tripled quotes. -/
  long : Bool

/-- Only double quotes know escapes. -/
def Quotation.escapes (q : Quotation) : Bool := q.quote == '"'

/-- The place inside a string, one character at a time. -/
inductive Place
  | text
  /-- After quotes in a row, of which three would end the string. -/
  | quotes (n : Nat)
  | backslash
  /-- Inside the digits of a character code. -/
  | code (left value : Nat)
  /-- After a carriage return, which needs its line feed. -/
  | carriage (next : Place)
  /-- After a backslash that ends a line. -/
  | trailing
  /-- In the blank space after such a line. -/
  | margin

/-- The character behind a backslash, where it stands for a single one. -/
def escaped? (c : Char) : Option Char :=
  match c with
  | 'b' => some '\x08'
  | 't' => some '\t'
  | 'n' => some '\n'
  | 'f' => some '\x0c'
  | 'r' => some '\r'
  | 'e' => some '\x1b'
  | '"' => some '"'
  | '\\' => some '\\'
  | _ => none

/-- The character of a code, if there is one: surrogates have none. -/
def charOfCode? (n : Nat) : Option Char :=
  if h : n.isValidChar then some (Char.ofNatAux n h) else none

/-- Reads on by one character that is part of plain text. -/
def Quotation.stepText (q : Quotation) (c : Char) : Option (List Char × Place) :=
  if c == '\\' && q.escapes then some ([], .backslash)
  else if c == '\n' then if q.long then some ([c], .text) else none
  else if c == '\r' then if q.long then some ([c], .carriage .text) else none
  else if isControl c then none
  else some ([c], .text)

/-- Reads on by one character that is not a quote ending the string: the
characters that it adds, and the place after it. -/
def Quotation.step (q : Quotation) (c : Char) : Place → Option (List Char × Place)
  | .text => q.stepText c
  | .quotes n => do
    let (out, place) ← q.stepText c
    return (List.replicate n q.quote ++ out, place)
  | .backslash =>
    match escaped? c, c with
    | some d, _ => some ([d], .text)
    | none, 'x' => some ([], .code 2 0)
    | none, 'u' => some ([], .code 4 0)
    | none, 'U' => some ([], .code 8 0)
    | none, c =>
      if !q.long then none
      else if isSpace c then some ([], .trailing)
      else if c == '\n' then some ([], .margin)
      else if c == '\r' then some ([], .carriage .margin)
      else none
  | .code left value =>
    if !Digits.isHex c then none
    else
      let value := 16 * value + Digits.value c
      if left ≤ 1 then do
        let d ← charOfCode? value
        return ([d], .text)
      else some ([], .code (left - 1) value)
  | .carriage next => if c == '\n' then some (if next matches .text then [c] else [], next) else none
  | .trailing =>
    if isSpace c then some ([], .trailing)
    else if c == '\n' then some ([], .margin)
    else if c == '\r' then some ([], .carriage .margin)
    else none
  | .margin =>
    if isSpace c || c == '\n' then some ([], .margin)
    else if c == '\r' then some ([], .carriage .margin)
    else q.stepText c

/-- The number of quotes seen in a row, where a quote may count. -/
def Place.run? : Place → Option Nat
  | .text => some 0
  | .margin => some 0
  | .quotes n => some n
  | _ => none

/-- Reads the rest of a string. A long string ends at three quotes, and up to two
more before them belong to it. -/
def Quotation.body (q : Quotation) : Place → List Char → Option (List Char × List Char)
  | .quotes n, [] => if 3 ≤ n then some (List.replicate (n - 3) q.quote, []) else none
  | _, [] => none
  | place, c :: s =>
    match place.run? with
    | some n =>
      if c == q.quote then
        if !q.long then some ([], s)
        else if n = 4 then some ([q.quote, q.quote], s)
        else q.body (.quotes (n + 1)) s
      else if 3 ≤ n then some (List.replicate (n - 3) q.quote, c :: s)
      else do
        let (out, place) ← q.step c place
        let (text, rest) ← q.body place s
        return (out ++ text, rest)
    | none => do
      let (out, place) ← q.step c place
      let (text, rest) ← q.body place s
      return (out ++ text, rest)

/-- A line end right after tripled quotes is not part of the string. -/
def dropFirstLineEnd : List Char → List Char
  | '\n' :: s => s
  | '\r' :: '\n' :: s => s
  | s => s

/-- A string on one line, as it may also stand for a key. -/
def shortString : Reader String := fun
  | c :: s =>
    if c == '"' || c == '\'' then
      (Quotation.body ⟨c, false⟩ .text s).map fun (text, rest) => (String.ofList text, rest)
    else none
  | [] => none

/-- A string of any kind. -/
def anyString : Reader String := fun
  | c :: d :: e :: s =>
    if (c == '"' || c == '\'') && c == d && c == e then
      (Quotation.body ⟨c, true⟩ .text (dropFirstLineEnd s)).map fun (text, rest) =>
        (String.ofList text, rest)
    else shortString (c :: d :: e :: s)
  | s => shortString s

end QueryLabel.Toml
