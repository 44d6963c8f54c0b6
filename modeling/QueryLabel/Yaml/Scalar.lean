import QueryLabel.Yaml.Plain
import QueryLabel.Yaml.Traits
/-!
Writing a text as a YAML scalar in the entry of a listed mapping.
-/

namespace QueryLabel.Yaml

/-- The ways to write a text. -/
inductive Notation
  | plain
  | single
  | double
  | block
  deriving DecidableEq

/-- Text with a line feed is wanted as a block, ambiguous words in quotes and all
else bare. Each notation falls back to the next one that can hold the text. -/
def notationFor (s : List Char) : Notation :=
  if s.elem '\n' then if allowsBlock s then .block else .double
  else if !isAmbiguous s && allowsPlain s then .plain
  else if allowsSingle s then .single
  else .double

/-- The depth at which the lines of a text stand. -/
def margin : List Char := List.replicate 4 ' '

/-- Lines after a break, set in. The flag tells that a line begins here. -/
def indentLines (write : Char → List Char) : Bool → List Char → List Char
  | fresh, [] => if fresh then margin else []
  | fresh, c :: s =>
    if isBreak c then c :: indentLines write true s
    else (if fresh then margin else []) ++ write c ++ indentLines write false s

/-- A quote is written twice. -/
def single (s : List Char) : List Char :=
  let write (c : Char) := if c == '\'' then ['\'', '\''] else [c]
  '\'' :: indentLines write false s ++ ['\'']

/-- The letter of an escape, for the characters that have one. -/
def escapeLetter? (c : Char) : Option Char :=
  match c with
  | '\x00' => some '0'
  | '\x07' => some 'a'
  | '\x08' => some 'b'
  | '\t' => some 't'
  | '\n' => some 'n'
  | '\x0b' => some 'v'
  | '\x0c' => some 'f'
  | '\r' => some 'r'
  | '\x1b' => some 'e'
  | '"' => some '"'
  | '\\' => some '\\'
  | '\u0085' => some 'N'
  | '\u2028' => some 'L'
  | '\u2029' => some 'P'
  | _ => none

/-- A character between double quotes. -/
def escape (c : Char) : List Char :=
  match escapeLetter? c with
  | some letter => ['\\', letter]
  | none =>
    let n := c.toNat
    if isPrintable c then [c]
    else if n < 0x100 then '\\' :: 'x' :: Digits.hex 'A' 2 n
    else if n < 0x10000 then '\\' :: 'u' :: Digits.hex 'A' 4 n
    else '\\' :: 'U' :: Digits.hex 'A' 8 n

def double (s : List Char) : List Char :=
  '"' :: s.flatMap escape ++ ['"']

/-- How a block treats the breaks at its end: drops them all, keeps the one, or
keeps every one. -/
def chomping (s : List Char) : List Char :=
  match s.reverse with
  | [] => ['-']
  | c :: rest =>
    if !isBreak c then ['-']
    else match rest with
      | [] => ['+']
      | d :: _ => if isBreak d then ['+'] else []

/-- A block names its depth if its first character would hide it. -/
def depthHint (s : List Char) : List Char :=
  if s.head?.any fun c => isSpaceChar c || isBreak c then ['2'] else []

/-- The lines of a block, set in where they hold anything. -/
def blockLines : Bool → List Char → List Char
  | _, [] => []
  | fresh, c :: s =>
    if isBreak c then c :: blockLines true s
    else (if fresh then margin else []) ++ c :: blockLines false s

def block (s : List Char) : List Char :=
  '|' :: depthHint s ++ chomping s ++ '\n' :: blockLines true s

/-- A text, written so that the next entry can follow. -/
def scalar (s : List Char) : List Char :=
  match notationFor s with
  | .plain => s ++ ['\n']
  | .single => single s ++ ['\n']
  | .double => double s ++ ['\n']
  | .block => block s ++ if s.getLast?.any isBreak then [] else ['\n']

end QueryLabel.Yaml
