/-!
Reading text from the front, and what lies between the parts of a TOML document.
-/

namespace QueryLabel.Toml

/-- Reads something from the front of a text and leaves the rest. Failure means
that the document is rejected. -/
abbrev Reader := StateT (List Char) Option

namespace Reader

/-- Takes one given character. -/
def char (c : Char) : Reader Unit := do
  match ← get with
  | d :: s => if d == c then set s else failure
  | [] => failure

/-- Takes one given character if it is there. -/
def char? (c : Char) : Reader Bool := do
  match ← get with
  | d :: s => if d == c then set s; return true else return false
  | [] => return false

/-- Takes the longest run of characters in a class. -/
def run (p : Char → Bool) : Reader (List Char) := do
  let s ← get
  set (s.dropWhile p)
  return s.takeWhile p

def atEnd : Reader Bool :=
  return (← get).isEmpty

end Reader

def isSpace (c : Char) : Bool :=
  c == ' ' || c == '\t'

/-- Control characters stand nowhere in a document, tabs and line ends apart. -/
def isControl (c : Char) : Bool :=
  (c.toNat < 32 && c != '\t') || c.toNat == 127

def spaces : Reader Unit :=
  modify (·.dropWhile isSpace)

/-- A comment, up to the end of its line. -/
def comment : Reader Unit := do
  if ← Reader.char? '#' then
    modify (·.dropWhile fun c => !isControl c)

/-- What may follow on a line, and its end. -/
def lineEnd : Reader Unit := do
  spaces
  comment
  match ← get with
  | [] => return
  | '\n' :: s => set s
  | '\r' :: '\n' :: s => set s
  | _ => failure

/-- Passes over spaces, line ends and comments. It stops at a control character,
with which nothing begins. -/
def skipGap (inComment : Bool) : List Char → List Char
  | [] => []
  | c :: s =>
    if c == '\n' then skipGap false s
    else if c == '\r' then if s.head? == some '\n' then skipGap false s else c :: s
    else if inComment then if isControl c then c :: s else skipGap true s
    else if isSpace c then skipGap false s
    else if c == '#' then skipGap true s
    else c :: s

/-- What may stand between the parts of an array or of a table in braces. -/
def gap : Reader Unit :=
  modify (skipGap false)

end QueryLabel.Toml
