/-!
What in a text decides how YAML can write it.
-/

namespace QueryLabel.Yaml

/-- Line breaks, of which only the line feed is common. -/
def isBreak (c : Char) : Bool :=
  c == '\n' || c == '\r' || c == '\u0085' || c == '\u2028' || c == '\u2029'

/-- Where a word ends: at a space, a tab, a break, or a NUL as at the end. -/
def isBlankOrEnd (c : Char) : Bool :=
  c == ' ' || c == '\t' || c == '\x00' || isBreak c

/-- Characters that may stand in a document as they are. -/
def isPrintable (c : Char) : Bool :=
  let n := c.toNat
  n == 10 || (32 ≤ n && n ≤ 126) || (0xA0 ≤ n && n ≤ 0xD7FF) ||
    (0xE000 ≤ n && n ≤ 0xFFFD && n != 0xFEFF) || 0x10000 ≤ n

/-- Whether nothing, or the end of a word, comes next. -/
def endsHere (s : List Char) : Bool :=
  match s with
  | [] => true
  | c :: _ => isBlankOrEnd c

/-- Marks that begin something else than a word. -/
def isIndicator (c : Char) : Bool :=
  "#,[]\x7b\x7d&*!|>'\"%@`".toList.elem c

/-- Whether a first character would be taken for a mark. -/
def startsMarked : List Char → Bool
  | [] => false
  | c :: s => isIndicator c || ((c == '?' || c == ':' || c == '-') && endsHere s)

/-- Whether a mark is found behind the first character. -/
def hasInnerMark : List Char → Bool
  | [] => false
  | [_] => false
  | b :: c :: s =>
    (c == ':' && endsHere s) || (c == '#' && isBlankOrEnd b) || hasInnerMark (c :: s)

/-- Whether two characters of given classes follow each other somewhere. -/
def hasPair (p q : Char → Bool) : List Char → Bool
  | [] => false
  | [_] => false
  | b :: c :: s => (p b && q c) || hasPair p q (c :: s)

def isSpaceChar (c : Char) : Bool := c == ' '

/-- The lines that bound a document are no words either. -/
def startsDocument (s : List Char) : Bool :=
  "---".toList.isPrefixOf s || "...".toList.isPrefixOf s

def blankEnds (s : List Char) : Bool :=
  (s.head?.any fun c => isSpaceChar c || isBreak c) ||
    (s.getLast?.any fun c => isSpaceChar c || isBreak c)

/-- Only escapes can write these: unprintable characters, and spaces before a
break. -/
def needsEscapes (s : List Char) : Bool :=
  s.any (fun c => !isPrintable c) || hasPair isSpaceChar isBreak s

/-- Whether a text can stand without quotes. -/
def allowsPlain (s : List Char) : Bool :=
  !(startsDocument s || startsMarked s || hasInnerMark s || blankEnds s || s.any isBreak ||
    needsEscapes s)

/-- Whether a text can stand in single quotes, where a space after a break would
be lost. -/
def allowsSingle (s : List Char) : Bool :=
  !(hasPair isBreak isSpaceChar s || needsEscapes s)

/-- Whether a text can stand as a block of lines. -/
def allowsBlock (s : List Char) : Bool :=
  !(s.isEmpty || s.getLast?.any isSpaceChar || needsEscapes s)

end QueryLabel.Yaml
