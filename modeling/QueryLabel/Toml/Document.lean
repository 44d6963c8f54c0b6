import QueryLabel.Toml.Scalar
/-!
Whole TOML documents.
-/

namespace QueryLabel.Toml

def isBareKey (c : Char) : Bool :=
  c.isAlphanum || c == '_' || c == '-'

/-- One part of a key. -/
def keyPart : Reader String := do
  match ← get with
  | c :: _ =>
    if c == '"' || c == '\'' then shortString
    else
      let word ← Reader.run isBareKey
      if word.isEmpty then failure
      return String.ofList word
  | [] => failure

/-- The parts of a dotted key behind its first one, of which there may be up to
`left`. -/
def keyRest (left : Nat) : Reader (List String) := do
  spaces
  if ← Reader.char? '.' then
    match left with
    | 0 => failure
    | left + 1 =>
      spaces
      let part ← keyPart
      return part :: (← keyRest left)
  else return []

/-- The most parts that a key may have, whether it names a table or a value. -/
def maxParts : Nat := 80

/-- A key, given as the path to its table and its last part. -/
def key : Reader (List String × String) := do
  let first ← keyPart
  let parts := first :: (← keyRest (maxParts - 1))
  return (parts.dropLast, parts.getLastD first)

/-- How deep arrays and tables in braces may stand inside each other. -/
def maxDepth : Nat := 80

mutual

/-- Reads a value, inside which `depth` more may be nested. -/
def value : (fuel depth : Nat) → Reader Value
  | 0, _ => failure
  | fuel + 1, depth => do
    match ← get with
    | '"' :: _ => let _ ← anyString; return .string
    | '\'' :: _ => let _ ← anyString; return .string
    | '[' :: s =>
      match depth with
      | 0 => failure
      | depth + 1 =>
        set s
        return .array (← items fuel depth)
    | '\x7b' :: s =>
      match depth with
      | 0 => failure
      | depth + 1 =>
        set s
        let t ← pairs fuel depth (.empty .header)
        return .table .braces t.entries
    | _ => scalar

/-- The items of an array up to its end. A comma may follow the last one. -/
def items : (fuel depth : Nat) → Reader (List Value)
  | 0, _ => failure
  | fuel + 1, depth => do
    gap
    if ← Reader.char? ']' then return []
    let v ← value fuel depth
    gap
    if ← Reader.char? ',' then return v :: (← items fuel depth)
    Reader.char ']'
    return [v]

/-- The entries of a table in braces, up to its end, on top of those that were
read before. -/
def pairs : (fuel depth : Nat) → Table → Reader Table
  | 0, _, _ => failure
  | fuel + 1, depth, t => do
    gap
    if ← Reader.char? '\x7d' then return t
    let (path, last) ← key
    gap
    Reader.char '='
    gap
    let v ← value fuel depth
    match t.insert path last v with
    | none => failure
    | some t =>
      gap
      if ← Reader.char? ',' then pairs fuel depth t
      else
        Reader.char '\x7d'
        return t

end

/-- A document in the making, and the path to the table that lines add to. -/
structure Draft where
  root : Table
  current : List String

/-- Adds an entry to the current table. The latest header of the draft led to
that table, so the way to it is open. -/
def Draft.insert (d : Draft) (path : List String) (last : String) (v : Value) : Option Draft := do
  let root ← d.root.update false (·.insert path last v) d.current
  return { d with root }

/-- Reads a line: a header, an entry, a comment or nothing. -/
def line (fuel : Nat) (d : Draft) : Reader Draft := do
  spaces
  match ← get with
  | '[' :: '[' :: s =>
    set s
    spaces
    let (path, last) ← key
    spaces
    Reader.char ']'
    Reader.char ']'
    lineEnd
    match d.root.openElement path last with
    | some root => return ⟨root, path ++ [last]⟩
    | none => failure
  | '[' :: s =>
    set s
    spaces
    let (path, last) ← key
    spaces
    Reader.char ']'
    lineEnd
    match d.root.openTable path last with
    | some root => return ⟨root, path ++ [last]⟩
    | none => failure
  | c :: _ =>
    if c == '#' || c == '\n' || c == '\r' then
      lineEnd
      return d
    let (path, last) ← key
    spaces
    Reader.char '='
    spaces
    let v ← value fuel maxDepth
    lineEnd
    match d.insert path last v with
    | some d => return d
    | none => failure
  | [] => return d

/-- Reads lines to the end of the text. -/
def lines : (fuel : Nat) → Draft → Reader Draft
  | 0, _ => failure
  | fuel + 1, d => do
    if ← Reader.atEnd then return d
    lines fuel (← line fuel d)

/-- The table that a text describes, if it is a document. A line and an item each
take a character, so the length of the text is fuel enough. -/
def parse? (text : String) : Option Table := do
  let s := match text.toList with
    | '\uFEFF' :: s => s
    | s => s
  let (d, _) ← lines (2 * s.length + 2) ⟨.empty .header, []⟩ s
  return d.root

end QueryLabel.Toml
