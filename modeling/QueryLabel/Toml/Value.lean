import QueryLabel.Decimal
/-!
Values and tables of a TOML document, and where a table may still grow.
-/

namespace QueryLabel.Toml

/-- How a table came about, which decides what may add to it. -/
inductive Origin
  /-- By its own header, or as the document itself. -/
  | header
  /-- By the header of a table inside it. -/
  | implied
  /-- By a dotted key. -/
  | dotted
  /-- In braces: closed for good. -/
  | braces
  deriving DecidableEq

/-- A value. Of strings, dates and times only the kind is kept. -/
inductive Value
  | string
  | integer (n : Int)
  | float (d : Decimal)
  /-- An infinity, or not a number. -/
  | nonFinite
  | boolean (b : Bool)
  | datetime
  | array (items : List Value)
  /-- Tables collected under a repeated header, the latest first. -/
  | tables (entries : List (List (String × Value)))
  | table (origin : Origin) (entries : List (String × Value))

/-- The entries of a table in the order in which they were made. -/
abbrev Entries := List (String × Value)

/-- A table that may be under construction. -/
structure Table where
  origin : Origin
  entries : Entries

namespace Table

def empty (origin : Origin) : Table := ⟨origin, []⟩

def get? (t : Table) (key : String) : Option Value :=
  t.entries.lookup key

/-- Puts a value under a key, in place of the one that was there. -/
def set (t : Table) (key : String) (v : Value) : Table :=
  if (t.get? key).isSome then
    { t with entries := t.entries.map fun e => if e.1 == key then (key, v) else e }
  else { t with entries := t.entries ++ [(key, v)] }

def toValue (t : Table) : Value := .table t.origin t.entries

/-- Whether a path may lead through a table. Nothing enters braces again, and a
dotted key enters no table that has a header. -/
def admits (byKey : Bool) : Origin → Bool
  | .header => !byKey
  | .implied => true
  | .dotted => true
  | .braces => false

/-- Changes the table at the end of a path, making the tables on the way. The
path is that of a header or, with `byKey`, of a dotted key. Among tables of a
repeated header it takes the latest. -/
def update (byKey : Bool) (change : Table → Option Table) : List String → Table → Option Table
  | [], t => change t
  | key :: path, t =>
    match t.get? key with
    | none => do
      let child ← update byKey change path (empty (if byKey then .dotted else .implied))
      return t.set key child.toValue
    | some (.table origin entries) =>
      if admits byKey origin then do
        let child ← update byKey change path ⟨origin, entries⟩
        return t.set key child.toValue
      else none
    | some (.tables (latest :: earlier)) => do
      let child ← update byKey change path ⟨.header, latest⟩
      return t.set key (.tables (child.entries :: earlier))
    | some _ => none

/-- Adds an entry under a dotted key. The last table on the way must have been
made by dotted keys itself; a plain key goes into the table at hand. -/
def insert (path : List String) (key : String) (v : Value) (t : Table) : Option Table :=
  t.update true (fun t =>
    if (t.origin == .dotted) == path.isEmpty || (t.get? key).isSome then none
    else some (t.set key v)) path

/-- Opens a table by its header. A table may have one header only, but may have
been implied before. -/
def openTable (path : List String) (key : String) (t : Table) : Option Table :=
  t.update false (fun t =>
    match t.get? key with
    | none => some (t.set key (.table .header []))
    | some (.table .implied entries) => some (t.set key (.table .header entries))
    | some _ => none) path

/-- Opens one more table under a repeated header. -/
def openElement (path : List String) (key : String) (t : Table) : Option Table :=
  t.update false (fun t =>
    match t.get? key with
    | none => some (t.set key (.tables [[]]))
    | some (.tables entries) => some (t.set key (.tables ([] :: entries)))
    | some _ => none) path

end Table

mutual

/-- Whether all numbers in a value can be held: integers in 128 bits, floats in a
double. -/
def Value.isHeld : Value → Bool
  | .integer n => -(Nat.pow 2 127 : Int) ≤ n && n < (Nat.pow 2 128 : Int)
  | .float d => d.isFinite
  | .array items => allHeld items
  | .tables entries => elementsHeld entries
  | .table _ entries => entriesHeld entries
  | _ => true

def allHeld : List Value → Bool
  | [] => true
  | v :: vs => v.isHeld && allHeld vs

def elementsHeld : List (List (String × Value)) → Bool
  | [] => true
  | entries :: rest => entriesHeld entries && elementsHeld rest

def entriesHeld : List (String × Value) → Bool
  | [] => true
  | (_, v) :: rest => v.isHeld && entriesHeld rest

end

end QueryLabel.Toml
