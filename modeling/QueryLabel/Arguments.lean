import QueryLabel.Bytes
import QueryLabel.Capacity
import QueryLabel.Report.Basic
/-!
The command line: one command with its options, in long and in short form.
-/

namespace QueryLabel

/-- What a command line asks for. -/
structure Options where
  queries : Bytes
  format : Format := .text
  capacity : Option Capacity := none
  /-- Asks for a full log, beside what is printed. -/
  verbose : Bool := false
  noColor : Bool := false
  deriving DecidableEq

namespace Arguments

/-- Why a command line is not carried out. Asking for help or for the version is
among the reasons. -/
inductive Rejection
  | help
  | version
  | noCommand
  | unknownCommand
  | unknownArgument
  | missingQueries
  | missingValue
  | invalidFormat
  | invalidCapacity
  | unexpectedValue
  | repeated
  | notText
  deriving DecidableEq

/-- Options that take a value. -/
inductive Setting
  | queries
  | format
  | capacity

/-- Options that take none. -/
inductive Flag
  | verbose
  | noColor
  | help

inductive Switch
  | setting (s : Setting)
  | flag (f : Flag)

/-- The long names, written behind two dashes. -/
def longNames : List (Bytes × Switch) :=
  [("queries", Switch.setting .queries), ("output-format", .setting .format),
   ("cache-size", .setting .capacity), ("verbose", .flag .verbose),
   ("no-color", .flag .noColor), ("help", .flag .help)].map fun (name, s) =>
    (Bytes.ofString name, s)

/-- The short names, one letter each. -/
def shortNames : List (Bytes × Switch) :=
  [("q", Switch.setting .queries), ("f", .setting .format), ("v", .flag .verbose),
   ("h", .flag .help)].map fun (name, s) => (Bytes.ofString name, s)

/-- What was given so far, and an option that is still open: its value may yet
come, and it is looked at only when the next option or the end is reached. -/
structure Draft where
  queries : Option Bytes := none
  format : Option Format := none
  capacity : Option Capacity := none
  verbose : Bool := false
  noColor : Bool := false
  pending : Option (Setting × Option Bytes) := none

namespace Draft

/-- Gives an option its value. No option is given twice. -/
def assign (d : Draft) (value : Bytes) : Setting → Except Rejection Draft
  | .queries =>
    if d.queries.isSome then .error .repeated
    else if value.isEmpty then .error .missingValue
    else .ok { d with queries := some value }
  | .format =>
    if d.format.isSome then .error .repeated
    else match Format.all.find? fun f => value == Bytes.ofString f.name with
      | some f => .ok { d with format := some f }
      | none => .error .invalidFormat
  | .capacity =>
    if d.capacity.isSome then .error .repeated
    else match Bytes.text? value with
      | none => .error .notText
      | some text =>
        match Capacity.read text.toList with
        | .ok capacity => .ok { d with capacity := some capacity }
        | .error _ => .error .invalidCapacity

/-- Looks at the open option. -/
def settle (d : Draft) : Except Rejection Draft :=
  match d.pending with
  | none => .ok d
  | some (_, none) => .error .missingValue
  | some (s, some value) => { d with pending := none }.assign value s

def raise (d : Draft) : Flag → Except Rejection Draft
  | .verbose => if d.verbose then .error .repeated else .ok { d with verbose := true }
  | .noColor => if d.noColor then .error .repeated else .ok { d with noColor := true }
  | .help => .error .help

/-- Takes an option with the value attached to it, if there is one. -/
def set (d : Draft) (s : Setting) (value : Option Bytes) : Except Rejection Draft := do
  let d ← d.settle
  match value with
  | some value => d.assign value s
  | none => .ok { d with pending := some (s, none) }

def flag (d : Draft) (f : Flag) : Except Rejection Draft := do
  (← d.settle).raise f

end Draft

def dash : UInt8 := 45
def equalSign : UInt8 := 61

/-- A long name, and the value behind an equal sign. -/
def splitLong (s : Bytes) : Bytes × Option Bytes :=
  match s.span (· != equalSign) with
  | (name, _ :: value) => (name, some value)
  | (name, []) => (name, none)

def long (d : Draft) (s : Bytes) : Except Rejection Draft :=
  match longNames.lookup (splitLong s).1, (splitLong s).2 with
  | some (.setting s), value => d.set s value
  | some (.flag _), some _ => .error .unexpectedValue
  | some (.flag f), none => d.flag f
  | none, _ => .error .unknownArgument

/-- The value attached to a short name: the rest of its word, without an equal
sign. -/
def attached : Bytes → Option Bytes
  | [] => none
  | c :: s => some (if c == equalSign then s else c :: s)

/-- Short names in a row, of which the last may take a value. -/
def short (d : Draft) : Bytes → Except Rejection Draft
  | [] => .ok d
  | c :: s =>
    match shortNames.lookup [c] with
    | some (.setting name) => d.set name (attached s)
    | some (.flag f) => do short (← d.flag f) s
    | none => .error .unknownArgument

/-- How a word begins. A single dash is a word like any other. -/
inductive Shape
  | separator
  | long (s : Bytes)
  | short (s : Bytes)
  | plain

def shape : Bytes → Shape
  | [] => .plain
  | [_] => .plain
  | b :: c :: s =>
    if b != dash then .plain
    else if c != dash then .short (c :: s)
    else if s.isEmpty then .separator
    else .long s

/-- Reads the words behind the command. A plain word can only be the value of the
option before it, and nothing can follow a separator. -/
def options (d : Draft) : List Bytes → Except Rejection Draft
  | [] => d.settle
  | word :: words =>
    match shape word with
    | .separator => if words.isEmpty then d.settle else .error .unknownArgument
    | .long s => do options (← long d s) words
    | .short s => do options (← short d s) words
    | .plain =>
      match d.pending with
      | some (s, none) => options { d with pending := some (s, some word) } words
      | _ => .error .unknownArgument

/-- What a finished draft asks for. -/
def Draft.finish (d : Draft) : Except Rejection Options :=
  match d.queries with
  | none => .error .missingQueries
  | some queries => .ok
    { queries
      format := d.format.getD .text
      capacity := d.capacity
      verbose := d.verbose
      noColor := d.noColor }

def summarizeCommand : Bytes := Bytes.ofString "summarize"
def helpCommand : Bytes := Bytes.ofString "help"

def isCommand (word : Bytes) : Bool :=
  word == summarizeCommand || word == helpCommand

/-- Help on a command. No command has commands of its own. -/
def helpOn : List Bytes → Rejection
  | [] => .help
  | [word] => if isCommand word then .help else .unknownCommand
  | _ => .unknownCommand

/-- What stands in place of a command. -/
def rejectLong (s : Bytes) : Rejection :=
  match splitLong s with
  | (name, value) =>
    if name != Bytes.ofString "help" && name != Bytes.ofString "version" then .unknownArgument
    else if value.isSome then .unexpectedValue
    else if name == Bytes.ofString "help" then .help
    else .version

def rejectShort (s : Bytes) : Rejection :=
  if s.take 1 == Bytes.ofString "h" then .help
  else if s.take 1 == Bytes.ofString "V" then .version
  else .unknownArgument

/-- Reads a command line. A separator in front of the command keeps it from being
one. -/
def parse : List Bytes → Except Rejection Options
  | [] => .error .noCommand
  | word :: words =>
    if word == summarizeCommand then do (← options {} words).finish
    else if word == helpCommand then .error (helpOn words)
    else match shape word with
      | .separator =>
        match words with
        | [] => .error .noCommand
        | next :: _ => .error (if isCommand next then .unknownArgument else .unknownCommand)
      | .long s => .error (rejectLong s)
      | .short s => .error (rejectShort s)
      | .plain => .error .unknownCommand

end Arguments

end QueryLabel
