import QueryLabel.Capacity
import QueryLabel.Charset.Blank
import QueryLabel.Fault
import QueryLabel.Toml.Document
import QueryLabel.World
/-!
Settings, and where they come from: two files, of which the second replaces the
first, and then an environment variable.
-/

namespace QueryLabel

structure Settings where
  capacity : Capacity := .standard
  deriving DecidableEq

namespace Settings

/-- The environment variable for the capacity. -/
def variableName : String := "SQL_SUMMARY_CACHE_SIZE"

/-- Why settings cannot be had. -/
inductive Error
  | unreadable (reason : ReadError)
  | invalidFile
  | invalidVariable (raw : String) (reason : Capacity.ReadError)
  deriving DecidableEq

def Error.message : Error → String
  | unreadable reason => "Failed to read config file: " ++ reason.message
  | invalidFile => "Invalid config file"
  | invalidVariable raw reason =>
    "Invalid " ++ variableName ++ " '" ++ raw ++ "': expected a positive integer (" ++
      reason.message ++ ")"

def Error.fault (e : Error) : Fault := .settings e.message

/-- A whole number that a size can hold. -/
def capacity? : Toml.Value → Option Capacity
  | .integer n =>
    if h : 0 < n.toNat then
      if n.toNat ≤ Capacity.limit then some ⟨n.toNat, h⟩ else none
    else none
  | _ => none

/-- The capacity that a cache section assigns, if it assigns one. The section may
be a table or a list, which then begins with the capacity; a date or time has no
entries. The outer `none` stands for a section that cannot be used. -/
def sectionCapacity : Toml.Value → Option (Option Capacity)
  | .table _ entries =>
    if Toml.entriesHeld (entries.filter fun e => e.1 != "max_entries") then
      match entries.lookup "max_entries" with
      | some v => (capacity? v).map some
      | none => some none
    else none
  | .array [] => some none
  | .array (v :: _) => (capacity? v).map some
  | .datetime => some none
  | _ => none

/-- The capacity that a document assigns, if it assigns one. Entries without a
meaning are passed over, as long as their numbers can be held. -/
def assigned (document : Toml.Table) : Option (Option Capacity) :=
  if Toml.entriesHeld (document.entries.filter fun e => e.1 != "cache") then
    match document.get? "cache" with
    | some v => sectionCapacity v
    | none => some none
  else none

/-- Settings from the text of a file. What the file does not assign takes its
standard value. -/
def ofToml (text : String) : Except Error Settings :=
  match (Toml.parse? text).bind assigned with
  | some capacity => .ok ⟨capacity.getD .standard⟩
  | none => .error .invalidFile

/-- The capacity that a text of the environment variable gives. Blanks around the
number do not count. -/
def given (raw : String) : Except Error Capacity :=
  match Capacity.read (Charset.trim raw.toList) with
  | .ok capacity => .ok capacity
  | .error reason => .error (.invalidVariable raw reason)

/-- Work on settings. Nothing is undone where it fails: what was assigned until
then stays assigned. -/
abbrev Work := ExceptT Error (StateM Settings)

/-- Overrides the capacity by a text of the environment variable. -/
def override (raw : String) : Work Unit := do
  let capacity ← liftExcept (given raw)
  modify ({ · with capacity })

/-- Why an override fails, if it does, and the settings that it leaves. -/
def attempt (s : Settings) (raw : String) : Option Error × Settings :=
  match (override raw).run.run s with
  | (.ok (), s') => (none, s')
  | (.error e, s') => (some e, s')

/-- Attempts one override after another. -/
def attemptAll (s : Settings) : List String → List (Option Error × Settings)
  | [] => []
  | raw :: raws => s.attempt raw :: attemptAll (s.attempt raw).2 raws

/-- Where settings are looked for. A file that is not there is `none`. -/
structure Sources where
  home : Option (Except ReadError String)
  here : Option (Except ReadError String)
  environment : Option String

/-- A file replaces all settings before it. -/
def replace (s : Settings) : Option (Except ReadError String) → Except Error Settings
  | none => .ok s
  | some (.ok text) => ofToml text
  | some (.error reason) => .error (.unreadable reason)

/-- Takes the variable into account, if it is set. -/
def overrideWith (s : Settings) : Option String → Except Error Settings
  | none => .ok s
  | some raw =>
    match s.attempt raw with
    | (none, s') => .ok s'
    | (some e, _) => .error e

def load (sources : Sources) : Except Error Settings := do
  let s ← replace {} sources.home
  let s ← s.replace sources.here
  s.overrideWith sources.environment

/-- The file in the home directory, by its path from there. -/
def homeFile : String := ".config/sql-query-summary/config.toml"

/-- The file in the working directory. -/
def localFile : String := ".sql-query-summary.toml"

/-- The sources that a world holds. -/
def Sources.ofWorld (w : World) : Sources where
  home := (w.environment.lookup "HOME").bind fun home =>
    w.read? (World.join home (Bytes.ofString homeFile))
  here := w.read? (Bytes.ofString localFile)
  environment := w.lookup? variableName

variable {s : Settings} {raw : String} {capacity : Capacity} {e : Error}

theorem given_eq_ok_iff :
    given raw = .ok capacity ↔ Capacity.read (Charset.trim raw.toList) = .ok capacity := by
  unfold given
  split <;> simp_all

/-- An error quotes the text as it came. -/
theorem exists_of_given_eq_error (h : given raw = .error e) :
    ∃ reason, e = .invalidVariable raw reason := by
  unfold given at h
  split at h
  · cases h
  · next reason _ =>
    cases h
    exact ⟨reason, rfl⟩

theorem attempt_of_ok (h : given raw = .ok capacity) :
    s.attempt raw = (none, { s with capacity }) := by
  simp only [attempt, override, h]
  rfl

/-- A text that gives no capacity leaves the settings alone, since it is read before anything is
assigned. -/
theorem attempt_of_error (h : given raw = .error e) : s.attempt raw = (some e, s) := by
  simp only [attempt, override, h]
  rfl

theorem overrideWith_some :
    s.overrideWith (some raw) = (given raw).map fun capacity => { s with capacity } := by
  cases h : given raw with
  | ok capacity => simp only [overrideWith, attempt_of_ok h, Except.map]
  | error e => simp only [overrideWith, attempt_of_error h, Except.map]

end Settings

end QueryLabel
