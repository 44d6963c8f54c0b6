import QueryLabel.Arguments
import QueryLabel.Settings
import QueryLabel.Summarizer
/-!
A run of the program, from the command line to what is printed.
-/

namespace QueryLabel.Program

/-- What a run reads: settings and a script. Each may fail to be read for any reason. -/
structure Inputs where
  sources : Settings.Sources
  script : Except ReadError String

/-- The name of the input, in place of a path. -/
def inputPath : Bytes := Bytes.ofString "-"

/-- How the place of a script is called in a fault. -/
def scriptName (queries : Bytes) : String :=
  if queries == inputPath then "stdin" else queries.display

/-- What a world has to offer to a run on given queries. -/
def Inputs.ofWorld (w : World) (queries : Bytes) : Inputs where
  sources := .ofWorld w
  script := if queries == inputPath then World.decode w.input else w.read queries

/-- The settings of a run. The command line has the last word on the capacity. -/
def settings (options : Options) (inputs : Inputs) : Except Fault Settings :=
  match Settings.load inputs.sources with
  | .ok s => .ok { s with capacity := options.capacity.getD s.capacity }
  | .error e => .error e.fault

def script (options : Options) (inputs : Inputs) : Except Fault String :=
  match inputs.script with
  | .ok text => .ok text
  | .error e => .error (.unreadable (scriptName options.queries) e.message)

/-- The records of a script, summarized with a memory of a given capacity. -/
def records (capacity : Capacity) (sql : String) : List Record :=
  Record.number (Summarizer.batch (.empty capacity) (Statement.split sql)).1

/-- The report of a run. Settings are read before the script. -/
def run (terminal : Bool) (options : Options) (inputs : Inputs) : Except Fault String := do
  let s ← settings options inputs
  let sql ← script options inputs
  return Report.render terminal ⟨options.format, !options.noColor⟩ (records s.capacity sql)

/-- How a process ends, and what it prints. What it logs on the way is left out. -/
structure Exit where
  code : Nat
  output : String
  /-- What is said of errors, without the lines of the log around it. -/
  errors : String
  deriving DecidableEq

def version : String := "sql-query-summary 0.1.0\n"

def usage : String :=
  "\n".intercalate
    ["SQL Query Summary - Literal-free labels for SQL statements", "",
     "Usage: sql-query-summary <COMMAND>", "",
     "Commands:",
     "  summarize  Summarize every statement of a SQL script",
     "  help       Print this message or the help of the given subcommand(s)", "",
     "Options:",
     "  -h, --help     Print help",
     "  -V, --version  Print version", ""]

/-- What is said about a command line that is not carried out. -/
def complaint : Arguments.Rejection → String
  | .help | .version => ""
  | .noCommand => usage
  | .unknownCommand => "error: unrecognized subcommand\n"
  | .unknownArgument => "error: unexpected argument found\n"
  | .missingQueries => "error: the following required arguments were not provided: --queries\n"
  | .missingValue => "error: a value is required but none was supplied\n"
  | .invalidFormat => "error: invalid value for '--output-format'\n"
  | .invalidCapacity => "error: invalid value for '--cache-size'\n"
  | .unexpectedValue => "error: unexpected value found\n"
  | .repeated => "error: an argument cannot be used multiple times\n"
  | .notText => "error: invalid UTF-8 was detected in one or more arguments\n"

def Exit.ofRejection : Arguments.Rejection → Exit
  | .help => ⟨0, usage, ""⟩
  | .version => ⟨0, version, ""⟩
  | r => ⟨2, "", complaint r⟩

/-- Nothing is printed in the place of a report that cannot be had. -/
def Exit.ofResult : Except Fault String → Exit
  | .ok report => ⟨0, report ++ "\n", ""⟩
  | .error fault => ⟨1, "", "Error: " ++ fault.category.label ++ "\n"⟩

/-- A whole process: reads its command line and carries it out. -/
def execute (terminal : Bool) (inputs : Bytes → Inputs) (words : List Bytes) : Exit :=
  match Arguments.parse words with
  | .ok options => .ofResult (run terminal options (inputs options.queries))
  | .error r => .ofRejection r

/-- Whether text may have styles. One variable asks for them even where there is
no terminal, one forbids them, and one turns them off. -/
def takesStyles (terminal : Bool) (lookup? : String → Option String) : Bool :=
  if (lookup? "CLICOLOR_FORCE").any (· != "0") then true
  else if (lookup? "NO_COLOR").isSome then false
  else terminal && (lookup? "CLICOLOR").all (· != "0")

end QueryLabel.Program
