import QueryLabel.Program
/-!
The program itself: it collects what a run reads, and prints what comes of it.
-/

namespace QueryLabel.Main
open Program

/-- A failure of the system, by its number where that is known. -/
def reason : IO.Error → ReadError
  | .noFileOrDirectory _ _ _ => .notFound
  | .inappropriateType _ 20 _ => .notDirectory
  | .inappropriateType _ 21 _ => .isDirectory
  | .invalidArgument _ 36 _ => .nameTooLong
  | e => .other (toString e)

def decodeResult : Except IO.Error ByteArray → Except ReadError String
  | .ok bytes => World.decode bytes.toList
  | .error e => .error (reason e)

def readFile (path : String) : IO (Except ReadError String) :=
  return decodeResult (← (IO.FS.readBinFile path).toBaseIO)

def readInput : IO (Except ReadError String) := do
  return decodeResult (← (do (← IO.getStdin).readBinToEnd : IO ByteArray).toBaseIO)

/-- A file of settings, if anything is found at its path. -/
def readFile? (path : String) : IO (Option (Except ReadError String)) := do
  match ← readFile path with
  | .error .notFound => return none
  | .error .notDirectory => return none
  | text => return some text

/-- Collects what a run on given queries reads. -/
def collect (queries : Bytes) : IO Inputs := do
  let home ← match ← IO.getEnv "HOME" with
    | some home =>
      let path := World.join (Bytes.ofString home) (Bytes.ofString Settings.homeFile)
      readFile? path.display
    | none => pure none
  let here ← readFile? Settings.localFile
  let environment ← IO.getEnv Settings.variableName
  let script ← if queries == inputPath then readInput else readFile queries.display
  return { sources := { home, here, environment }, script }

end QueryLabel.Main

open QueryLabel in
def main (args : List String) : IO UInt32 := do
  let words := args.map Bytes.ofString
  let inputs ← match Arguments.parse words with
    | .ok options => Main.collect options.queries
    | .error _ => pure { sources := ⟨none, none, none⟩, script := .ok "" }
  let terminal ← (← IO.getStdout).isTty
  let names := ["CLICOLOR_FORCE", "NO_COLOR", "CLICOLOR"]
  let values ← names.mapM fun name => return (name, ← IO.getEnv name)
  let styles := Program.takesStyles terminal fun name => (values.lookup name).join
  let ended := Program.execute styles (fun _ => inputs) words
  IO.print ended.output
  IO.eprint ended.errors
  return ended.code.toUInt32
