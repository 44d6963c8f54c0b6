import QueryLabel.Bytes
/-!
What a run finds around it: files, environment variables and an input.
-/

namespace QueryLabel

/-- Why something cannot be read as text. -/
inductive ReadError
  | notFound
  | notDirectory
  | isDirectory
  | nameTooLong
  | invalidName
  | notText
  /-- Anything else, in the words of the system. -/
  | other (reason : String)
  deriving DecidableEq

/-- The words of the operating system, as far as it has any. -/
def ReadError.message : ReadError → String
  | notFound => "No such file or directory (os error 2)"
  | notDirectory => "Not a directory (os error 20)"
  | isDirectory => "Is a directory (os error 21)"
  | nameTooLong => "File name too long (os error 36)"
  | invalidName => "file name contained an unexpected NUL byte"
  | notText => "stream did not contain valid UTF-8"
  | other reason => reason

/-- A file, or a directory with its entries. -/
inductive Node
  | file (content : Bytes)
  | directory (entries : List (Bytes × Node))

namespace Node

/-- The longest name that a directory can hold. -/
def maxName : Nat := 255

/-- Follows the parts of a path down from a node. The nodes above it are at hand
for the parts that lead back. -/
def walk (above : List Node) : Node → List Bytes → Except ReadError Node
  | n, [] => .ok n
  | .file _, _ :: _ => .error .notDirectory
  | .directory entries, part :: parts =>
    if part == [] || part == Bytes.ofString "." then walk above (.directory entries) parts
    else if part == Bytes.ofString ".." then
      match above with
      | [] => walk [] (.directory entries) parts
      | up :: above => walk above up parts
    else if maxName < part.length then .error .nameTooLong
    else match entries.lookup part with
      | none => .error .notFound
      | some child => walk (.directory entries :: above) child parts

end Node

/-- The surroundings of a run, in which all that is there may be read. -/
structure World where
  root : Node
  /-- The parts of the path to the working directory. -/
  directory : List Bytes
  environment : List (String × Bytes)
  input : Bytes

namespace World

def slash : UInt8 := 47

/-- The longest path that can be followed. -/
def maxPath : Nat := 4095

/-- The node at a path, which starts at the root or at the working directory. -/
def find (w : World) (path : Bytes) : Except ReadError Node :=
  if path.elem 0 then .error .invalidName
  else if path.isEmpty then .error .notFound
  else if maxPath < path.length then .error .nameTooLong
  else
    let parts := path.splitOn slash
    w.root.walk [] (if path.head? == some slash then parts else w.directory ++ parts)

/-- Bytes as text, which they may fail to be. -/
def decode (bytes : Bytes) : Except ReadError String :=
  match Bytes.text? bytes with
  | some text => .ok text
  | none => .error .notText

/-- The text of a file. -/
def read (w : World) (path : Bytes) : Except ReadError String :=
  match w.find path with
  | .ok (.file content) => decode content
  | .ok (.directory _) => .error .isDirectory
  | .error e => .error e

/-- The text of a file, if anything is found at its path. -/
def read? (w : World) (path : Bytes) : Option (Except ReadError String) :=
  match w.find path with
  | .ok _ => some (w.read path)
  | .error _ => none

/-- A variable whose value is no text counts as unset. -/
def lookup? (w : World) (name : String) : Option String :=
  (w.environment.lookup name).bind Bytes.text?

/-- A path below another one, which may be empty. -/
def join (base path : Bytes) : Bytes :=
  if base.isEmpty then path else base ++ slash :: path

end World

end QueryLabel
