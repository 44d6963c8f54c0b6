/-!
Faults that end a run.
-/

namespace QueryLabel

/-- Why a run has no result. -/
inductive Fault
  | settings (message : String)
  | unreadable (path reason : String)
  | unrenderable (format reason : String)
  deriving DecidableEq

namespace Fault

/-- Whose fault it is: of what was asked for, or of something else. -/
inductive Category
  | badRequest
  | internal
  deriving DecidableEq

def category : Fault → Category
  | settings _ => .badRequest
  | unreadable _ _ => .internal
  | unrenderable _ _ => .internal

def Category.code : Category → String
  | badRequest => "BAD_REQUEST"
  | internal => "INTERNAL"

/-- All that is said in public: no path and no content. -/
def Category.label : Category → String
  | badRequest => "Bad request"
  | internal => "Internal server error"

/-- What happened, in full. -/
def message : Fault → String
  | settings message => message
  | unreadable path reason => "Failed to read file '" ++ path ++ "': " ++ reason
  | unrenderable format reason => "Failed to render " ++ format ++ " output: " ++ reason

end Fault

end QueryLabel
