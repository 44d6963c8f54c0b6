/-!
Styles of text on a terminal.
-/

namespace QueryLabel.Report

/-- How a terminal shows a text. -/
inductive Style
  | bold
  | dim
  deriving DecidableEq

namespace Style

/-- The code that turns a style on. -/
def code : Style → List Char
  | bold => ['\x1b', '[', '1', 'm']
  | dim => ['\x1b', '[', '2', 'm']

/-- The code that turns all styles off. -/
def reset : List Char := ['\x1b', '[', '0', 'm']

/-- Turns a style on again wherever the text itself turns styles off. The first
argument counts the characters of such a code that are still to be passed. -/
def resumeAfter (style : Style) : Nat → List Char → List Char
  | _, [] => []
  | 0, c :: s =>
    if reset.isPrefixOf (c :: s) then c :: resumeAfter style 3 s else c :: resumeAfter style 0 s
  | 1, c :: s => c :: (style.code ++ resumeAfter style 0 s)
  | n + 2, c :: s => c :: resumeAfter style (n + 1) s

/-- Shows a whole text in a style. -/
def apply (style : Style) (s : List Char) : List Char :=
  style.code ++ resumeAfter style 0 s ++ reset

/-- Shows a text in a style where styles are wanted. -/
def applyIf (styled : Bool) (style : Style) (s : List Char) : List Char :=
  if styled then style.apply s else s

theorem applyIf_false {style : Style} {s : List Char} : applyIf false style s = s := rfl

end Style

end QueryLabel.Report
