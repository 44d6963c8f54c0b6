/-!
Bytes that come from outside, which need not be text.
-/

namespace QueryLabel

abbrev Bytes := List UInt8

namespace Bytes

def ofString (s : String) : Bytes :=
  s.toUTF8.toList

/-- The text that the bytes are in UTF-8, if they are. -/
def text? (bytes : Bytes) : Option String :=
  String.fromUTF8? ⟨bytes.toArray⟩

/-- Bytes as they are shown to people. Where they are no text, a replacement
stands for every byte beyond ASCII. -/
def display (bytes : Bytes) : String :=
  match text? bytes with
  | some text => text
  | none => String.ofList (bytes.map fun b =>
      if b < 128 then Char.ofNat b.toNat else '\uFFFD')

end Bytes

end QueryLabel
