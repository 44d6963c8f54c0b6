import QueryLabel.Charset.Decimal
import QueryLabel.Charset.Letter
import QueryLabel.Charset.Mark
/-!
Word characters, which decide where a word ends.
-/

namespace QueryLabel.Charset

/-- Letter numbers, connector punctuation, the two joiners and the circled,
squared and negative letters that count as alphabetic. -/
def wordRanges : Ranges :=
  [(0x16EE, 0x16F0), (0x200C, 0x200D), (0x203F, 0x2040), (0x2054, 0x2054), (0x2160, 0x2182),
   (0x2185, 0x2188), (0x24B6, 0x24E9), (0x3007, 0x3007), (0x3021, 0x3029), (0x3038, 0x303A),
   (0xA6E6, 0xA6EF), (0xFE33, 0xFE34), (0xFE4D, 0xFE4F), (0xFF3F, 0xFF3F), (0x10140, 0x10174),
   (0x10341, 0x10341), (0x1034A, 0x1034A), (0x103D1, 0x103D5), (0x12400, 0x1246E),
   (0x1F130, 0x1F149), (0x1F150, 0x1F169), (0x1F170, 0x1F189)]

/-- A word goes on through letters, digits, marks, connectors and joiners. -/
def isWord (c : Char) : Bool :=
  isLetter c || isDecimal c || c == '_' || isMark c ||
    (128 ≤ c.toNat && wordRanges.contains c.toNat)

theorem isWord_of_isLetter {c : Char} (h : isLetter c) : isWord c := by
  simp [isWord, h]

theorem isWord_underscore : isWord '_' := by decide

end QueryLabel.Charset
