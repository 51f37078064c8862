import IssueQuery.Text

/-!
# Blank characters

The white space that trimming removes: the Unicode space separators, the line ends, and the
byte order mark. U+0085 and U+200B are not among them.
-/

namespace IssueQuery

/-- The blank characters, in increasing order. -/
def CodeUnit.blankRanges : List (Nat × Nat) := [
  (0x0009, 0x000D), (0x0020, 0x0020), (0x00A0, 0x00A0), (0x1680, 0x1680), (0x2000, 0x200A),
  (0x2028, 0x2029), (0x202F, 0x202F), (0x205F, 0x205F), (0x3000, 0x3000), (0xFEFF, 0xFEFF)]

/-- Whether the unit is a blank character. -/
def CodeUnit.isBlank (u : CodeUnit) : Bool := inRanges blankRanges u.toNat

namespace Text

/-- Removes the blank characters at the beginning. -/
def trimStart (text : Text) : Text := text.dropWhile CodeUnit.isBlank

/-- Removes the blank characters at both ends. -/
def trim (text : Text) : Text := (trimStart text).reverse.dropWhile CodeUnit.isBlank |>.reverse

end Text

end IssueQuery
