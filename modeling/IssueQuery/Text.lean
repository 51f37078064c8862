/-!
# Text as UTF-16 code units

Positions and lengths of the query language count UTF-16 code units, and its scanner looks at one
unit at a time, so text is the list of those units. A unit outside the basic plane's characters (a
surrogate) may stand alone: the scanner splits a character above U+FFFF into two of them.

* `Text.ofString`   encodes a string;
* `Text.codePoints` decodes, keeping each lone surrogate as the number it is;
* `Text.toString`   is the string that a terminal shows.
-/

namespace IssueQuery

/-- A UTF-16 code unit. -/
abbrev CodeUnit := UInt16

/-- A sequence of UTF-16 code units, not necessarily well formed. -/
abbrev Text := List CodeUnit

namespace CodeUnit

/-- The first half of a surrogate pair. -/
def isHighSurrogate (u : CodeUnit) : Bool := 0xD800 ≤ u.toNat && u.toNat < 0xDC00

/-- The second half of a surrogate pair. -/
def isLowSurrogate (u : CodeUnit) : Bool := 0xDC00 ≤ u.toNat && u.toNat < 0xE000

/-- Either half of a surrogate pair. -/
def isSurrogate (u : CodeUnit) : Bool := 0xD800 ≤ u.toNat && u.toNat < 0xE000

/-- The character that the unit encodes by itself. NUL stands in for a surrogate, which encodes
none. -/
def toChar (u : CodeUnit) : Char := Char.ofNat u.toNat

/-- A unit that encodes a character is the character's code. -/
theorem eq_ofNat_of_toChar {u : CodeUnit} {c : Char} (h : u.toChar = c) (hc : c ≠ Char.ofNat 0) :
    u = UInt16.ofNat c.toNat := by
  by_cases hvalid : u.toNat.isValidChar
  · have hnat : c.toNat = u.toNat := by
      rw [← h, toChar, Char.ofNat, dif_pos hvalid]
      rfl
    rw [hnat, UInt16.ofNat_toNat]
  · rw [toChar, Char.ofNat, dif_neg hvalid] at h
    exact absurd h.symm hc

/-- A decimal digit, ASCII only. -/
def isDigit (u : CodeUnit) : Bool := u.toChar.isDigit

/-- The number that a decimal digit stands for. -/
def digitValue (u : CodeUnit) : Nat := u.toNat - 0x30

/-- The code point of a surrogate pair. -/
def pairValue (high low : CodeUnit) : Nat :=
  0x10000 + (high.toNat - 0xD800) * 0x400 + (low.toNat - 0xDC00)

/-- The units of a code point: itself, or a surrogate pair above U+FFFF. -/
def ofCodePoint (n : Nat) : Text :=
  if n < 0x10000 then [UInt16.ofNat n]
  else
    [UInt16.ofNat (0xD800 + (n - 0x10000) / 0x400), UInt16.ofNat (0xDC00 + (n - 0x10000) % 0x400)]

end CodeUnit

namespace Text

/-- The encoding of a string. -/
def ofString (s : String) : Text := s.toList.flatMap fun c => CodeUnit.ofCodePoint c.toNat

instance : Coe String Text := ⟨ofString⟩

/-- The code points of a text; a lone surrogate counts as the code point of its own value. -/
def codePoints : Text → List Nat
  | [] => []
  | [u] => [u.toNat]
  | u :: v :: rest =>
    if u.isHighSurrogate && v.isLowSurrogate then CodeUnit.pairValue u v :: codePoints rest
    else u.toNat :: codePoints (v :: rest)

/-- The characters of a text, with `lone u` for each lone surrogate `u`. -/
def decode (lone : CodeUnit → List Char) : Text → List Char
  | [] => []
  | [u] => unit u
  | u :: v :: rest =>
    if u.isHighSurrogate && v.isLowSurrogate then
      Char.ofNat (CodeUnit.pairValue u v) :: decode lone rest
    else unit u ++ decode lone (v :: rest)
where
  /-- A unit that is not the first of a pair. -/
  unit (u : CodeUnit) : List Char := if u.isSurrogate then lone u else [u.toChar]

/-- The string of a text, with U+FFFD for each lone surrogate. -/
def toString (text : Text) : String := String.ofList (text.decode fun _ => ['\uFFFD'])

/-- The texts joined, with `separator` between neighbours. -/
def join (separator : Text) (texts : List Text) : Text := (texts.intersperse separator).flatten

/-- The number that decimal digits write. -/
def decimalValue (digits : Text) : Nat := digits.foldl (fun n u => 10 * n + u.digitValue) 0

/-- Whether `part` occurs in the text. -/
def contains (text part : Text) : Bool :=
  match text with
  | [] => part.isEmpty
  | _ :: rest => part.isPrefixOf text || contains rest part

end Text

/-- Membership in a list of inclusive ranges, given in increasing order. -/
def inRanges : List (Nat × Nat) → Nat → Bool
  | [], _ => false
  | (first, last) :: rest, n => first ≤ n && (n ≤ last || inRanges rest n)

end IssueQuery
