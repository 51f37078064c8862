import IssueQuery.Text

/-!
# Dates as they are written

A date is `today`, `yesterday`, an offset from now such as `-7d`, or an absolute date in ISO form.
This module recognises the forms; it computes no calendar.

* `Offset.read?` splits an offset into sign, digits and unit, `Offset.toText` writes it;
* `isIsoDate`    recognises `2024-01-15`, with an optional time and zone.
-/

namespace IssueQuery

/-- The unit of an offset: days, hours or months. -/
inductive OffsetUnit where
  | days
  | hours
  | months
deriving DecidableEq, Repr, Inhabited

namespace OffsetUnit

/-- The unit of a small letter. -/
def ofLetter? (u : CodeUnit) : Option OffsetUnit :=
  match u.toChar with
  | 'd' => some .days
  | 'h' => some .hours
  | 'm' => some .months
  | _ => none

/-- The unit of a letter of either case. -/
def ofAnyLetter? (u : CodeUnit) : Option OffsetUnit :=
  match u.toChar with
  | 'd' | 'D' => some .days
  | 'h' | 'H' => some .hours
  | 'm' | 'M' => some .months
  | _ => none

/-- The letter that writes the unit. -/
def letter : OffsetUnit → String
  | .days => "d"
  | .hours => "h"
  | .months => "m"

/-- The unit in words. -/
def plural : OffsetUnit → String
  | .days => "days"
  | .hours => "hours"
  | .months => "months"

end OffsetUnit

/-- The sign in front of a number, if one is written. -/
inductive WrittenSign where
  | unsigned
  | plus
  | minus
deriving DecidableEq, Repr, Inhabited

namespace WrittenSign

/-- The sign as it is written. -/
def symbol : WrittenSign → String
  | .unsigned => ""
  | .plus => "+"
  | .minus => "-"

/-- Takes a sign off the front of a text. -/
def take (text : Text) : WrittenSign × Text :=
  match text with
  | [] => (.unsigned, [])
  | u :: rest =>
    match u.toChar with
    | '+' => (.plus, rest)
    | '-' => (.minus, rest)
    | _ => (.unsigned, text)

end WrittenSign

/-- A span of time before or after now. -/
structure Offset where
  sign : WrittenSign
  digits : Text
  unit : OffsetUnit
deriving DecidableEq, Repr, Inhabited

namespace Offset

/-- Reads an optional sign, one or more digits and one unit letter, which is all of the text. -/
def read? (unitOf : CodeUnit → Option OffsetUnit) (text : Text) : Option Offset :=
  let (sign, body) := WrittenSign.take text
  let digits := body.takeWhile CodeUnit.isDigit
  match digits, body.dropWhile CodeUnit.isDigit with
  | _ :: _, [letter] => (unitOf letter).map fun unit => ⟨sign, digits, unit⟩
  | _, _ => none

/-- Writes the offset with a small unit letter. -/
def toText (o : Offset) : Text :=
  Text.ofString o.sign.symbol ++ o.digits ++ Text.ofString o.unit.letter

end Offset

/-- Whether the text is an optional sign and one or more digits. -/
def isWholeNumber (text : Text) : Bool :=
  let body := (WrittenSign.take text).2
  !body.isEmpty && body.all CodeUnit.isDigit

/-- The integer that an optional sign and digits write. -/
def wholeNumberValue (text : Text) : Int :=
  let (sign, digits) := WrittenSign.take text
  let n : Int := Text.decimalValue digits
  if sign = .minus then -n else n

namespace IsoDate

/-- Takes exactly `count` digits off the front. -/
def digits : (count : Nat) → Text → Option Text
  | 0, text => some text
  | _ + 1, [] => none
  | count + 1, u :: rest => if u.isDigit then digits count rest else none

/-- Takes one given character off the front. -/
def char (c : Char) : Text → Option Text
  | [] => none
  | u :: rest => if u.toChar == c then some rest else none

/-- `.` and one or more digits, or nothing. -/
def fraction (text : Text) : Text :=
  match char '.' text with
  | some rest => if (rest.takeWhile CodeUnit.isDigit).isEmpty then text
      else rest.dropWhile CodeUnit.isDigit
  | none => text

/-- `:` and two digits and a fraction, or nothing. -/
def seconds (text : Text) : Text :=
  match char ':' text >>= digits 2 with
  | some rest => fraction rest
  | none => text

/-- Whether the text is a zone: nothing, `Z`, or a signed hour and minute with or without `:`. -/
def isZone (text : Text) : Bool :=
  match text with
  | [] => true
  | u :: rest =>
    match u.toChar with
    | 'Z' => rest.isEmpty
    | '+' | '-' =>
      match digits 2 rest with
      | some rest => digits 2 ((char ':' rest).getD rest) == some []
      | none => false
    | _ => false

/-- Whether the text is a time of day with an optional zone. -/
def isTime (text : Text) : Bool :=
  match digits 2 text >>= char ':' >>= digits 2 with
  | some rest => isZone (seconds rest)
  | none => false

/-- Takes `YYYY-MM-DD` off the front. -/
def day (text : Text) : Option Text :=
  digits 4 text >>= char '-' >>= digits 2 >>= char '-' >>= digits 2

end IsoDate

/-- Whether the text has the form of an ISO date: a day, alone or followed by `T` or a space and a
time. -/
def isIsoDate (text : Text) : Bool :=
  match IsoDate.day text with
  | none => false
  | some [] => true
  | some (u :: rest) => (u.toChar == 'T' || u.toChar == ' ') && IsoDate.isTime rest

end IssueQuery
