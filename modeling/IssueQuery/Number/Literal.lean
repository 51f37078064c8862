import IssueQuery.Number

/-!
# Numeric literals

A number as a setting writes it: decimal digits with an optional sign, fraction and exponent, or
digits after `0x`, `0o` or `0b`, which take no sign. The whole text has to be the number. A fraction
may lack digits on one side of its point, not on both.
-/

namespace IssueQuery.Number

/-- The value of a digit in a base, if it is one. Letters are digits from ten on, in either case. -/
def digitIn? (base : Nat) (u : CodeUnit) : Option Nat :=
  let c := u.toChar
  let value :=
    if c.isDigit then c.toNat - 0x30
    else if 'a' ≤ c && c ≤ 'z' then c.toNat - 0x57
    else if 'A' ≤ c && c ≤ 'Z' then c.toNat - 0x37
    else base
  if value < base then some value else none

/-- The value of one or more digits in a base. -/
def natural? (base : Nat) (digits : Text) : Option Nat :=
  if digits.isEmpty then none
  else digits.foldlM (fun n u => (digitIn? base u).map (base * n + ·)) 0

/-- An optional sign (true for minus) and the rest. -/
def splitSign (text : Text) : Bool × Text :=
  match text with
  | [] => (false, [])
  | u :: rest =>
    match u.toChar with
    | '-' => (true, rest)
    | '+' => (false, rest)
    | _ => (false, text)

/-- An exponent: `e` and a signed whole number, or nothing at all. -/
def exponent? (text : Text) : Option Int :=
  match text with
  | [] => some 0
  | u :: rest =>
    if u.toChar == 'e' || u.toChar == 'E' then
      let (negative, digits) := splitSign rest
      (natural? 10 digits).map fun n => if negative then -(n : Int) else n
    else none

/-- An unsigned decimal literal, given the sign it is to have. -/
def decimal? (negative : Bool) (text : Text) : Option Number :=
  let whole := text.takeWhile CodeUnit.isDigit
  let afterWhole := text.dropWhile CodeUnit.isDigit
  let (fraction, tail) :=
    match afterWhole with
    | [] => ([], [])
    | u :: rest =>
      if u.toChar == '.' then (rest.takeWhile CodeUnit.isDigit, rest.dropWhile CodeUnit.isDigit)
      else ([], afterWhole)
  match natural? 10 (whole ++ fraction), exponent? tail with
  | some digits, some e => some (ofDecimal negative digits (e - fraction.length))
  | _, _ => none

/-- The number that a trimmed text writes. Nothing at all writes zero. -/
def ofLiteral? (text : Text) : Option Number :=
  match text with
  | [] => some 0
  | zero :: mark :: digits =>
    match zero.toChar, mark.toChar with
    | '0', 'x' | '0', 'X' => (natural? 16 digits).map fun n => ofInt n
    | '0', 'o' | '0', 'O' => (natural? 8 digits).map fun n => ofInt n
    | '0', 'b' | '0', 'B' => (natural? 2 digits).map fun n => ofInt n
    | _, _ => let (negative, rest) := splitSign text; decimal? negative rest
  | _ => let (negative, rest) := splitSign text; decimal? negative rest

end IssueQuery.Number
