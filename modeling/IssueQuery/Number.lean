import IssueQuery.Text

/-!
# Numbers in double precision

A number is a binary fraction of at most 53 significant bits, an infinity, or not a number. Every
finite value is kept in one form (`mantissa * 2 ^ exponent` with the least exponent that leaves the
mantissa below `2 ^ 53`), so equality of values is equality of forms. All arithmetic is exact and
rounds once, to the nearest value and to the even one of two.
-/

namespace IssueQuery

/-- A number in double precision. -/
inductive Number where
  /-- `± mantissa * 2 ^ exponent`. -/
  | finite (negative : Bool) (mantissa : Nat) (exponent : Int)
  | infinite (negative : Bool)
  | notANumber
deriving DecidableEq, Repr, Inhabited

namespace Number

/-- The exponent of the smallest positive number. -/
def leastExponent : Int := -1074

/-- The exponent of the largest finite numbers. -/
def greatestExponent : Int := 971

/-- The power, or `1` if the exponent is negative. -/
def power (base : Nat) (exponent : Int) : Nat := Nat.pow base exponent.toNat

/-- The quotient rounded to an integer; a half goes to the even neighbour. -/
def roundedQuotient (num den : Nat) : Nat :=
  let q := num / den
  let twice := 2 * (num % den)
  if den < twice || (twice == den && q % 2 == 1) then q + 1 else q

/-- The number nearest to `± num / den`. -/
def ofRatio (negative : Bool) (num den : Nat) : Number :=
  if num = 0 then .finite negative 0 leastExponent
  else
    -- the logarithms fix the exponent up to one; the guess is tight if no bit is missing
    let guess : Int := num.log2 - den.log2 - 53
    let tight := num * power 2 (-guess) / (den * power 2 guess) < power 2 53
    let e := max leastExponent (if tight then guess else guess + 1)
    let m := roundedQuotient (num * power 2 (-e)) (den * power 2 e)
    -- rounding up may have reached the next power of two
    let (m, e) := if m = power 2 53 then (power 2 52, e + 1) else (m, e)
    if greatestExponent < e then .infinite negative else .finite negative m e

/-- The number nearest to an integer. -/
def ofInt (i : Int) : Number := ofRatio (i < 0) i.natAbs 1

/-- The number nearest to `± digits * 10 ^ exponent`. Far outside the range of the finite numbers
the power is not computed. -/
def ofDecimal (negative : Bool) (digits : Nat) (exponent : Int) : Number :=
  let magnitude := exponent + (Nat.toDigits 10 digits).length
  if digits = 0 || magnitude < -400 then ofRatio negative 0 1
  else if 400 < magnitude then .infinite negative
  else ofRatio negative (digits * power 10 exponent) (power 10 (-exponent))

/-- The integer that the number is, if it is one. -/
def toInt? : Number → Option Int
  | .finite negative m e =>
    if m * power 2 e % power 2 (-e) = 0 then
      let n : Int := (m * power 2 e / power 2 (-e) : Nat)
      some (if negative then -n else n)
    else none
  | _ => none

/-- Whether the number is an integer. -/
def isInteger (x : Number) : Bool := x.toInt?.isSome

instance : OfNat Number n := ⟨ofInt n⟩

example : ofDecimal false 5 (-324) = .finite false 1 (-1074) := by decide +kernel

example : ofInt (2 ^ 53 + 1) = ofInt (2 ^ 53) := by decide +kernel

end Number

end IssueQuery
