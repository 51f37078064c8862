import IssueQuery.Number

/-!
# Numbers in decimal

A finite number is written with the fewest digits that read back as the number, and of those with
the nearest ones. It is positional while its leading digit stands between the seventh place after
the point and the twenty-first before it; beyond, an exponent follows. Zero has no sign.
-/

namespace IssueQuery.Number

/-- The place of the leading digit of `num / den`: the `t` with
`10 ^ (t - 1) ≤ num / den < 10 ^ t`. -/
def leadingPlace (num den : Nat) : Int :=
  if den ≤ num then (Nat.toDigits 10 (num / den)).length
  else 1 - ((Nat.toDigits 10 ((den + num - 1) / num - 1)).length : Int)

/-- Of the two multiples of `10 ^ exponent` around `num / den`, those that read back as `x`, the
nearer one first; a tie goes to the even one. -/
def candidates (x : Number) (num den : Nat) (exponent : Int) : List Nat :=
  let top := num * power 10 (-exponent)
  let bottom := den * power 10 exponent
  let below := top / bottom
  let nearest := roundedQuotient top bottom
  let other := if nearest = below then below + 1 else below
  [nearest, other].filter fun d => ofDecimal false d exponent == x

/-- The shortest decimal `digits * 10 ^ exponent` that reads back as the positive number `x`, which
is `num / den`; at least `count` digits are tried. -/
def shortestFrom (x : Number) (num den : Nat) (place : Int) :
    (tries : Nat) → (count : Nat) → Nat × Int
  | 0, count =>
    (roundedQuotient (num * power 10 (count - place)) (den * power 10 (place - count)),
      place - count)
  | tries + 1, count =>
    match candidates x num den (place - count) with
    | d :: _ => (d, place - count)
    | [] => shortestFrom x num den place tries (count + 1)

/-- Drops the zeros at the end of the digits. -/
def dropTrailingZeros (digits : List Char) : List Char :=
  (digits.reverse.dropWhile (· == '0')).reverse

/-- The significant digits of a positive number `mantissa * 2 ^ exponent`, and the place of the
first: the number is `0.d₁d₂… * 10 ^ place`. Seventeen digits always read back. -/
def shortestDigits (mantissa : Nat) (exponent : Int) : List Char × Int :=
  let num := mantissa * power 2 exponent
  let den := power 2 (-exponent)
  -- a count of digits that is rounded up to a power of ten gains a digit, and `place` with it
  let (d, e) := shortestFrom (.finite false mantissa exponent) num den (leadingPlace num den) 17 1
  let digits := Nat.toDigits 10 d
  (dropTrailingZeros digits, e + digits.length)

/-- Writes digits whose first stands at the given place. -/
def writeDigits (digits : List Char) (place : Int) : List Char :=
  let count : Int := digits.length
  if count ≤ place && place ≤ 21 then digits ++ List.replicate (place - count).toNat '0'
  else if 0 < place && place ≤ 21 then digits.take place.toNat ++ '.' :: digits.drop place.toNat
  else if -6 < place && place ≤ 0 then '0' :: '.' :: List.replicate (-place).toNat '0' ++ digits
  else
    let power := place - 1
    let fraction := if digits.length = 1 then [] else '.' :: digits.tail
    digits.take 1 ++ fraction ++ 'e' :: (if power < 0 then '-' else '+') ::
      Nat.toDigits 10 power.natAbs

/-- The decimal text of a number. -/
def toDecimal : Number → String
  | .notANumber => "NaN"
  | .infinite negative => if negative then "-Infinity" else "Infinity"
  | .finite negative m e =>
    if m = 0 then "0"
    else
      let (digits, place) := shortestDigits m e
      String.ofList ((if negative then ['-'] else []) ++ writeDigits digits place)

/-- The decimal text of a number. -/
def toText (x : Number) : Text := x.toDecimal

end IssueQuery.Number
