import IssueQuery.Number

/-!
# Order and sums of numbers

Every finite number is a whole count of ticks, a tick being `2 ^ -1074`. Numbers are ordered by
their ticks, with the infinities at both ends, and a sum is the number nearest to the exact sum.
What is not a number has no place in the order.

* `le_trans` the order is transitive;
* `le_total` any two can be compared if both are numbers.
-/

namespace IssueQuery.Number

/-- How many ticks `± mantissa * 2 ^ exponent` counts. -/
def ticks (negative : Bool) (mantissa : Nat) (exponent : Int) : Int :=
  let count : Int := (mantissa * power 2 (exponent - leastExponent) : Nat)
  if negative then -count else count

/-- The number nearest to a count of ticks. -/
def ofTicks (count : Int) : Number :=
  ofRatio (count < 0) count.natAbs (power 2 (-leastExponent))

/-- Whether the number is zero, of either sign. -/
def isZero : Number → Bool
  | .finite _ m _ => m == 0
  | _ => false

/-! ## Order -/

/-- Whether a number is at most another one. -/
def atMost : Number → Number → Bool
  | .finite s m e, .finite s' m' e' => ticks s m e ≤ ticks s' m' e'
  | .finite .., .infinite negative => !negative
  | .infinite negative, .finite .. => negative
  | .infinite negative, .infinite negative' => negative || !negative'
  | .notANumber, _ | _, .notANumber => false

instance : LE Number := ⟨fun x y => x.atMost y⟩

instance : LT Number := ⟨fun x y => x ≤ y ∧ ¬ y ≤ x⟩

instance (x y : Number) : Decidable (x ≤ y) := inferInstanceAs (Decidable (x.atMost y = true))

instance (x y : Number) : Decidable (x < y) := inferInstanceAs (Decidable (x ≤ y ∧ ¬ y ≤ x))

theorem le_iff_atMost {x y : Number} : x ≤ y ↔ x.atMost y = true := Iff.rfl

/-- The order is transitive. -/
theorem le_trans {x y z : Number} (hxy : x ≤ y) (hyz : y ≤ z) : x ≤ z := by
  rw [le_iff_atMost] at *
  cases x <;> cases y <;> cases z <;> simp_all [atMost]
  · omega
  · grind

/-- Any two can be compared if both are numbers. -/
theorem le_total {x y : Number} (hx : x ≠ .notANumber) (hy : y ≠ .notANumber) :
    x ≤ y ∨ y ≤ x := by
  simp only [le_iff_atMost]
  cases x <;> cases y <;> simp_all [atMost]
  · omega
  · grind

/-! ## Sums -/

/-- The number nearest to the sum. Opposite infinities have none. -/
def sum : Number → Number → Number
  | .finite s m e, .finite s' m' e' => ofTicks (ticks s m e + ticks s' m' e')
  | .finite .., .infinite negative | .infinite negative, .finite .. => .infinite negative
  | .infinite negative, .infinite negative' =>
    if negative = negative' then .infinite negative else .notANumber
  | .notANumber, _ | _, .notANumber => .notANumber

/-- The number with the other sign. -/
def opposite : Number → Number
  | .finite s m e => .finite (!s) m e
  | .infinite s => .infinite (!s)
  | .notANumber => .notANumber

instance : Add Number := ⟨sum⟩

instance : Neg Number := ⟨opposite⟩

instance : Sub Number := ⟨fun x y => x + -y⟩

/-- The least integer that is not below the number. The infinities count as the first powers of two
beyond all finite numbers. -/
def ceil : Number → Int
  | .finite negative m e =>
    let num := m * power 2 e
    let den := power 2 (-e)
    if negative then -((num / den : Nat) : Int) else ((num + den - 1) / den : Nat)
  | .infinite negative => if negative then -power 2 1024 else power 2 1024
  | .notANumber => 0

example : ofInt 1 + ofInt (2 ^ 53) = ofInt (2 ^ 53) := by decide +kernel

example :
    ofDecimal false 1 (-1) + ofDecimal false 2 (-1) = ofDecimal false 30000000000000004 (-17) := by
  decide +kernel

end IssueQuery.Number
