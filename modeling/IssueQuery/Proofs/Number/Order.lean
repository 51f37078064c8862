import IssueQuery.Number.Arithmetic

/-!
# Numbers that can be compared

The order of numbers leaves out what is not a number, so a fact about it that would need no
condition elsewhere asks for two numbers here.

* `not_le_iff`          of two numbers one is less if the other is not at most it;
* `add_ne_notANumber`   which sums are numbers.
-/

namespace IssueQuery.Number

/-! ## Order -/

theorem le_refl {x : Number} (h : x ≠ .notANumber) : x ≤ x :=
  (le_total h h).elim id id

/-- What is at most something is a number. -/
theorem ne_notANumber_of_le {x y : Number} (h : x ≤ y) : x ≠ .notANumber ∧ y ≠ .notANumber := by
  rw [le_iff_atMost] at h
  cases x <;> cases y <;> simp_all [atMost]

theorem not_le_iff {x y : Number} (hx : x ≠ .notANumber) (hy : y ≠ .notANumber) :
    ¬ x ≤ y ↔ y < x :=
  ⟨fun h => ⟨(le_total hx hy).resolve_left h, h⟩, fun h => h.2⟩

theorem lt_of_lt_of_le {x y z : Number} (hxy : x < y) (hyz : y ≤ z) : x < z :=
  ⟨le_trans hxy.1 hyz, fun hzx => hxy.2 (le_trans hyz hzx)⟩

theorem lt_of_le_of_lt {x y z : Number} (hxy : x ≤ y) (hyz : y < z) : x < z :=
  ⟨le_trans hxy hyz.1, fun hzx => hyz.2 (le_trans hzx hxy)⟩

/-! ## Sums -/

theorem ofRatio_ne_notANumber (negative : Bool) (num den : Nat) :
    ofRatio negative num den ≠ .notANumber := by
  unfold ofRatio
  split
  · nofun
  · extract_lets
    split
    split <;> nofun

/-- Only opposite infinities have no sum. -/
theorem add_ne_notANumber {x y : Number} (hx : .infinite true < x) (hy : 0 ≤ y) :
    x + y ≠ .notANumber := by
  have hzero : (0 : Number) = .finite false 0 leastExponent := by decide
  rw [hzero, le_iff_atMost] at hy
  have hnot := hx.2
  rw [le_iff_atMost] at hnot
  show sum x y ≠ .notANumber
  cases x with
  | finite => cases y <;> simp_all [sum, atMost, ofTicks, ofRatio_ne_notANumber]
  | infinite => cases y <;> simp_all [sum, atMost]
  | notANumber => exact absurd rfl (ne_notANumber_of_le hx.1).2

end IssueQuery.Number
