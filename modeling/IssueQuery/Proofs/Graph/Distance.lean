import IssueQuery.Graph
import IssueQuery.Query
import Mathlib.Data.Nat.Find
import Mathlib.Logic.Relation

/-!
# Paths and distances along dependencies

What it means for an issue to be reached from others, said of the list of dependencies alone: a
dependency leads up from its issue to the one that this depends on, and down the other way. Paths
count their dependencies, and the distance of an issue is the length of a shortest path to it.

* `Direction.Leads`  one dependency leads from an issue to another;
* `Path`             so many dependencies do, one after the other;
* `Near`             an issue can be reached from base issues along so many dependencies at most;
* `Distance`         so many are needed;
* `Reachable`        an issue can be reached at all.
-/

namespace IssueQuery

/-- According to a dependency of the list, the first issue depends on the second. -/
def Depends (ds : List Dependency) (x y : Text) : Prop :=
  ∃ d ∈ ds, d.issueId = x ∧ d.dependsOnId = y

/-- A dependency of the list leads from the first issue to the second. -/
def Direction.Leads (ds : List Dependency) : Direction → Text → Text → Prop
  | .up, x, y => Depends ds x y
  | .down, x, y => Depends ds y x
  | .both, x, y => Depends ds x y ∨ Depends ds y x

namespace Graph

/-- So many dependencies lead from the first issue to the second, one after the other. -/
inductive Path (ds : List Dependency) (direction : Direction) : Nat → Text → Text → Prop
  | here (x : Text) : Path ds direction 0 x x
  | step {n : Nat} {x y z : Text} (path : Path ds direction n x y)
      (leads : direction.Leads ds y z) : Path ds direction (n + 1) x z

variable (ds : List Dependency) (direction : Direction) (base : List Text)

/-- A path of exactly this length leads from some base issue to the issue. -/
def Meets (n : Nat) (y : Text) : Prop := ∃ x ∈ base, Path ds direction n x y

/-- Some base issue reaches the issue along at most so many dependencies. -/
def Near (n : Nat) (y : Text) : Prop := ∃ k ≤ n, Meets ds direction base k y

/-- The length of a shortest path from a base issue to the issue. -/
def Distance (n : Nat) (y : Text) : Prop :=
  Meets ds direction base n y ∧ ∀ k, Meets ds direction base k y → n ≤ k

/-- Some base issue reaches the issue along any number of dependencies. -/
def Reachable (y : Text) : Prop := ∃ x ∈ base, Relation.ReflTransGen (direction.Leads ds) x y

variable {ds direction base} {n m : Nat} {x y : Text}

/-! ## Paths, one dependency at a time -/

theorem meets_zero : Meets ds direction base 0 y ↔ y ∈ base := by
  constructor
  · rintro ⟨x, hx, hpath⟩
    cases hpath
    exact hx
  · exact fun hy => ⟨y, hy, .here y⟩

theorem meets_succ :
    Meets ds direction base (n + 1) y ↔
      ∃ x, Meets ds direction base n x ∧ direction.Leads ds x y := by
  constructor
  · rintro ⟨b, hb, hpath⟩
    cases hpath with
    | step hpath hleads => exact ⟨_, ⟨b, hb, hpath⟩, hleads⟩
  · rintro ⟨x, ⟨b, hb, hpath⟩, hleads⟩
    exact ⟨b, hb, hpath.step hleads⟩

theorem Near.mono (h : Near ds direction base n y) (hle : n ≤ m) : Near ds direction base m y := by
  obtain ⟨k, hk, hmeets⟩ := h
  exact ⟨k, by omega, hmeets⟩

theorem near_zero : Near ds direction base 0 y ↔ y ∈ base := by
  simp [Near, meets_zero]

/-- One more dependency leads to what was near before, and to what is next to that. -/
theorem near_succ :
    Near ds direction base (n + 1) y ↔
      Near ds direction base n y ∨ ∃ x, Near ds direction base n x ∧ direction.Leads ds x y := by
  constructor
  · rintro ⟨k, hk, hmeets⟩
    by_cases hle : k ≤ n
    · exact .inl ⟨k, hle, hmeets⟩
    · obtain rfl : k = n + 1 := by omega
      obtain ⟨x, hx, hleads⟩ := meets_succ.mp hmeets
      exact .inr ⟨x, ⟨n, Nat.le_refl n, hx⟩, hleads⟩
  · rintro (hnear | ⟨x, ⟨k, hk, hmeets⟩, hleads⟩)
    · exact hnear.mono (Nat.le_succ n)
    · exact ⟨k + 1, by omega, meets_succ.mpr ⟨x, hmeets, hleads⟩⟩

/-! ## Distances -/

theorem Distance.near (h : Distance ds direction base n y) : Near ds direction base n y :=
  ⟨n, Nat.le_refl n, h.1⟩

theorem Distance.le_of_near (h : Distance ds direction base n y)
    (hnear : Near ds direction base m y) : n ≤ m := by
  obtain ⟨k, hk, hmeets⟩ := hnear
  exact Nat.le_trans (h.2 k hmeets) hk

/-- Whatever is near has a distance. -/
theorem Near.exists_distance (h : Near ds direction base n y) :
    ∃ k ≤ n, Distance ds direction base k y := by
  classical
  obtain ⟨k, hk, hmeets⟩ := h
  have hsome : ∃ k, Meets ds direction base k y := ⟨k, hmeets⟩
  refine ⟨Nat.find hsome, ?_, Nat.find_spec hsome, fun j hj => Nat.find_min' hsome hj⟩
  exact Nat.le_trans (Nat.find_min' hsome hmeets) hk

theorem distance_zero : Distance ds direction base 0 y ↔ y ∈ base := by
  have hmeets : Meets ds direction base 0 y ↔ y ∈ base := meets_zero
  rw [← hmeets]
  exact ⟨And.left, fun h => ⟨h, fun _ _ => Nat.zero_le _⟩⟩

/-- What is one further away than `n` is next to something `n` away, and no nearer. -/
theorem distance_succ :
    Distance ds direction base (n + 1) y ↔
      ¬ Near ds direction base n y ∧
        ∃ x, Distance ds direction base n x ∧ direction.Leads ds x y := by
  constructor
  · intro h
    have hfar : ¬ Near ds direction base n y := by
      intro hnear
      have := h.le_of_near hnear
      omega
    obtain ⟨x, hx, hleads⟩ := meets_succ.mp h.1
    refine ⟨hfar, x, ⟨hx, ?_⟩, hleads⟩
    -- a shorter way to the neighbour would be a shorter way here
    intro k hk
    by_contra hlt
    exact hfar ⟨k + 1, by omega, meets_succ.mpr ⟨x, hk, hleads⟩⟩
  · rintro ⟨hfar, x, hx, hleads⟩
    refine ⟨meets_succ.mpr ⟨x, hx.1, hleads⟩, ?_⟩
    intro k hk
    by_contra hlt
    exact hfar ⟨k, by omega, hk⟩

/-- If nothing is one further away than `n`, then nothing is further away than `n` at all. -/
theorem Near.of_gap (hgap : ∀ y, ¬ Distance ds direction base (n + 1) y)
    (h : Near ds direction base m y) : Near ds direction base n y := by
  induction m generalizing y with
  | zero => exact h.mono (Nat.zero_le n)
  | succ m ih =>
    obtain hnear | ⟨x, hx, hleads⟩ := near_succ.mp h
    · exact ih hnear
    · by_contra hfar
      obtain ⟨k, hk, hdistance⟩ := (near_succ.mpr (.inr ⟨x, ih hx, hleads⟩)).exists_distance
      -- near within `n + 1` and not within `n` is a distance of `n + 1`
      obtain rfl : k = n + 1 := by
        have : ¬ k ≤ n := fun hle => hfar (hdistance.near.mono hle)
        omega
      exact hgap y hdistance

theorem reachable_iff_near : Reachable ds direction base y ↔ ∃ n, Near ds direction base n y := by
  constructor
  · rintro ⟨b, hb, hpath⟩
    induction hpath with
    | refl => exact ⟨0, near_zero.mpr hb⟩
    | tail _ hleads ih =>
      obtain ⟨n, hn⟩ := ih
      exact ⟨n + 1, near_succ.mpr (.inr ⟨_, hn, hleads⟩)⟩
  · rintro ⟨n, k, -, b, hb, hpath⟩
    refine ⟨b, hb, ?_⟩
    induction hpath with
    | here => exact .refl
    | step _ hleads ih => exact (ih hb).tail hleads

end Graph

end IssueQuery
