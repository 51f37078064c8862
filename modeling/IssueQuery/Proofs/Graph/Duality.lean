import IssueQuery.Proofs.Graph.Expansion

/-!
# Up and down are dual

The dependencies that lead up from an issue lead down to it from the other end. So a path read
backwards is a path of the same length in the opposite direction, and an issue is found from another
one in a direction just if that one is found from it in the opposite direction.

* `Direction.opposite`   up and down exchanged;
* `path_opposite`        paths read backwards;
* `mem_expand_singleton` what is found from one issue;
* `expand_dual`          the duality.
-/

namespace IssueQuery

/-- The direction in which dependencies are followed back. -/
def Direction.opposite : Direction → Direction
  | .up => .down
  | .down => .up
  | .both => .both

namespace Graph

variable {ds : List Dependency} {direction : Direction} {n : Nat} {x y z : Text}

theorem leads_opposite : direction.opposite.Leads ds y x ↔ direction.Leads ds x y := by
  cases direction with
  | up => exact Iff.rfl
  | down => exact Iff.rfl
  | both => exact or_comm

/-! ## Paths read backwards -/

/-- A dependency in front of a path. -/
theorem Path.cons (leads : direction.Leads ds x y) (path : Path ds direction n y z) :
    Path ds direction (n + 1) x z := by
  induction path with
  | here => exact (Path.here x).step leads
  | step _ hleads ih => exact (ih leads).step hleads

theorem Path.reverse (path : Path ds direction n x y) : Path ds direction.opposite n y x := by
  induction path with
  | here x => exact .here x
  | step _ hleads ih => exact ih.cons (leads_opposite.mpr hleads)

theorem path_opposite : Path ds direction.opposite n y x ↔ Path ds direction n x y := by
  constructor
  · intro path
    have hback := path.reverse
    cases direction <;> exact hback
  · exact Path.reverse

/-! ## What is found from one issue -/

/-- From one issue an expansion finds what a path of an allowed length leads to. -/
theorem mem_expand_singleton {depth : Depth} :
    y ∈ ((ofDependencies ds).expand [x] direction depth).ids ↔
      ∃ k ≤ allowedRounds depth, Path ds direction k x y := by
  obtain ⟨last, hexplored, -⟩ := expand_explored ds [x] direction depth
  rw [hexplored.mem_seen]
  simp [Near, Meets]

/-- What is found from one issue in a direction is what finds it in the opposite direction. -/
theorem mem_expand_opposite {depth : Depth} :
    y ∈ ((ofDependencies ds).expand [x] direction depth).ids ↔
      x ∈ ((ofDependencies ds).expand [y] direction.opposite depth).ids := by
  simp only [mem_expand_singleton, path_opposite]

/-- Up and down are dual. Whatever the dependencies and the depth, one issue is found above another
just if that one is found below it; and one is found around another just if that one is found around
it. -/
theorem expand_dual (ds : List Dependency) (x y : Text) (depth : Depth) :
    let g := ofDependencies ds
    (y ∈ (g.expand [x] .up depth).ids ↔ x ∈ (g.expand [y] .down depth).ids) ∧
    (y ∈ (g.expand [x] .both depth).ids ↔ x ∈ (g.expand [y] .both depth).ids) :=
  ⟨mem_expand_opposite, mem_expand_opposite⟩

-- two levels up to the end of a chain are two levels down from it
example :
    let g := ofDependencies [⟨"a", "b", "blocks"⟩, ⟨"b", "c", "parent-child"⟩, ⟨"b", "b", "x"⟩]
    g.expand ["a"] .up (.levels 2) = ⟨["a", "b", "c"], false, 2, 2⟩ ∧
    g.expand ["c"] .down (.levels 2) = ⟨["c", "b", "a"], false, 2, 2⟩ := by
  decide

end Graph

end IssueQuery
