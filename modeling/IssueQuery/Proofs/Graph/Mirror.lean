import IssueQuery.Proofs.Cache.Holds
import IssueQuery.Proofs.Graph.Expansion
import Mathlib.Data.List.Count

/-!
# The two directions of a graph mirror each other

A dependency is added to both directions at once, so they tell of the same dependencies, each from
its own end and in the order in which they were given. To exchange the ends of all dependencies is
to exchange the directions.

* `Graph.transposed`           the graph with its directions exchanged;
* `ofDependencies_swapped`     dependencies with their ends exchanged make that graph;
* `forward_mirrors_reverse`    what either direction has, and how the two agree.
-/

namespace IssueQuery

/-- The dependency with its ends exchanged. -/
def Dependency.swapped (d : Dependency) : Dependency := ⟨d.dependsOnId, d.issueId, d.type⟩

theorem Dependency.swapped_injective : Function.Injective Dependency.swapped := by
  rintro ⟨issueId, dependsOnId, type⟩ ⟨issueId', dependsOnId', type'⟩ h
  simpa [swapped, and_left_comm] using h

namespace Adjacency

/-- An issue without edges has no entry. -/
def Occupied (a : Adjacency) : Prop := ∀ e ∈ a.entries, e.2 ≠ []

theorem occupied_empty : Occupied OrderedMap.empty := List.forall_mem_nil _

theorem Occupied.add {a : Adjacency} (h : a.Occupied) (id : Text) (edge : Edge) :
    (a.add id edge).Occupied := by
  intro e he
  obtain rfl | hold := OrderedMap.mem_of_mem_insertEntry he
  · exact List.append_ne_nil_of_right_ne_nil _ (List.cons_ne_nil edge [])
  · exact h e hold

end Adjacency

namespace Graph

variable {ds : List Dependency}

theorem occupied_foldl_add {g : Graph} (hforward : Adjacency.Occupied g.forward)
    (hreverse : Adjacency.Occupied g.reverse) (ds : List Dependency) :
    Adjacency.Occupied (ds.foldl add g).forward ∧ Adjacency.Occupied (ds.foldl add g).reverse := by
  induction ds generalizing g with
  | nil => exact ⟨hforward, hreverse⟩
  | cons d rest ih => exact ih (g := g.add d) (hforward.add _ _) (hreverse.add _ _)

/-! ## Exchanged directions -/

/-- The graph with its directions exchanged. -/
def transposed (g : Graph) : Graph := ⟨g.reverse, g.forward⟩

theorem transposed_add (g : Graph) (d : Dependency) :
    (g.add d).transposed = g.transposed.add d.swapped := rfl

theorem foldl_add_swapped (g : Graph) (ds : List Dependency) :
    (ds.map Dependency.swapped).foldl add g.transposed = (ds.foldl add g).transposed := by
  induction ds generalizing g with
  | nil => rfl
  | cons d rest ih =>
    rw [List.map_cons, List.foldl_cons, List.foldl_cons, ← transposed_add]
    exact ih (g.add d)

/-- Dependencies with their ends exchanged make the graph with its directions exchanged, down to the
order of its entries. -/
theorem ofDependencies_swapped (ds : List Dependency) :
    ofDependencies (ds.map Dependency.swapped) = (ofDependencies ds).transposed :=
  foldl_add_swapped empty ds

/-! ## How often there is an edge -/

theorem count_forward (ds : List Dependency) (a b type : Text) :
    (Adjacency.edges (ofDependencies ds).forward a).count ⟨b, type⟩ = ds.count ⟨a, b, type⟩ := by
  rw [(edges_ofDependencies ds a).1, List.count_eq_countP, List.countP_map, List.countP_filter,
    List.count_eq_countP]
  apply List.countP_congr
  rintro ⟨issueId, dependsOnId, type'⟩ -
  simp [and_comm]

/-- Seen from its other end a dependency is there as often. -/
theorem count_reverse (ds : List Dependency) (a b type : Text) :
    (Adjacency.edges (ofDependencies ds).reverse b).count ⟨a, type⟩ = ds.count ⟨a, b, type⟩ := by
  have hswapped := count_forward (ds.map Dependency.swapped) b a type
  rw [ofDependencies_swapped] at hswapped
  exact hswapped.trans
    (List.count_map_of_injective ds _ Dependency.swapped_injective ⟨a, b, type⟩)

/-- The directions of a graph mirror each other.

Forward an issue has the dependencies that start from it, and in reverse those that end at it, each
as often as it is given and in the order in which they are; an issue without any has no entry. To
exchange the ends of all dependencies is to exchange the directions. So an edge leads from one issue
to another forward as often as it leads back in reverse. -/
theorem forward_mirrors_reverse (ds : List Dependency) :
    let g := ofDependencies ds
    (∀ a, Adjacency.edges g.forward a =
      (ds.filter (·.issueId = a)).map fun d => ⟨d.dependsOnId, d.type⟩) ∧
    (∀ b, Adjacency.edges g.reverse b =
      (ds.filter (·.dependsOnId = b)).map fun d => ⟨d.issueId, d.type⟩) ∧
    ((∀ e ∈ g.forward.entries, e.2 ≠ []) ∧ ∀ e ∈ g.reverse.entries, e.2 ≠ []) ∧
    ofDependencies (ds.map Dependency.swapped) = ⟨g.reverse, g.forward⟩ ∧
    ∀ a b type, (Adjacency.edges g.forward a).count ⟨b, type⟩ =
      (Adjacency.edges g.reverse b).count ⟨a, type⟩ := by
  refine ⟨fun a => (edges_ofDependencies ds a).1, fun b => (edges_ofDependencies ds b).2,
    occupied_foldl_add Adjacency.occupied_empty Adjacency.occupied_empty ds,
    ofDependencies_swapped ds, fun a b type => ?_⟩
  rw [count_forward, count_reverse]

-- a dependency that is given twice and one of an issue on itself
example :
    let g := ofDependencies [⟨"a", "b", "blocks"⟩, ⟨"b", "b", "x"⟩, ⟨"a", "b", "blocks"⟩]
    Adjacency.edges g.forward "a" = [⟨"b", "blocks"⟩, ⟨"b", "blocks"⟩] ∧
    Adjacency.edges g.reverse "b" = [⟨"a", "blocks"⟩, ⟨"b", "x"⟩, ⟨"a", "blocks"⟩] := by
  decide

end Graph

end IssueQuery
