import IssueQuery.Graph.Reach
import IssueQuery.Proofs.Graph.Distance
import Mathlib.Tactic.Common

/-!
# Expansion finds what is near, nearest first

The graph of a list of dependencies has exactly their edges, in both directions. Behind `n` rounds an
expansion has seen exactly the issues within `n` dependencies of the base, in the order of their
distance, and what the last round found is exactly what is `n` away. So the next round finds what is
one further away; if it finds nothing, there is nothing further away at all.

* `Rounds`            how the rounds go, step by step;
* `Layered`           what holds behind each round;
* `Rounds.layered`    what holds behind the last one;
* `expand_levels`     an expansion with a depth finds what is within that depth;
* `expand_unlimited`  one without finds what is within a hundred rounds, and says whether that is
  all.
-/

namespace IssueQuery

/-! ## First occurrences -/

section FirstOccurrences

variable {α : Type} [BEq α] [LawfulBEq α] {l : List α} {a : α}

theorem mem_firstOccurrences : a ∈ firstOccurrences l ↔ a ∈ l := by
  induction l with
  | nil => simp [firstOccurrences]
  | cons b rest ih =>
    by_cases h : a = b
    · simp [firstOccurrences, h]
    · simp [firstOccurrences, h, ih]

theorem nodup_firstOccurrences : (firstOccurrences l).Nodup := by
  induction l with
  | nil => simp [firstOccurrences]
  | cons b rest ih =>
    rw [firstOccurrences, List.nodup_cons]
    exact ⟨by simp, ih.filter _⟩

theorem firstOccurrences_of_nodup (h : l.Nodup) : firstOccurrences l = l := by
  induction l with
  | nil => rfl
  | cons b rest ih =>
    obtain ⟨hnew, hrest⟩ := List.nodup_cons.mp h
    rw [firstOccurrences, ih hrest, List.filter_eq_self.mpr]
    intro c hc
    have hne : c ≠ b := fun heq => hnew (heq ▸ hc)
    simpa using hne

theorem firstOccurrences_filter (p : α → Bool) :
    firstOccurrences (l.filter p) = (firstOccurrences l).filter p := by
  induction l with
  | nil => rfl
  | cons b rest ih =>
    by_cases h : p b = true
    · simp only [List.filter_cons, h, if_true, firstOccurrences, ih]
      rw [List.filter_filter, List.filter_filter]
      simp only [Bool.and_comm]
    · rw [List.filter_cons_of_neg h, firstOccurrences, List.filter_cons_of_neg h, ih,
        List.filter_filter]
      -- what passes the test is not `b`
      apply List.filter_congr
      intro c _
      by_cases hc : p c = true
      · have hne : c ≠ b := fun heq => h (heq ▸ hc)
        simp [hc, hne]
      · simp [hc]

theorem firstOccurrences_eq_eraseDups : firstOccurrences l = l.eraseDups := by
  induction hn : l.length using Nat.strongRecOn generalizing l with
  | _ n ih =>
    cases l with
    | nil => rfl
    | cons b rest =>
      have hshort : (rest.filter (· != b)).length < n := by
        have := List.length_filter_le (· != b) rest
        simp only [List.length_cons] at hn
        omega
      rw [List.eraseDups_cons, firstOccurrences, ← firstOccurrences_filter]
      exact congrArg (b :: ·) (ih _ hshort rfl)

end FirstOccurrences

/-! ## Edges -/

namespace Adjacency

theorem edges_add (a : Adjacency) (id other : Text) (edge : Edge) :
    (a.add id edge).edges other =
      if other = id then a.edges id ++ [edge] else a.edges other := by
  unfold edges add
  rw [OrderedMap.get?_insert]
  by_cases h : other = id
  · simp [h, edges]
  · simp [h]

end Adjacency

namespace Graph

variable {ds : List Dependency} {direction : Direction} {base seen frontier : List Text} {n : Nat}
  {x y : Text}

theorem edges_foldl_add (ds : List Dependency) (g : Graph) (id : Text) :
    Adjacency.edges (ds.foldl add g).forward id =
        Adjacency.edges g.forward id ++
          (ds.filter (·.issueId = id)).map (fun d => ⟨d.dependsOnId, d.type⟩) ∧
      Adjacency.edges (ds.foldl add g).reverse id =
        Adjacency.edges g.reverse id ++
          (ds.filter (·.dependsOnId = id)).map (fun d => ⟨d.issueId, d.type⟩) := by
  induction ds generalizing g with
  | nil => simp
  | cons d rest ih =>
    obtain ⟨hforward, hreverse⟩ := ih (g.add d)
    rw [List.foldl_cons, hforward, hreverse]
    simp only [add, Adjacency.edges_add, List.filter_cons]
    constructor
    · by_cases h : d.issueId = id
      · simp [h]
      · simp [h, Ne.symm h]
    · by_cases h : d.dependsOnId = id
      · simp [h]
      · simp [h, Ne.symm h]

/-- The edges of an issue are its dependencies, in their order, seen from either end. -/
theorem edges_ofDependencies (ds : List Dependency) (id : Text) :
    Adjacency.edges (ofDependencies ds).forward id =
        (ds.filter (·.issueId = id)).map (fun d => ⟨d.dependsOnId, d.type⟩) ∧
      Adjacency.edges (ofDependencies ds).reverse id =
        (ds.filter (·.dependsOnId = id)).map (fun d => ⟨d.issueId, d.type⟩) := by
  obtain ⟨hforward, hreverse⟩ := edges_foldl_add ds empty id
  exact ⟨hforward, hreverse⟩

theorem mem_neighbours :
    y ∈ (ofDependencies ds).neighbours direction x ↔ direction.Leads ds x y := by
  obtain ⟨hforward, hreverse⟩ := edges_ofDependencies ds x
  have hup : y ∈ (Adjacency.edges (ofDependencies ds).forward x).map Edge.target ↔
      Depends ds x y := by
    simp [hforward, Depends, and_assoc]
  have hdown : y ∈ (Adjacency.edges (ofDependencies ds).reverse x).map Edge.target ↔
      Depends ds y x := by
    simp [hreverse, Depends, and_assoc, and_comm]
  cases direction with
  | up => exact hup
  | down => exact hdown
  | both =>
    simp only [neighbours, List.map_append, List.mem_append, hup, hdown]
    rfl

/-- A round finds what is next to the frontier and was not seen. -/
theorem mem_discover :
    y ∈ (ofDependencies ds).discover direction seen frontier ↔
      y ∉ seen ∧ ∃ x ∈ frontier, direction.Leads ds x y := by
  simp only [discover, mem_firstOccurrences, List.mem_filter, List.mem_flatMap, mem_neighbours,
    List.contains_iff_mem, Bool.not_eq_true', ← Bool.not_eq_true]
  exact and_comm

/-! ## Rounds -/

/-- How the rounds go that are allowed: they are used up, or there is nothing to go on from, or one of
them finds nothing, or one finds something and the others go on from there. -/
inductive Rounds (g : Graph) (direction : Direction) :
    (allowed : Nat) → (seen frontier all last : List Text) → (levels : Nat) → Prop
  | spent {seen frontier : List Text} : Rounds g direction 0 seen frontier seen frontier 0
  | blocked {allowed : Nat} {seen : List Text} : Rounds g direction (allowed + 1) seen [] seen [] 0
  | barren {allowed : Nat} {seen frontier : List Text} (hsome : frontier ≠ [])
    (hnone : g.discover direction seen frontier = []) :
    Rounds g direction (allowed + 1) seen frontier seen [] 0
  | found {allowed levels : Nat} {seen frontier all last : List Text} (hsome : frontier ≠ [])
    (hfound : g.discover direction seen frontier ≠ [])
    (h : Rounds g direction allowed (seen ++ g.discover direction seen frontier)
      (g.discover direction seen frontier) all last levels) :
    Rounds g direction (allowed + 1) seen frontier all last (levels + 1)

theorem rounds_of_eq {g : Graph} {allowed levels begun : Nat} {all last : List Text}
    (hrun : g.rounds direction allowed seen frontier = (all, last, levels, begun)) :
    Rounds g direction allowed seen frontier all last levels := by
  induction allowed generalizing seen frontier levels begun with
  | zero =>
    obtain ⟨rfl, rfl, rfl, -⟩ : seen = all ∧ frontier = last ∧ 0 = levels ∧ 0 = begun := by
      simpa [rounds] using hrun
    exact .spent
  | succ allowed ih =>
    unfold rounds at hrun
    by_cases hfrontier : frontier = []
    · subst hfrontier
      obtain ⟨rfl, rfl, rfl, -⟩ : seen = all ∧ [] = last ∧ 0 = levels ∧ 0 = begun := by
        simpa using hrun
      exact .blocked
    rw [if_neg (by simpa using hfrontier)] at hrun
    by_cases hnone : g.discover direction seen frontier = []
    · obtain ⟨rfl, rfl, rfl, -⟩ : seen = all ∧ [] = last ∧ 0 = levels ∧ 1 = begun := by
        simpa [hnone] using hrun
      exact .barren hfrontier hnone
    · rcases hrest : g.rounds direction allowed (seen ++ g.discover direction seen frontier)
        (g.discover direction seen frontier) with ⟨all', last', levels', begun'⟩
      obtain ⟨rfl, rfl, rfl, -⟩ :
          all' = all ∧ last' = last ∧ levels' + 1 = levels ∧ begun' + 1 = begun := by
        simpa [hnone, hrest] using hrun
      exact .found hfrontier hnone (ih hrest)

/-- What holds of an expansion behind `n` rounds that found something: what was seen starts with the
base, and is all within `n` dependencies, nearest first; the frontier is what is `n` away. -/
structure Layered (ds : List Dependency) (direction : Direction) (base : List Text) (n : Nat)
    (seen frontier : List Text) : Prop where
  starts : base.eraseDups <+: seen
  nodup : seen.Nodup
  mem_seen : ∀ y, y ∈ seen ↔ Near ds direction base n y
  mem_frontier : ∀ y, y ∈ frontier ↔ Distance ds direction base n y
  ascending : seen.Pairwise fun x y =>
    ∀ j k, Distance ds direction base j x → Distance ds direction base k y → j ≤ k

/-- At first the base has been seen. -/
theorem layered_base :
    Layered ds direction base 0 (firstOccurrences base) (firstOccurrences base) where
  starts := by simp [firstOccurrences_eq_eraseDups]
  nodup := nodup_firstOccurrences
  mem_seen := fun y => by rw [mem_firstOccurrences, near_zero]
  mem_frontier := fun y => by rw [mem_firstOccurrences, distance_zero]
  ascending := by
    -- everything there is no distance away
    refine List.pairwise_of_forall_mem_list fun x hx y _ j k hj _ => ?_
    have := hj.le_of_near (near_zero.mpr (mem_firstOccurrences.mp hx))
    omega

namespace Layered

/-- A round finds what is one further away. -/
theorem mem_discover (h : Layered ds direction base n seen frontier) :
    y ∈ (ofDependencies ds).discover direction seen frontier ↔
      Distance ds direction base (n + 1) y := by
  rw [Graph.mem_discover, distance_succ, h.mem_seen]
  simp only [h.mem_frontier]

theorem next (h : Layered ds direction base n seen frontier) :
    Layered ds direction base (n + 1)
      (seen ++ (ofDependencies ds).discover direction seen frontier)
      ((ofDependencies ds).discover direction seen frontier) where
  starts := h.starts.trans (List.prefix_append _ _)
  nodup := by
    refine List.nodup_append.mpr ⟨h.nodup, nodup_firstOccurrences, ?_⟩
    rintro y hy _ hfound rfl
    exact (Graph.mem_discover.mp hfound).1 hy
  mem_seen := by
    intro y
    rw [List.mem_append, h.mem_discover, h.mem_seen]
    constructor
    · rintro (hnear | hdistance)
      · exact hnear.mono (Nat.le_succ n)
      · exact hdistance.near
    · intro hnear
      -- within one step more is within the steps before, or at exactly this distance
      obtain ⟨k, hk, hdistance⟩ := hnear.exists_distance
      by_cases hle : k ≤ n
      · exact .inl (hdistance.near.mono hle)
      · obtain rfl : k = n + 1 := by omega
        exact .inr hdistance
  mem_frontier := fun _ => h.mem_discover
  ascending := by
    -- all that is found now lies at one distance, which is more than any before
    refine List.pairwise_append.mpr ⟨h.ascending, ?_, ?_⟩
    · refine List.pairwise_of_forall_mem_list fun x hx y hy j k hj hk => ?_
      have hx' := hj.le_of_near (h.mem_discover.mp hx).near
      have hy' := (h.mem_discover.mp hy).le_of_near hk.near
      omega
    · intro x hx y hy j k hj hk
      have hx' := hj.le_of_near ((h.mem_seen x).mp hx)
      have hy' := (h.mem_discover.mp hy).le_of_near hk.near
      omega

end Layered

/-- Behind the last round the issues seen are layered, by one layer for each round that found
something. Another round would find what is one further away; if fewer rounds than allowed found
something, that is nothing. -/
structure Explored (ds : List Dependency) (direction : Direction) (base : List Text)
    (start allowed : Nat) (seen last : List Text) (levels : Nat) : Prop where
  le_allowed : levels ≤ allowed
  layered : ∃ frontier, Layered ds direction base (start + levels) seen frontier ∧
    (frontier = [] → levels = 0)
  gap : levels < allowed → ∀ y, ¬ Distance ds direction base (start + levels + 1) y
  mem_discover : ∀ y, y ∈ (ofDependencies ds).discover direction seen last ↔
    Distance ds direction base (start + levels + 1) y

/-- A round that finds nothing is the last one. -/
theorem Layered.explored (h : Layered ds direction base n seen frontier)
    (hgap : ∀ y, ¬ Distance ds direction base (n + 1) y) (allowed : Nat) :
    Explored ds direction base n allowed seen [] 0 where
  le_allowed := Nat.zero_le allowed
  layered := ⟨frontier, h, fun _ => rfl⟩
  gap := fun _ => hgap
  mem_discover := fun y => by simp [Graph.mem_discover, hgap y]

theorem Rounds.layered {allowed levels : Nat} {all last : List Text}
    (hrun : Rounds (ofDependencies ds) direction allowed seen frontier all last levels)
    (h : Layered ds direction base n seen frontier) :
    Explored ds direction base n allowed all last levels := by
  induction hrun generalizing n with
  | spent =>
    exact
      { le_allowed := Nat.le_refl 0
        layered := ⟨_, h, fun _ => rfl⟩
        gap := fun hlt => absurd hlt (Nat.lt_irrefl 0)
        mem_discover := fun _ => h.mem_discover }
  | blocked =>
    refine h.explored (fun y hy => ?_) _
    -- without a frontier there is nothing that the next layer could be next to
    obtain ⟨-, x, hx, -⟩ := distance_succ.mp hy
    exact absurd ((h.mem_frontier x).mpr hx) List.not_mem_nil
  | barren _ hnone =>
    refine h.explored (fun y hy => ?_) _
    have hfound := h.mem_discover.mpr hy
    rw [hnone] at hfound
    exact absurd hfound List.not_mem_nil
  | @found allowed levels _ _ _ _ _ hfound _ ih =>
    have hexplored := ih h.next
    obtain ⟨frontier', hlayered, hempty⟩ := hexplored.layered
    have hshift : n + (levels + 1) = n + 1 + levels := by omega
    refine ⟨Nat.succ_le_succ hexplored.le_allowed, ?_, ?_, ?_⟩
    · refine ⟨frontier', hshift ▸ hlayered, fun hnone => ?_⟩
      -- the last layer is not empty: it is this one, or one that a later round found
      obtain rfl := hempty hnone
      obtain ⟨y, hy⟩ := List.exists_mem_of_ne_nil _ hfound
      have hlast := (hlayered.mem_frontier y).mpr (h.mem_discover.mp hy)
      rw [hnone] at hlast
      exact absurd hlast List.not_mem_nil
    · intro hlt
      rw [hshift]
      exact hexplored.gap (Nat.lt_of_succ_lt_succ hlt)
    · rw [hshift]
      exact hexplored.mem_discover

/-- An expansion ends up with what its rounds explored from the base. -/
theorem expand_explored (ds : List Dependency) (base : List Text) (direction : Direction)
    (depth : Depth) :
    let reach := (ofDependencies ds).expand base direction depth
    ∃ last, Explored ds direction base 0 (allowedRounds depth) reach.ids last reach.levels ∧
      (reach.truncated = true ↔ depth = .unlimited ∧
        ∃ y, Distance ds direction base (reach.levels + 1) y) := by
  rcases hrun : (ofDependencies ds).rounds direction (allowedRounds depth) (firstOccurrences base)
      (firstOccurrences base) with ⟨all, last, levels, begun⟩
  have hstart : Layered ds direction base 0 (firstOccurrences base) (firstOccurrences base) :=
    layered_base
  have hexplored := (rounds_of_eq hrun).layered hstart
  refine ⟨last, ?_, ?_⟩
  · simpa [expand, hrun] using hexplored
  · have hmore : (ofDependencies ds).discover direction all last ≠ [] ↔
        ∃ y, Distance ds direction base (levels + 1) y := by
      rw [Ne, List.eq_nil_iff_forall_not_mem, not_forall_not]
      simp only [hexplored.mem_discover, Nat.zero_add]
    simp [expand, hrun, ← hmore]

/-! ## What an expansion finds -/

namespace Explored

variable {allowed levels : Nat} {last : List Text}

theorem mem_seen (h : Explored ds direction base 0 allowed seen last levels) :
    y ∈ seen ↔ Near ds direction base allowed y := by
  obtain ⟨frontier, hlayered, -⟩ := h.layered
  rw [hlayered.mem_seen, Nat.zero_add]
  constructor
  · exact fun hnear => hnear.mono h.le_allowed
  · intro hnear
    by_cases hlt : levels < allowed
    · exact hnear.of_gap (by simpa using h.gap hlt)
    · exact hnear.mono (by omega)

/-- The number of levels is the greatest distance. -/
theorem levels_greatest (h : Explored ds direction base 0 allowed seen last levels) :
    (∀ y ∈ seen, ∀ k, Distance ds direction base k y → k ≤ levels) ∧
      (seen = [] ∧ levels = 0 ∨ ∃ y ∈ seen, Distance ds direction base levels y) := by
  obtain ⟨frontier, hlayered, hempty⟩ := h.layered
  rw [Nat.zero_add] at hlayered
  refine ⟨fun y hy k hk => hk.le_of_near ((hlayered.mem_seen y).mp hy), ?_⟩
  by_cases hnone : frontier = []
  · obtain rfl := hempty hnone
    refine .inl ⟨List.eq_nil_iff_forall_not_mem.mpr fun y hy => ?_, rfl⟩
    -- no level at all: what was seen is the base, which is the empty frontier
    have hbase := near_zero.mp ((hlayered.mem_seen y).mp hy)
    have := (hlayered.mem_frontier y).mpr (distance_zero.mpr hbase)
    simp [hnone] at this
  · obtain ⟨y, hy⟩ := List.exists_mem_of_ne_nil _ hnone
    have hdistance := (hlayered.mem_frontier y).mp hy
    exact .inr ⟨y, (hlayered.mem_seen y).mpr hdistance.near, hdistance⟩

end Explored

/-- An expansion with a depth finds exactly what some base issue reaches along at most so many
dependencies, each issue once: first the base, then the others, nearest first. Its levels are the
greatest distance that it found, and it leaves nothing out that it was asked for. -/
theorem expand_levels (ds : List Dependency) (base : List Text) (direction : Direction)
    (count : Int) :
    let reach := (ofDependencies ds).expand base direction (.levels count)
    reach.ids.Nodup ∧
    (∀ y, y ∈ reach.ids ↔ Near ds direction base count.toNat y) ∧
    base.eraseDups <+: reach.ids ∧
    (reach.ids.Pairwise fun x y =>
      ∀ j k, Distance ds direction base j x → Distance ds direction base k y → j ≤ k) ∧
    (∀ y ∈ reach.ids, ∀ k, Distance ds direction base k y → k ≤ reach.levels) ∧
    (reach.ids = [] ∧ reach.levels = 0 ∨
      ∃ y ∈ reach.ids, Distance ds direction base reach.levels y) ∧
    reach.truncated = false := by
  obtain ⟨last, hexplored, htruncated⟩ := expand_explored ds base direction (.levels count)
  obtain ⟨frontier, hlayered, -⟩ := hexplored.layered
  obtain ⟨hgreatest, hattained⟩ := hexplored.levels_greatest
  refine ⟨hlayered.nodup, fun y => hexplored.mem_seen, hlayered.starts, hlayered.ascending,
    hgreatest, hattained, ?_⟩
  rw [← Bool.not_eq_true, htruncated]
  exact fun h => nomatch h.1

-- two issues that depend on each other, and a third that depends on both
example :
    let g := ofDependencies [⟨"a", "b", "blocks"⟩, ⟨"b", "a", "blocks"⟩, ⟨"c", "b", "related"⟩,
      ⟨"c", "a", "blocks"⟩]
    g.expand ["b", "b"] .down (.levels 5) = ⟨["b", "a", "c"], false, 1, 2⟩ := by
  decide

/-- An expansion without limit finds exactly what is within a hundred dependencies of the base. It
says so if that is not all, which is so just if something is a hundred and one away; if it says
nothing, it has found all that the base reaches, and what is next to that. -/
theorem expand_unlimited (ds : List Dependency) (base : List Text) (direction : Direction) :
    let g := ofDependencies ds
    let reach := g.expand base direction .unlimited
    (∀ y, y ∈ reach.ids ↔ Near ds direction base 100 y) ∧
    (reach.truncated = true ↔ ∃ y, Reachable ds direction base y ∧ y ∉ reach.ids) ∧
    (reach.truncated = true ↔ ∃ y, Distance ds direction base 101 y) ∧
    (reach.truncated = false →
      (∀ y, y ∈ reach.ids ↔ Reachable ds direction base y) ∧
      ∀ x ∈ reach.ids, ∀ y ∈ g.neighbours direction x, y ∈ reach.ids) := by
  dsimp only
  obtain ⟨last, hexplored, htruncated⟩ := expand_explored ds base direction .unlimited
  generalize (ofDependencies ds).expand base direction .unlimited = reach at hexplored htruncated ⊢
  have hids : ∀ y, y ∈ reach.ids ↔ Near ds direction base 100 y := fun y => hexplored.mem_seen
  -- a hundred levels, or a gap behind fewer of them
  have hdistance : reach.truncated = true ↔ ∃ y, Distance ds direction base 101 y := by
    rw [htruncated]
    have hle : reach.levels ≤ 100 := hexplored.le_allowed
    by_cases hlt : reach.levels < 100
    · have hgap : ∀ y, ¬ Distance ds direction base (reach.levels + 1) y := by
        simpa using hexplored.gap hlt
      constructor
      · rintro ⟨-, y, hy⟩
        exact absurd hy (hgap y)
      · rintro ⟨y, hy⟩
        have := hy.le_of_near (hy.near.of_gap hgap)
        omega
    · obtain heq : reach.levels = 100 := by omega
      simp [heq]
  have hreaches : ∀ y, y ∈ reach.ids → Reachable ds direction base y :=
    fun y hy => reachable_iff_near.mpr ⟨100, (hids y).mp hy⟩
  have hcomplete : reach.truncated = false →
      ∀ y, Reachable ds direction base y → y ∈ reach.ids := by
    intro hall y hy
    obtain ⟨n, hn⟩ := reachable_iff_near.mp hy
    refine (hids y).mpr (hn.of_gap fun z hz => ?_)
    rw [hdistance.mpr ⟨z, hz⟩] at hall
    cases hall
  refine ⟨hids, ?_, hdistance, fun hall => ⟨fun y => ⟨hreaches y, hcomplete hall y⟩, ?_⟩⟩
  · constructor
    · intro hmore
      obtain ⟨y, hy⟩ := hdistance.mp hmore
      refine ⟨y, reachable_iff_near.mpr ⟨101, hy.near⟩, fun hmem => ?_⟩
      have := hy.le_of_near ((hids y).mp hmem)
      omega
    · rintro ⟨y, hy, hmissing⟩
      by_contra hall
      exact hmissing (hcomplete (by simpa using hall) y hy)
  · intro x hx y hy
    obtain ⟨b, hb, hpath⟩ := hreaches x hx
    exact hcomplete hall y ⟨b, hb, hpath.tail (mem_neighbours.mp hy)⟩

end Graph

end IssueQuery
