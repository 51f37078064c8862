import IssueQuery.Proofs.Graph.Expansion

/-!
# Expansions compose in their depths

An expansion that starts from the result of another one looks at all of it again, and not only at
what was found last. That makes no difference, not even to the order: whatever is next to the issues
found earlier was seen by then, so the first round finds the same as the next round of the first
expansion would have found. If the first expansion stopped before its depth, there was nothing more
to find, and the second one finds nothing.

* `Spread`           what a round leaves behind it, over any graph;
* `rounds_add`       rounds may be counted in two parts;
* `Spread.restart`   starting again from all that was seen;
* `expand_composes`  the depths of two expansions in a row add up.
-/

namespace IssueQuery

namespace Graph

variable {g : Graph} {direction : Direction} {seen frontier all last : List Text} {x y : Text}
  {n m levels begun : Nat}

theorem mem_discover_iff :
    y ∈ g.discover direction seen frontier ↔
      y ∉ seen ∧ ∃ x ∈ frontier, y ∈ g.neighbours direction x := by
  simp only [discover, mem_firstOccurrences, List.mem_filter, List.mem_flatMap,
    List.contains_iff_mem, Bool.not_eq_true', ← Bool.not_eq_true]
  exact and_comm

/-! ## What a round leaves behind -/

/-- No issue was seen twice, what was seen ends with the frontier, and whatever is next to the issues
in front of that was seen. -/
structure Spread (g : Graph) (direction : Direction) (seen frontier : List Text) : Prop where
  nodup : seen.Nodup
  inner : ∃ inner, seen = inner ++ frontier ∧
    ∀ x ∈ inner, ∀ y ∈ g.neighbours direction x, y ∈ seen

/-- At first there is nothing in front of the frontier. -/
theorem spread_start (g : Graph) (direction : Direction) (base : List Text) :
    Spread g direction (firstOccurrences base) (firstOccurrences base) where
  nodup := nodup_firstOccurrences
  inner := ⟨[], rfl, fun _ hx => nomatch hx⟩

namespace Spread

theorem next (h : Spread g direction seen frontier) :
    Spread g direction (seen ++ g.discover direction seen frontier)
      (g.discover direction seen frontier) where
  nodup := by
    refine List.nodup_append.mpr ⟨h.nodup, nodup_firstOccurrences, ?_⟩
    rintro y hy _ hfound rfl
    exact (mem_discover_iff.mp hfound).1 hy
  inner := by
    refine ⟨seen, rfl, fun x hx y hy => ?_⟩
    obtain ⟨inner, hseen, hclosed⟩ := h.inner
    rw [List.mem_append]
    rw [hseen, List.mem_append] at hx
    obtain hinner | hfrontier := hx
    · exact .inl (hclosed x hinner y hy)
    · -- next to the frontier: seen before, or found now
      by_cases hold : y ∈ seen
      · exact .inl hold
      · exact .inr (mem_discover_iff.mpr ⟨hold, x, hfrontier, hy⟩)

/-- If the round finds nothing, then nothing next to what was seen is left. -/
theorem of_discover_nil (h : Spread g direction seen frontier)
    (hnone : g.discover direction seen frontier = []) : Spread g direction seen [] := by
  have hnext := h.next
  rwa [hnone, List.append_nil] at hnext

/-- A round from all that was seen finds the same as one from the frontier, in the same order. -/
theorem discover_all (h : Spread g direction seen frontier) :
    g.discover direction seen seen = g.discover direction seen frontier := by
  obtain ⟨inner, hseen, hclosed⟩ := h.inner
  have hnothing : (inner.flatMap (g.neighbours direction)).filter (fun y => !seen.contains y) =
      [] := by
    rw [List.filter_eq_nil_iff]
    intro y hy
    obtain ⟨x, hx, hy⟩ := List.mem_flatMap.mp hy
    simpa using hclosed x hx y hy
  have hsplit : seen.flatMap (g.neighbours direction) =
      inner.flatMap (g.neighbours direction) ++ frontier.flatMap (g.neighbours direction) := by
    rw [← List.flatMap_append, ← hseen]
  rw [discover, hsplit, List.filter_append, hnothing, List.nil_append]
  rfl

end Spread

/-! ## Rounds in two parts -/

theorem rounds_nil (g : Graph) (direction : Direction) (n : Nat) (seen : List Text) :
    g.rounds direction n seen [] = (seen, [], 0, 0) := by
  cases n <;> rfl

theorem Spread.rounds (h : Spread g direction seen frontier)
    (hrun : g.rounds direction n seen frontier = (all, last, levels, begun)) :
    Spread g direction all last ∧ levels ≤ n ∧ (levels < n → last = []) := by
  have hrounds := rounds_of_eq hrun
  clear hrun
  -- the rounds stop before their number is used up only with nothing left to go on from
  induction hrounds with
  | spent => exact ⟨h, Nat.le_refl 0, fun hlt => absurd hlt (Nat.lt_irrefl 0)⟩
  | blocked => exact ⟨h, Nat.zero_le _, fun _ => rfl⟩
  | barren _ hnone => exact ⟨h.of_discover_nil hnone, Nat.zero_le _, fun _ => rfl⟩
  | found _ _ _ ih =>
    obtain ⟨hspread, hle, hlast⟩ := ih h.next
    exact ⟨hspread, Nat.succ_le_succ hle, fun hlt => hlast (Nat.lt_of_succ_lt_succ hlt)⟩

/-- Rounds may be counted in two parts: the second part goes on where the first one stopped. -/
theorem rounds_add (hrun : g.rounds direction n seen frontier = (all, last, levels, begun)) :
    (g.rounds direction (n + m) seen frontier).1 = (g.rounds direction m all last).1 ∧
      (g.rounds direction (n + m) seen frontier).2.2.1 =
        levels + (g.rounds direction m all last).2.2.1 := by
  have hrounds := rounds_of_eq hrun
  clear hrun
  induction hrounds with
  | spent => simp
  | blocked => simp [rounds_nil]
  | barren hsome hnone =>
    -- nothing is found any more, neither in this part nor in the next one
    rw [Nat.succ_add, rounds, if_neg (by simpa using hsome)]
    simp [hnone, rounds_nil]
  | found hsome hfound _ ih =>
    obtain ⟨hall, hlevels⟩ := ih
    rw [Nat.succ_add, rounds, if_neg (by simpa using hsome)]
    simp only [hfound, List.isEmpty_iff, if_false, hall, hlevels, true_and]
    omega

/-- To start again from all that was seen is to go on from the frontier. -/
theorem Spread.restart (h : Spread g direction seen frontier) (m : Nat) :
    (g.rounds direction m seen seen).1 = (g.rounds direction m seen frontier).1 ∧
      (g.rounds direction m seen seen).2.2.1 = (g.rounds direction m seen frontier).2.2.1 := by
  cases m with
  | zero => exact ⟨rfl, rfl⟩
  | succ m =>
    obtain ⟨inner, hseen, -⟩ := h.inner
    have hsame := h.discover_all
    by_cases hfrontier : frontier = []
    · -- the first round is begun, and finds nothing
      subst hfrontier
      have hnone : g.discover direction seen [] = [] := rfl
      rw [hnone] at hsame
      rw [rounds_nil, Graph.rounds]
      split <;> simp [hsame]
    · have hne : seen ≠ [] := by simp [hseen, hfrontier]
      have hround : g.rounds direction (m + 1) seen seen =
          g.rounds direction (m + 1) seen frontier := by
        simp only [Graph.rounds, hsame, List.isEmpty_iff, hne, hfrontier, if_false]
      rw [hround]
      exact ⟨rfl, rfl⟩

/-- Once nothing next to what was seen is left, every expansion from there stays where it is. -/
theorem Spread.expand_done (h : Spread g direction seen []) (depth : Depth) :
    (g.expand seen direction depth).ids = seen ∧
      (g.expand seen direction depth).levels = 0 ∧
      (g.expand seen direction depth).truncated = false := by
  have hnone : g.discover direction seen seen = [] := h.discover_all
  obtain ⟨hall, hlevels⟩ := h.restart (allowedRounds depth)
  rw [rounds_nil] at hall hlevels
  rcases hrun : g.rounds direction (allowedRounds depth) seen seen with ⟨all, last, levels, begun⟩
  rw [hrun] at hall hlevels
  obtain rfl : all = seen := hall
  obtain rfl : levels = 0 := hlevels
  have hmore : depth = .unlimited → g.discover direction all last = [] := by
    rintro rfl
    -- fewer rounds than allowed found something, so the last one found nothing
    have hstart := spread_start g direction all
    rw [firstOccurrences_of_nodup h.nodup] at hstart
    obtain ⟨-, -, hlast⟩ := hstart.rounds hrun
    rw [hlast (by decide)]
    rfl
  refine ⟨?_, ?_, ?_⟩
  · simp [expand, firstOccurrences_of_nodup h.nodup, hrun]
  · simp [expand, firstOccurrences_of_nodup h.nodup, hrun]
  · simpa [expand, firstOccurrences_of_nodup h.nodup, hrun] using hmore

/-- Expansions compose in their depths, over any graph. To expand a base by `n` levels and what that
gives by `m` more gives the same issues in the same order as to expand the base by `n + m` levels,
and the levels add up. If the first expansion ends before its depth, then no expansion of what it
gave, by whatever depth, adds anything. -/
theorem expand_composes (g : Graph) (base : List Text) (direction : Direction) (n m : Nat) :
    let first := g.expand base direction (.levels n)
    let second := g.expand first.ids direction (.levels m)
    let whole := g.expand base direction (.levels (n + m))
    second.ids = whole.ids ∧
    first.levels + second.levels = whole.levels ∧
    (first.levels < n → ∀ depth,
      let again := g.expand first.ids direction depth
      again.ids = first.ids ∧ again.levels = 0 ∧ again.truncated = false) := by
  have hstart := spread_start g direction base
  rcases hrun : g.rounds direction n (firstOccurrences base) (firstOccurrences base) with
    ⟨all, last, levels, begun⟩
  obtain ⟨hspread, -, hlast⟩ := hstart.rounds hrun
  obtain ⟨hall, hlevels⟩ := rounds_add (m := m) hrun
  obtain ⟨hsame, hcount⟩ := hspread.restart m
  -- the sum of two depths is again a depth, so the whole expansion allows as many rounds
  have hsum : ((n : Int) + m).toNat = n + m := by omega
  have hfirst : g.expand base direction (.levels n) = ⟨all, false, levels, begun⟩ := by
    simp [expand, allowedRounds, hrun]
  dsimp only
  rw [hfirst]
  refine ⟨?_, ?_, fun hlt depth => ?_⟩
  · simp only [expand, allowedRounds, Int.toNat_natCast, hsum, hall,
      firstOccurrences_of_nodup hspread.nodup, hsame]
  · simp only [expand, allowedRounds, Int.toNat_natCast, hsum, hlevels,
      firstOccurrences_of_nodup hspread.nodup, hcount]
  · have hlast := hlast hlt
    subst hlast
    exact hspread.expand_done depth

-- down a chain whose end leads back to its start: two levels and one more, and then no more
example :
    let g := ofDependencies [⟨"b", "a", "blocks"⟩, ⟨"c", "b", "related"⟩, ⟨"d", "c", "blocks"⟩,
      ⟨"a", "d", "blocks"⟩]
    g.expand ["a"] .down (.levels 2) = ⟨["a", "b", "c"], false, 2, 2⟩ ∧
    g.expand ["a", "b", "c"] .down (.levels 1) = ⟨["a", "b", "c", "d"], false, 1, 1⟩ ∧
    g.expand ["a", "b", "c", "d"] .down .unlimited = ⟨["a", "b", "c", "d"], false, 0, 1⟩ := by
  decide

end Graph

end IssueQuery
