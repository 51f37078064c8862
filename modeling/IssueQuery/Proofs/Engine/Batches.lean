import IssueQuery.Proofs.Engine.Tables
import IssueQuery.Proofs.Graph.Expansion
import IssueQuery.Proofs.Issue.Relationships

/-!
# Results are made of batches

The issues that one statement gives are fetched together with what belongs to them, and all of them
show the same dependencies. A result is made of one or two of these batches.

* `Draws.Together`          a batch of issues, with the dependencies that they show;
* `Draws.Gives.batches`     the batches of a result.
-/

namespace IssueQuery.Engine

variable {store : Store} {s : State} {draws : Draws} {statement : Statement}
  {issues : List Issue} {q : Query} {outcome : Outcome}

/-! ## The issues of rows -/

/-- Every item is read off one of the rows. -/
theorem exists_of_mem_readRows {α : Type} {read : Option Json → RowReading α} {rows : List Json}
    {items : List α} (h : readRows read rows = .ok items) :
    ∀ item ∈ items, ∃ row ∈ rows, read (some row) = .ok item := by
  have hrows : (rows.mapM fun row => read (some row)) = .ok items := by
    cases hfound : rows.mapM fun row => read (some row) with
    | error faults => simp [readRows, hfound, Except.mapError] at h
    | ok found =>
      rw [readRows, hfound] at h
      exact congrArg Except.ok (Except.ok.inj h)
  -- the induction is on the rows, each read apart from the others
  clear h
  induction rows generalizing items with
  | nil =>
    obtain rfl := Except.ok.inj hrows
    simp
  | cons row rows ih =>
    rw [List.mapM_cons] at hrows
    cases hfirst : read (some row) with
    | error faults => simp [hfirst, bind, Except.bind] at hrows
    | ok first =>
      cases hrest : rows.mapM fun row => read (some row) with
      | error faults => simp [hfirst, hrest, bind, Except.bind] at hrows
      | ok rest =>
        rw [hfirst, hrest] at hrows
        obtain rfl := Except.ok.inj hrows
        intro item hitem
        obtain rfl | hitem := List.mem_cons.mp hitem
        · exact ⟨row, List.mem_cons_self, hfirst⟩
        · obtain ⟨row', hrow', hread⟩ := ih hrest item hitem
          exact ⟨row', List.mem_cons_of_mem _ hrow', hread⟩

/-- Rows are read as issues with nothing that belongs to them. -/
theorem Draws.Reads.bare (h : draws.Reads statement Issue.ofRow issues) :
    ∀ issue ∈ issues, issue.bare = issue := by
  intro issue hissue
  obtain ⟨rows, -, hread⟩ := h
  obtain ⟨row, -, hrow⟩ := exists_of_mem_readRows hread issue hissue
  exact Issue.bare_of_ofRow issue hrow

/-! ## Batches -/

/-- The issues were fetched together, with dependencies that all of them show. -/
def Draws.Together (draws : Draws) (issues : List Issue) : Prop :=
  issues = [] ∨ ∃ ids ds, ids.Perm (issues.map Issue.id) ∧
    draws.Reads (.dependencies ids) Dependency.ofRow ds ∧ ∀ issue ∈ issues, issue.Shows ds

theorem Draws.Together.perm {issues' : List Issue} (h : draws.Together issues)
    (hperm : issues.Perm issues') : draws.Together issues' := by
  obtain rfl | ⟨ids, ds, hids, hreads, hshows⟩ := h
  · exact .inl (List.nil_perm.mp hperm)
  · exact .inr ⟨ids, ds, hids.trans (hperm.map _), hreads,
      fun issue hissue => hshows issue (hperm.mem_iff.mpr hissue)⟩

/-- Issues that are fetched by one statement are a batch. -/
theorem Draws.Fetches.together (h : draws.Fetches statement issues)
    (hkey : ∀ found, draws.Reads statement Issue.ofRow found → (found.map Issue.id).Nodup) :
    draws.Together issues := by
  obtain ⟨found, hfound, ⟨-, hnone⟩ | ⟨-, ds, hds, labels, -, counts, -, hissues⟩⟩ := h
  · exact .inl hnone
  · have hkeyed := hkey found hfound
    have hbare := hfound.bare
    have hids : issues.map Issue.id = found.map Issue.id := by
      rw [← Issue.map_bare_attached hbare ds labels counts, ← hissues, List.map_map]
      rfl
    rw [firstOccurrences_of_nodup hkeyed, ← hids] at hds
    exact .inr ⟨_, ds, .refl _, hds, hissues ▸ Issue.shows_attached hbare hkeyed ds labels counts⟩

/-- A result is made of the issues that its query selects, and maybe of those of some identifiers,
rearranged. -/
theorem Draws.Gives.issues_eq (h : draws.Gives q outcome) :
    ∃ base extra, outcome.issues = base ++ extra ∧ draws.Selects q base ∧
      (extra = [] ∨ ∃ ids more, ids ≠ [] ∧ draws.Fetches (.withIds ids) more ∧
        more.Perm extra) := by
  obtain ⟨base, hbase, h⟩ := h
  cases he : q.expansion with
  | none =>
    rw [he] at h
    exact ⟨base, [], by rw [h, List.append_nil], hbase, .inl rfl⟩
  | some e =>
    rw [he] at h
    obtain ⟨rfl, houtcome⟩ | ⟨-, graph, -, ⟨-, houtcome⟩ | ⟨hne, more, hmore, houtcome⟩⟩ := h
    · exact ⟨[], [], by rw [houtcome]; rfl, hbase, .inl rfl⟩
    · exact ⟨base, [], by rw [houtcome, List.append_nil], hbase, .inl rfl⟩
    · exact ⟨base, _, by rw [houtcome], hbase, .inr ⟨_, more, hne, hmore,
        (List.mergeSort_perm more _).symm⟩⟩

/-- A result over a store with a key is made of two batches. -/
theorem Draws.Gives.batches (hkeyed : Keyed store) {n : Nat}
    (h : (s.drawn store n).Gives q outcome) :
    ∃ base extra, outcome.issues = base ++ extra ∧ (s.drawn store n).Together base ∧
      (s.drawn store n).Together extra := by
  obtain ⟨base, extra, hissues, ⟨selection, -, hbase⟩, hextra⟩ := h.issues_eq
  refine ⟨base, extra, hissues, hbase.together fun found hfound => ?_, ?_⟩
  · obtain ⟨k, hk⟩ := hfound.given
    exact hkeyed.selected k selection found hk
  · obtain rfl | ⟨ids, more, hne, hmore, hperm⟩ := hextra
    · exact .inl rfl
    · refine (hmore.together fun found hfound => ?_).perm hperm
      obtain ⟨k, hk⟩ := hfound.given
      exact hkeyed.withIds k ids found hne hk

/-- Every issue of a batch was among those for which dependencies were asked. -/
theorem Draws.Together.shown (h : draws.Together issues) :
    ∀ issue ∈ issues, ∃ ids ds, issue.id ∈ ids ∧
      draws.Reads (.dependencies ids) Dependency.ofRow ds ∧ issue.Shows ds := by
  intro issue hissue
  obtain rfl | ⟨ids, ds, hids, hreads, hshows⟩ := h
  · exact nomatch hissue
  · exact ⟨ids, ds, hids.mem_iff.mpr (List.mem_map_of_mem hissue), hreads, hshows issue hissue⟩

/-- The result of a call comes from rows that the store has given to the engine. -/
theorem Reachable.gives {cfg : Settings} (hs : Reachable cfg store s) {i : Nat} {result : Result}
    (hresult : s.result? i = some (.ok result)) :
    ∃ c q, s.calls[i]? = some c ∧ result.text = c.text ∧ readQuery c.text = .ok q ∧
      (s.drawn store 0).Gives q result.outcome := by
  obtain ⟨now, ttl, interval, ttl', interval', events, rfl⟩ := hs
  obtain ⟨c, hc, hsettled⟩ := Option.bind_eq_some_iff.mp hresult
  have htraced : Traced store _ _ := traced_new now ttl interval ttl' interval' fun _ => True
  obtain ⟨htext, q, hquery, hgives⟩ :=
    (htraced.run events).gives_of_settled (Nat.zero_le i) hc hsettled
  exact ⟨c, q, hc, htext, hquery, hgives trivial⟩

end IssueQuery.Engine
