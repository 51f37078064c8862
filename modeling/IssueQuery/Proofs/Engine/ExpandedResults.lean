import IssueQuery.Proofs.Engine.Ledger
import IssueQuery.Proofs.Engine.Settling
import IssueQuery.Proofs.Engine.Tables
import IssueQuery.Proofs.Graph.Expansion

/-!
# Results of expanding queries

An expansion starts from the base and finds the other issues nearest first. The store is asked for
just these, if there are any, and what it gives is put in the order in which it was found. So no issue
is told twice, even if the store has lost some meanwhile and gives the others in any order.

* `Graph.besides`   what an expansion finds besides its base;
* `map_id_sorted`   rows put in the order in which their issues were found;
* `Expanded`        what is told of the base and of the rows for what was found;
* `Asked`           what was asked of the store for that;
* `expanded_results` what the calls of expanding queries get.
-/

namespace IssueQuery

namespace Graph

variable {base ids : List Text}

/-- The issues that an expansion finds besides its base, in the order in which they are found. -/
def besides (g : Graph) (base : List Text) (e : Expansion) : List Text :=
  (g.expand base e.direction e.depth).ids.filter (· ∉ base)

theorem drop_length_eq_filter (hstarts : base <+: ids) (hnodup : ids.Nodup) :
    ids.drop base.length = ids.filter (· ∉ base) := by
  obtain ⟨rest, rfl⟩ := hstarts
  have hbase : base.filter (· ∉ base) = [] := by simp
  have hrest : rest.filter (· ∉ base) = rest := by
    rw [List.filter_eq_self]
    intro id hid
    have hother : id ∉ base := fun hmem => (List.nodup_append.mp hnodup).2.2 id hmem id hid rfl
    simpa using hother
  rw [List.drop_left, List.filter_append, hbase, hrest, List.nil_append]

/-- What is behind the base in the reach is what was found besides the base. -/
theorem drop_expand (ds : List Dependency) (hbase : base.Nodup) (e : Expansion) :
    ((ofDependencies ds).expand base e.direction e.depth).ids.drop base.length =
        (ofDependencies ds).besides base e ∧
      ((ofDependencies ds).besides base e).Nodup := by
  obtain ⟨last, hexplored, -⟩ := expand_explored ds base e.direction e.depth
  obtain ⟨frontier, hlayered, -⟩ := hexplored.layered
  have hstarts := hlayered.starts
  rw [← firstOccurrences_eq_eraseDups, firstOccurrences_of_nodup hbase] at hstarts
  exact ⟨drop_length_eq_filter hstarts hlayered.nodup, hlayered.nodup.filter _⟩

/-- Nothing is found from nothing. -/
theorem expand_nil (g : Graph) (direction : Direction) (depth : Depth) :
    g.expand [] direction depth = ⟨[], false, 0, 0⟩ := by
  cases hrounds : allowedRounds depth <;>
    simp [expand, hrounds, firstOccurrences, rounds, discover]

theorem besides_nil (g : Graph) (e : Expansion) : g.besides [] e = [] := by
  rw [besides, expand_nil]
  rfl

theorem not_mem_of_besides {g : Graph} {e : Expansion} {id : Text} (h : id ∈ g.besides base e) :
    id ∉ base :=
  of_decide_eq_true (List.mem_filter.mp h).2

end Graph

namespace Engine

variable {cfg : Settings} {store : Store} {draws : Draws} {q : Query} {e : Expansion}
  {graph : Graph} {base delta extra : List Issue} {found : List Text} {out : Outcome} {n : Nat}
  {entries : List (StoreCall × Nat)}

/-! ## The order of what was found -/

theorem rank_of_mem {id : Text} (hid : id ∈ found) : rank found id = found.idxOf id :=
  if_pos (List.contains_iff_mem.mpr hid)

/-- Issues that are different and were all found are put in the order in which they were found. -/
theorem map_id_sorted (hfound : found.Nodup) (hextra : (extra.map Issue.id).Nodup)
    (hmem : ∀ issue ∈ extra, issue.id ∈ found) :
    (extra.mergeSort fun a b => rank found a.id ≤ rank found b.id).map Issue.id =
      found.filter (· ∈ extra.map Issue.id) := by
  have hids : ∀ id ∈ extra.map Issue.id, id ∈ found := List.forall_mem_map.mpr hmem
  -- both sides are in the order of the places in `found`, and have the same members
  have hperm := (List.mergeSort_perm extra fun a b => rank found a.id ≤ rank found b.id).map
    Issue.id
  have hsorted : ((extra.mergeSort fun a b => rank found a.id ≤ rank found b.id).map
      Issue.id).Pairwise fun id id' => rank found id ≤ rank found id' := by
    rw [List.pairwise_map]
    refine (List.pairwise_mergeSort (fun a b c hab hbc => ?_) (fun a b => ?_) extra).imp
      of_decide_eq_true
    · exact decide_eq_true (Nat.le_trans (of_decide_eq_true hab) (of_decide_eq_true hbc))
    · simpa using Nat.le_total (rank found a.id) (rank found b.id)
  have hfiltered : (found.filter (· ∈ extra.map Issue.id)).Pairwise
      fun id id' => rank found id ≤ rank found id' := by
    refine List.Pairwise.filter _ (List.pairwise_iff_getElem.mpr fun j k hj hk hjk => ?_)
    rw [rank_of_mem (List.getElem_mem hj), rank_of_mem (List.getElem_mem hk),
      hfound.idxOf_getElem, hfound.idxOf_getElem]
    exact Nat.le_of_lt hjk
  have hsame : (extra.map Issue.id).Perm (found.filter (· ∈ extra.map Issue.id)) := by
    rw [List.perm_ext_iff_of_nodup hextra (hfound.filter _)]
    intro id
    rw [List.mem_filter, decide_eq_true_iff]
    exact ⟨fun hid => ⟨hids id hid, hid⟩, And.right⟩
  -- the places in the order tell the issues apart
  refine List.Perm.eq_of_pairwise (fun id id' hid hid' hle hge => ?_) hsorted hfiltered
    (hperm.trans hsame)
  have hid := hids id (hperm.mem_iff.mp hid)
  rw [rank_of_mem hid, rank_of_mem (List.mem_filter.mp hid').1] at hle hge
  exact (List.idxOf_inj hid).mp (Nat.le_antisymm hle hge)

/-! ## What is told and what was asked -/

/-- What the store gives for identifiers are issues of these identifiers. -/
def OnlySought (store : Store) : Prop :=
  ∀ k ids found, ids ≠ [] → (given store k).Reads (.withIds ids) Issue.ofRow found →
    ∀ issue ∈ found, issue.id ∈ ids

/-- The outcome tells of the base and then of the rows for what the expansion along a graph found, in
the order in which it was found. -/
structure Expanded (e : Expansion) (graph : Graph) (base delta : List Issue) (out : Outcome) :
    Prop where
  issues : ∃ extra, out.issues.map Issue.bare = base ++ extra ∧ extra.Perm delta ∧
    extra.map Issue.id = (graph.besides (base.map Issue.id) e).filter (· ∈ delta.map Issue.id)
  nodup : (out.issues.map Issue.id).Nodup
  report :
    let reach := graph.expand (base.map Issue.id) e.direction e.depth
    out.expansion = some ⟨e.direction, e.depth, base.length, delta.length, reach.levels,
      reach.truncated⟩
  total : base.length + delta.length = out.issues.length
  le_found : delta.length ≤ (graph.besides (base.map Issue.id) e).length
  empty : base = [] → out = ⟨[], some (emptyReport e 0)⟩

/-- What was asked for a load of an expanding query, each statement with its number: first for the
base, then maybe for the graph, and right behind each other for what the expansion found, if it found
anything. The values of that statement are the identifiers in the order in which they were found. -/
def Asked (store : Store) (q : Query) (e : Expansion) (graph : Graph) (base delta : List Issue)
    (entries : List (StoreCall × Nat)) : Prop :=
  let found := graph.besides (base.map Issue.id) e
  ∃ selection own n k, q.select = .ok selection ∧
    (own = [] ∨ base ≠ [] ∧ own = [Statement.allDependencies]) ∧
    (given store n).Reads (.selected selection) Issue.ofRow base ∧
    (Statement.withIds found).params = found.map .text ∧
    (if found = [] then delta = []
      else (given store k).Reads (.withIds found) Issue.ofRow delta) ∧
    entries = ((batchStatements (.selected selection) (base.map Issue.id) ++ own).map
        ranEntry).zipIdx n ++
      if found = [] then []
      else ((batchStatements (.withIds found) (delta.map Issue.id)).map ranEntry).zipIdx k

/-- All else follows from what the issues and the report are. -/
theorem expanded_of_issues (hbase : (base.map Issue.id).Nodup)
    (hfound : (graph.besides (base.map Issue.id) e).Nodup)
    (hissues : out.issues.map Issue.bare = base ++ extra) (hperm : extra.Perm delta)
    (hids : extra.map Issue.id =
      (graph.besides (base.map Issue.id) e).filter (· ∈ delta.map Issue.id))
    (hreport : let reach := graph.expand (base.map Issue.id) e.direction e.depth
      out.expansion = some ⟨e.direction, e.depth, base.length, delta.length, reach.levels,
        reach.truncated⟩)
    (hempty : base = [] → out = ⟨[], some (emptyReport e 0)⟩) :
    Expanded e graph base delta out where
  issues := ⟨extra, hissues, hperm, hids⟩
  nodup := by
    rw [← Issue.map_id_bare, hissues, List.map_append, hids]
    -- what an expansion finds lies besides the base, so nothing occurs twice
    refine List.nodup_append.mpr ⟨hbase, hfound.filter _, ?_⟩
    rintro id hid _ hother rfl
    exact Graph.not_mem_of_besides (List.mem_filter.mp hother).1 hid
  report := hreport
  total := by
    have hlength := congrArg List.length hissues
    rw [List.length_map, List.length_append, hperm.length_eq] at hlength
    exact hlength.symm
  le_found := by
    have hlength := congrArg List.length hids
    rw [List.length_map, hperm.length_eq] at hlength
    exact hlength ▸ List.length_filter_le _ _
  empty := hempty

/-- An expansion along a graph tells of what it found, and asks for it. -/
theorem Widened.expanded {ds : List Dependency} {issues : List Issue} {statements : List Statement}
    (h : Widened store issues e (.ofDependencies ds) n statements out) (hkeyed : Keyed store)
    (hsought : OnlySought store) (hissues : (issues.map Issue.id).Nodup) (hsome : issues ≠ []) :
    let graph := Graph.ofDependencies ds
    let base := issues.map Issue.bare
    let found := graph.besides (issues.map Issue.id) e
    ∃ delta, Expanded e graph base delta out ∧
      (found = [] ∧ delta = [] ∧ statements = [] ∨
        found ≠ [] ∧ (given store n).Reads (.withIds found) Issue.ofRow delta ∧
          statements = batchStatements (.withIds found) (delta.map Issue.id)) := by
  intro graph base found
  have hbaseids : base.map Issue.id = issues.map Issue.id := Issue.map_id_bare issues
  have hempty {out : Outcome} : base = [] → out = ⟨[], some (emptyReport e 0)⟩ := fun hnil =>
    absurd (List.map_eq_nil_iff.mp hnil) hsome
  -- a base without repetitions is all that stands in front of what was found
  obtain ⟨hdrop, hnodup⟩ := Graph.drop_expand ds hissues e
  rw [List.length_map] at hdrop
  have hbase : base.length = issues.length := List.length_map _
  obtain ⟨hnone, rfl, rfl⟩ | ⟨hfound, extra, ⟨hreads, rfl⟩, rfl⟩ := h
  · refine ⟨[], ?_, .inl ⟨hdrop.symm.trans hnone, rfl, rfl⟩⟩
    refine expanded_of_issues (hbaseids ▸ hissues) (hbaseids ▸ hnodup)
      (List.append_nil _).symm .rfl ?_ ?_ hempty
    · simp
    · rw [hbaseids, hbase]
      rfl
  · rw [hdrop] at hfound hreads
    have hextra : (extra.map Issue.id).Nodup :=
      Issue.map_id_bare extra ▸ hkeyed.withIds n _ _ hfound hreads
    have hmem : ∀ issue ∈ extra, issue.id ∈ found := fun issue hissue =>
      hsought n _ _ hfound hreads issue.bare (List.mem_map_of_mem hissue)
    refine ⟨extra.map Issue.bare, ?_, .inr ⟨hfound, hreads, by rw [hdrop, Issue.map_id_bare]⟩⟩
    rw [hdrop]
    refine expanded_of_issues (hbaseids ▸ hissues) (hbaseids ▸ hnodup) List.map_append
      ((List.mergeSort_perm extra _).map _) ?_ ?_ hempty
    · rw [Issue.map_id_bare, Issue.map_id_bare, hbaseids]
      exact map_id_sorted hnodup hextra hmem
    · rw [hbaseids, hbase, List.length_map, ← (List.mergeSort_perm extra _).length_eq]
      rfl

/-- Whatever an outcome is accounted for by tells the base and what was found. -/
theorem Account.expanded (h : Account store draws q e out entries) (hkeyed : Keyed store)
    (hsought : OnlySought store) :
    ∃ graph base delta, (base ≠ [] → draws.GivesGraph graph) ∧ Expanded e graph base delta out ∧
      Asked store q e graph base delta entries := by
  cases h with
  | @empty n statements hbegun hout =>
    obtain ⟨selection, own, hselect, hown, rfl, hreads⟩ := hbegun
    subst hout
    -- no graph was needed, so any will do
    have hnone := Graph.besides_nil (.ofDependencies []) e
    refine ⟨.ofDependencies [], [], [], fun hne => absurd rfl hne, ?_,
      selection, own, n, n, hselect, hown, hreads, rfl, ?_, ?_⟩
    · refine expanded_of_issues List.nodup_nil (hnone ▸ List.nodup_nil) rfl .rfl ?_ ?_
        fun _ => rfl
      · simp
      · simp only [List.map_nil, Graph.expand_nil]
        rfl
    · exact if_pos hnone ▸ rfl
    · rw [List.map_nil, if_pos hnone, List.append_nil]
  | @widened issues graph n k first more hsome hbegun hgraph hwidened =>
    obtain ⟨selection, own, hselect, hown, rfl, hreads⟩ := hbegun
    have hissues : (issues.map Issue.id).Nodup :=
      Issue.map_id_bare issues ▸ hkeyed.selected n selection _ hreads
    obtain ⟨ds, hds, rfl⟩ := hgraph
    obtain ⟨delta, hexpanded, hdelta⟩ := hwidened.expanded hkeyed hsought hissues hsome
    refine ⟨.ofDependencies ds, issues.map Issue.bare, delta, fun _ => ⟨ds, hds, rfl⟩, hexpanded,
      selection, own, n, k, hselect, ?_, hreads, rfl, ?_⟩
    · exact hown.imp_right (And.imp_left fun hne hnil => hne (List.map_eq_nil_iff.mp hnil))
    · rw [Issue.map_id_bare]
      obtain ⟨hnone, rfl, rfl⟩ | ⟨hfound, hread, rfl⟩ := hdelta
      · rw [if_pos hnone, if_pos hnone]
        exact ⟨rfl, rfl⟩
      · rw [if_neg hfound, if_neg hfound]
        exact ⟨hread, rfl⟩

/-! ## What calls of expanding queries get -/

/-- Calls of expanding queries get what their expansions found. The store has a key, gives for
identifiers only issues of these, and does not fail; whatever happens to the engine, its journal falls
into the ledgers of its loads.

Such a call gets a result unless its signal aborts. The result tells of the base in the order of the
store, and then of the rows for what the expansion found in the order in which it was found, no issue
twice; its report has the counts, and the levels and the cut of the expansion. It comes from a load
for which the base was asked, then the graph at most, and then what was found besides the base, with
these identifiers as values in this order, if there was any. Without a base there is nothing in the
report, and neither the graph nor anything else was asked for. -/
theorem expanded_results (cfg : Settings) (store : Store) (hstore : Unfailing store)
    (hkeyed : Keyed store) (hsought : OnlySought store) (now : Time)
    (ttl interval ttl' interval' : Option Time) (events : List Event) :
    let s₀ := State.new now (.new now ttl interval) (.new now ttl' interval')
    let s := run cfg store s₀ events
    (∀ (n : Nat) (entry : StoreCall), s.journal[n]? = some entry ↔
      ∃! load, (entry, n) ∈ ledger cfg store load s₀ events) ∧
    ∀ (i : Nat) (c : Call) (q : Query) (e : Expansion), s.calls[i]? = some c →
      readQuery c.text = .ok q → q.expansion = some e →
      (∃ n, ∀ k, n ≤ k → (ticks cfg store k s).reason? c.signal = none →
        ∃ result, (ticks cfg store k s).result? i = some (.ok result)) ∧
      (∀ rejection, s.result? i = some (.error rejection) → s.reason? c.signal ≠ none) ∧
      ∀ result, s.result? i = some (.ok result) → ∃ graph base delta load,
        (base ≠ [] → (s.drawn store 0).GivesGraph graph) ∧
        Expanded e graph base delta result.outcome ∧
        Asked store q e graph base delta (ledger cfg store load s₀ events) := by
  intro s₀ s
  have hsound : Sound cfg store _ s₀ := sound_new now ttl interval ttl' interval'
  obtain ⟨hsound', -⟩ := hsound.run events
  refine ⟨fun n entry => hsound.traced.mem_journal_iff (Nat.zero_le n), ?_⟩
  intro i c q e hc hquery he
  have hresult : s.result? i = c.settled := by rw [State.result?, hc, Option.bind_some]
  rw [hresult]
  refine ⟨hsound'.exists_ok hstore hc hquery, fun rejection hrejection => ?_, ?_⟩
  · -- the text is a query and the store does not fail, so only an abort is left as the cause
    obtain ⟨failure, hfailed⟩ | haborted := hsound'.fair hstore i c hc rejection hrejection
    · cases hquery.symm.trans hfailed
    · exact haborted
  · intro result hsettled
    obtain ⟨load, haccount⟩ := exists_account hstore now ttl interval ttl' interval' events i c
      result hc hsettled q e hquery he
    obtain ⟨graph, base, delta, hgraph, hexpanded, hasked⟩ := haccount.expanded hkeyed hsought
    exact ⟨graph, base, delta, load, hgraph, hexpanded, hasked⟩

/-- An issue that depends on two others, of which the first one has been lost. -/
def halfLost : Store := tableStore ["a", "b"] [⟨"a", "c", "blocks"⟩, ⟨"a", "b", "blocks"⟩]

/-- Two issues are found, and the store gives the second one. -/
def halfFound : State :=
  run ⟨5, false, default⟩ halfLost (.initial 0)
    (.call "id=a expand up" none :: List.replicate 12 .tick)

/-- The issue that is still there is told behind the base. -/
theorem expanded_results_halfFound :
    Unfailing halfLost ∧ Keyed halfLost ∧ OnlySought halfLost ∧
    ∃ q e result, readQuery "id=a expand up" = .ok q ∧ q.expansion = some e ∧
      halfFound.result? 0 = some (.ok result) ∧
      result.outcome.issues.map Issue.title = ["a", "b"] ∧
      ∃ graph base delta load, (base ≠ [] → (halfFound.drawn halfLost 0).GivesGraph graph) ∧
        Expanded e graph base delta result.outcome ∧
        Asked halfLost q e graph base delta (ledger ⟨5, false, default⟩ halfLost load (.initial 0)
          (.call "id=a expand up" none :: List.replicate 12 .tick)) := by
  have hrun : halfFound.titles? 0 = some (["a", "b"] : List Text) ∧
      halfFound.calls.map Call.text = ["id=a expand up"] := by decide +kernel
  have hexpanding : Expanding "id=a expand up" := by decide +kernel
  have hstore : Unfailing halfLost := unfailing_tableStore _ _
  have hkeyed : Keyed halfLost := keyed_tableStore (by decide)
  have hsought : OnlySought halfLost := fun _ _ _ hne h => mem_of_reads_tableStore hne h
  obtain ⟨htitles, htexts⟩ := hrun
  obtain ⟨c, result, hc, hsettled, htitles⟩ := exists_of_titles? htitles
  obtain ⟨q, hquery, hsome⟩ := hexpanding
  obtain ⟨e, he⟩ := Option.isSome_iff_exists.mp hsome
  have htext : c.text = "id=a expand up" := by
    have hmapped := congrArg (·[0]?) htexts
    simpa [hc] using hmapped
  have hresult : halfFound.result? 0 = some (.ok result) := by
    rw [State.result?, hc]
    exact hsettled
  obtain ⟨-, hcalls⟩ := expanded_results ⟨5, false, default⟩ halfLost hstore hkeyed hsought 0 none
    none none none (.call "id=a expand up" none :: List.replicate 12 .tick)
  obtain ⟨-, -, hresults⟩ := hcalls 0 c q e hc (htext ▸ hquery) he
  exact ⟨hstore, hkeyed, hsought, q, e, result, hquery, he, hresult, htitles,
    hresults result hresult⟩

end Engine

end IssueQuery
