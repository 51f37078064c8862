import IssueQuery.Proofs.Engine.Courses
import IssueQuery.Proofs.Engine.ExpandedResults
import IssueQuery.Proofs.Query.Parameters

/-!
# How many statements a load takes

Over a store that does not fail the number of statements does not depend on how many issues there
are. A fetch takes one statement if it finds nothing, and else four, which ask for what belongs to the
issues found; a load takes two fetches and the graph at most. Whatever the number of issues, every
statement has as many values as marks.

* `Statement.Bound`    a statement has a value for each of its marks;
* `WholeFetch`         the statements of a fetch that nothing cuts short;
* `WholeLoad`          the ledger of a load that nothing cuts short;
* `constant_statements` all of it, for every run.
-/

namespace IssueQuery

open Sql (marks)

/-! ## Marks and values -/

/-- The statement has a value for each `?` of its text. -/
def Statement.Bound (statement : Statement) : Prop :=
  marks statement.sql = statement.params.length

namespace Statement

/-- The marks of a fixed text are counted in its characters. -/
theorem marks_fixed {chars : List Char} (h : chars.count '?' = 0) :
    marks (String.ofList chars) = 0 := by
  rw [marks, String.toList_ofList]
  exact h

theorem marks_live {row : String} (hrow : marks row = 0) : marks (live row) = 0 := by
  have hstatus : marks ".status NOT IN ('deleted', 'tombstone') AND " = 0 :=
    marks_fixed rfl
  have hdeleted : marks ".deleted_at IS NULL" = 0 := marks_fixed rfl
  rw [live, Sql.marks_append, Sql.marks_append, Sql.marks_append, hrow, hstatus, hdeleted]

theorem marks_allIssues : marks allIssues = 0 := by
  have hselect : marks "SELECT " = 0 := marks_fixed rfl
  have hcolumns : (Issue.columns.map fun c => "i." ++ c).map marks =
      (Issue.columns.map fun _ => 0) := by
    decide +kernel
  have hfrom : marks " FROM issues i WHERE " = 0 := marks_fixed rfl
  have hlive : marks liveIssue = 0 := marks_live (marks_fixed rfl)
  rw [allIssues, Sql.marks_append, Sql.marks_append, Sql.marks_append, Sql.marks_intercalate,
    hselect, hcolumns, hfrom, hlive, List.map_const', List.sum_replicate_nat, Nat.mul_zero]

/-- Conditions on issues bring the marks of a statement, and the order brings none. -/
theorem bound_issues {condition order : String} {params : List Sql.Param}
    (hcondition : marks condition = params.length) (horder : marks order = 0) :
    (issues condition order params).Bound := by
  have hand : marks " AND " = 0 := marks_fixed rfl
  have hby : marks " ORDER BY " = 0 := marks_fixed rfl
  have hempty : marks "" = 0 := rfl
  unfold Bound issues
  split <;> split <;> simp_all [marks_allIssues]

theorem bound_selected {q : Query} {selection : Selection} (hcheck : q.check = .ok ())
    (hselect : q.select = .ok selection) : (selected selection).Bound := by
  obtain ⟨hleaves, horder⟩ := Query.of_check hcheck
  obtain ⟨terms, hterms⟩ := exists_sortTerms horder
  obtain ⟨c, hc, htext, -⟩ := Query.exists_condition hleaves
  obtain rfl : (⟨c, terms⟩ : Selection) = selection := by
    simpa [Query.select, hc, hterms, bind, Except.bind, pure, Except.pure] using hselect
  exact bound_issues htext (marks_orderText hterms c)

theorem length_idParams (ids : List Text) : (idParams ids).length = ids.length :=
  List.length_map _

/-- Fixed texts around a list of marks bring no more. -/
theorem marks_enclosed {before behind : String} (count : Nat) (hbefore : marks before = 0)
    (hbehind : marks behind = 0) :
    marks (before ++ Sql.placeholders count ++ behind) = count := by
  rw [Sql.marks_append, Sql.marks_append, Sql.marks_placeholders, hbefore, hbehind, Nat.zero_add,
    Nat.add_zero]

theorem bound_withIds (ids : List Text) : (withIds ids).Bound := by
  refine bound_issues ?_ rfl
  rw [marks_enclosed ids.length (marks_fixed rfl) (marks_fixed rfl)]
  exact (length_idParams ids).symm

theorem bound_labels (ids : List Text) : (labels ids).Bound :=
  (marks_enclosed ids.length (marks_fixed rfl)
    (marks_fixed rfl)).trans (length_idParams ids).symm

theorem bound_commentCounts (ids : List Text) : (commentCounts ids).Bound :=
  (marks_enclosed ids.length (marks_fixed rfl)
    (marks_fixed rfl)).trans (length_idParams ids).symm

theorem bound_dependencies (ids : List Text) : (dependencies ids).Bound := by
  have hselect : marks "SELECT d.issue_id, d.depends_on_id, d.type" = 0 :=
    marks_fixed rfl
  have hunion : marks " UNION SELECT d.issue_id, d.depends_on_id, d.type" = 0 :=
    marks_fixed rfl
  have htarget : marks " FROM dependencies d JOIN issues o ON o.id = d.depends_on_id" = 0 :=
    marks_fixed rfl
  have hsource : marks " FROM dependencies d JOIN issues o ON o.id = d.issue_id" = 0 :=
    marks_fixed rfl
  have hof : marks " WHERE d.issue_id IN (" = 0 := marks_fixed rfl
  have hon : marks " WHERE d.depends_on_id IN (" = 0 := marks_fixed rfl
  have hand : marks ") AND " = 0 := marks_fixed rfl
  have hlive : marks (live "o") = 0 := marks_live (marks_fixed rfl)
  have horder : marks " ORDER BY issue_id, depends_on_id" = 0 := marks_fixed rfl
  -- the equations of the definition take long to make, for its texts are long
  delta Bound Statement.dependencies
  simp only [Sql.marks_append, Sql.marks_placeholders, hselect, hunion, htarget, hsource, hof, hon,
    hand, hlive, horder, List.length_append, length_idParams]
  omega

theorem bound_allDependencies : allDependencies.Bound := by
  have hselect : marks "SELECT d.issue_id, d.depends_on_id, d.type FROM dependencies d" = 0 :=
    marks_fixed rfl
  have hjoin :
      marks " JOIN issues a ON a.id = d.issue_id JOIN issues b ON b.id = d.depends_on_id" = 0 :=
    marks_fixed rfl
  have hwhere : marks " WHERE " = 0 := marks_fixed rfl
  have hand : marks " AND " = 0 := marks_fixed rfl
  have hsource : marks (live "a") = 0 := marks_live (marks_fixed rfl)
  have htarget : marks (live "b") = 0 := marks_live (marks_fixed rfl)
  delta Bound allDependencies
  simp only [Sql.marks_append, hselect, hjoin, hwhere, hand, hsource, htarget, List.length_nil]

end Statement

namespace Engine

variable {store : Store} {cfg : Settings} {s : State} {q : Query} {base : List Issue} {off : Prop}
  {chart : Chart} {load i n : Nat} {a b : Inquiry} {made : List Inquiry}
  {result : Except LoadFailure (List Issue)} {outcome : Except LoadFailure Outcome} {l : Load}
  {c : Call} {F : Charts}

/-! ## What a fetch and a load take -/

/-- The statements of a fetch: the first one alone if the store gives it no issues, and else with three
more, whose values are the identifiers of these issues, each once and in the order of the rows. -/
def WholeFetch (store : Store) (first : Statement) (n : Nat) (statements : List Statement) : Prop :=
  ∃ issues, (given store n).Reads first Issue.ofRow issues ∧
    let ids := (issues.map Issue.id).eraseDups
    let values : List Sql.Param := ids.map .text
    if issues = [] then statements = [first]
    else statements = [first, .dependencies ids, .labels ids, .commentCounts ids] ∧
      (Statement.dependencies ids).params = values ++ values ∧
      (Statement.labels ids).params = values ∧ (Statement.commentCounts ids).params = values

/-- The entries of a load: a fetch of what the query selects, the graph at most, and a fetch of what
was found along it at most. -/
def WholeLoad (store : Store) (q : Query) (entries : List (StoreCall × Nat)) : Prop :=
  ∃ selection first graph more n j k, q.select = .ok selection ∧
    WholeFetch store (.selected selection) n first ∧
    (graph = [] ∨ graph = [Statement.allDependencies]) ∧
    (more = [] ∨ ∃ ids, ids ≠ [] ∧ WholeFetch store (.withIds ids) k more) ∧
    entries = (first.map ranEntry).zipIdx n ++ (graph.map ranEntry).zipIdx j ++
      (more.map ranEntry).zipIdx k

/-! ## Inquiries -/

theorem Reply.Fits.faultIn_eq_none {α : Type} {read : Option Json → RowReading α} {reply : Reply}
    (h : Reply.Fits read reply) : faultIn read reply = none := by
  obtain ⟨elapsed, aborts, rows, items, rfl, hread⟩ := h
  exact faultIn_of_ok hread

/-- A store that does not fail has a fit answer to every inquiry. -/
theorem Unfailing.fault?_eq_none (h : Unfailing store) (a : Inquiry) (n : Nat) :
    a.fault? store n = none := by
  cases a with
  | selected selection => exact (h.selected n selection).faultIn_eq_none
  | withIds ids => exact (h.withIds n ids).faultIn_eq_none
  | dependencies ids => exact (h.dependencies n ids).faultIn_eq_none
  | labels ids => exact (h.labels n ids).faultIn_eq_none
  | commentCounts ids => exact (h.commentCounts n ids).faultIn_eq_none
  | graph => exact (h.allDependencies n).faultIn_eq_none

/-- Statements that ran follow each other. -/
theorem entries_zipIdx (hstore : Unfailing store) (made : List Inquiry) (n : Nat) :
    entries store (made.zipIdx n) =
      ((made.map Inquiry.statement).map ranEntry).zipIdx n := by
  have hran : ((made.zipIdx n).map fun p => p.1.entry store p.2) =
      (made.map Inquiry.statement).map ranEntry := by
    rw [List.map_map]
    induction made generalizing n with
    | nil => rfl
    | cons a rest ih =>
      rw [List.zipIdx_cons, List.map_cons, List.map_cons, ih,
        Inquiry.entry_of_fit (hstore.fault?_eq_none a n)]
      rfl
  rw [← zipIdx_entries, hran]

theorem length_batch_le (a : Inquiry) (ids : List Text) : (batch a ids).length ≤ 4 := by
  unfold batch
  split <;> simp

theorem bound_of_mem_batch {ids : List Text} (ha : a.statement.Bound) (hb : b ∈ batch a ids) :
    b.statement.Bound := by
  unfold batch at hb
  obtain rfl | hb := List.mem_cons.mp hb
  · exact ha
  · split at hb
    · exact nomatch hb
    · simp only [List.mem_cons, List.not_mem_nil, or_false] at hb
      obtain rfl | rfl | rfl := hb
      · exact Statement.bound_dependencies _
      · exact Statement.bound_labels _
      · exact Statement.bound_commentCounts _

namespace Gathers

/-- What is asked in a fetch is the beginning of a batch. -/
theorem exists_batch (h : Gathers store a n made result) : ∃ ids, made <+: batch a ids := by
  cases h with
  | failed ids before b cause hinitial hfit hfault => exact ⟨ids, hinitial⟩
  | cut signal reason hfit => exact ⟨[], List.prefix_refl _⟩
  | whole issues hreads hfit => exact ⟨_, List.prefix_refl _⟩

theorem length_le (h : Gathers store a n made result) : made.length ≤ 4 := by
  obtain ⟨ids, hinitial⟩ := h.exists_batch
  exact Nat.le_trans hinitial.length_le (length_batch_le a ids)

theorem bound (h : Gathers store a n made result) (ha : a.statement.Bound) :
    ∀ b ∈ made, b.statement.Bound := by
  obtain ⟨ids, hinitial⟩ := h.exists_batch
  exact fun b hb => bound_of_mem_batch ha (hinitial.subset hb)

/-- Over a store that does not fail, only a load that is called off stops a fetch. -/
theorem wholeFetch (h : Gathers store a n made result) (hstore : Unfailing store)
    (hon : ∀ signal reason, result ≠ .error (.aborted signal reason)) :
    WholeFetch store a.statement n (made.map Inquiry.statement) := by
  cases h with
  | failed ids before b cause hinitial hfit hfault =>
    exact nomatch (hstore.fault?_eq_none b _).symm.trans hfault
  | cut signal reason hfit => exact absurd rfl (hon signal reason)
  | whole issues hreads hfit =>
    refine ⟨issues.map Issue.bare, hreads, ?_⟩
    rw [Issue.map_id_bare, ← firstOccurrences_eq_eraseDups]
    by_cases hnone : issues = []
    · subst hnone
      rfl
    · rw [if_neg fun hnil => hnone (List.map_eq_nil_iff.mp hnil), batch,
        if_neg fun hnil => hnone (List.map_eq_nil_iff.mp hnil)]
      exact ⟨rfl, rfl, rfl, rfl⟩

end Gathers

/-- So is what is asked when a load goes on with the graph. -/
theorem Pursues.wholeFetch (h : Pursues store n made outcome) (hstore : Unfailing store)
    (hon : ∀ signal reason, outcome ≠ .error (.aborted signal reason)) :
    made = [] ∨ ∃ ids, ids ≠ [] ∧
      WholeFetch store (.withIds ids) n (made.map Inquiry.statement) := by
  cases h with
  | off signal reason => exact .inl rfl
  | nothing out => exact .inl rfl
  | failed ids hne made e hgathers =>
    refine .inr ⟨ids, hne, hgathers.wholeFetch hstore fun signal reason haborted => ?_⟩
    exact hon signal reason (congrArg Except.error (Except.error.inj haborted))
  | found ids hne made issues hgathers out =>
    exact .inr ⟨ids, hne, hgathers.wholeFetch hstore fun _ _ => nofun⟩

theorem Pursues.length_le (h : Pursues store n made outcome) : made.length ≤ 4 := by
  cases h with
  | off signal reason => exact Nat.zero_le 4
  | nothing out => exact Nat.zero_le 4
  | failed ids hne made e hgathers => exact hgathers.length_le
  | found ids hne made issues hgathers out => exact hgathers.length_le

theorem Pursues.bound (h : Pursues store n made outcome) : ∀ b ∈ made, b.statement.Bound := by
  cases h with
  | off signal reason => exact fun _ hb => nomatch hb
  | nothing out => exact fun _ hb => nomatch hb
  | failed ids hne made e hgathers => exact hgathers.bound (Statement.bound_withIds ids)
  | found ids hne made issues hgathers out => exact hgathers.bound (Statement.bound_withIds ids)

/-! ## Charts -/

/-- A fetch, the graph at most, and another fetch at most make a load. -/
theorem wholeLoad_of_parts (hstore : Unfailing store) {selection : Selection}
    (hselect : q.select = .ok selection) {first more : List Inquiry} {own : List (Inquiry × Nat)}
    {k : Nat} (hfirst : WholeFetch store (.selected selection) n (first.map Inquiry.statement))
    (hown : own = [] ∨ ∃ j, own = [(.graph, j)])
    (hmore : more = [] ∨ ∃ ids, ids ≠ [] ∧
      WholeFetch store (.withIds ids) k (more.map Inquiry.statement)) :
    WholeLoad store q (entries store (first.zipIdx n ++ own ++ more.zipIdx k)) := by
  rw [entries_append, entries_append, entries_zipIdx hstore, entries_zipIdx hstore]
  have hmore' : more.map Inquiry.statement = [] ∨ ∃ ids, ids ≠ [] ∧
      WholeFetch store (.withIds ids) k (more.map Inquiry.statement) :=
    hmore.imp_left fun hnone => List.map_eq_nil_iff.mpr hnone
  obtain rfl | ⟨j, rfl⟩ := hown
  · exact ⟨selection, _, [], _, n, 0, k, hselect, hfirst, .inl rfl, hmore', rfl⟩
  · refine ⟨selection, _, [.allDependencies], _, n, j, k, hselect, hfirst, .inr rfl, hmore', ?_⟩
    have hgraph : Inquiry.graph.entry store j = ranEntry .allDependencies :=
      Inquiry.entry_of_fit (hstore.fault?_eq_none _ _)
    rw [entries, List.map_singleton, hgraph]
    rfl

namespace Lawful

/-- Two fetches and the graph are all that is asked for a load. -/
theorem length_le (h : Lawful store q base off chart) : chart.made.length ≤ 9 := by
  -- four statements for the issues of the query, one for the graph, four for what it adds
  have hbased {made : List (Inquiry × Nat)} (h : Based store q base made) : made.length ≤ 4 := by
    obtain ⟨-, -, selection, first, n, -, hgathers, rfl⟩ := h
    rw [List.length_zipIdx]
    exact hgathers.length_le
  have hopened {made : List (Inquiry × Nat)} {source : Except LoadFailure Graph}
      (h : Opened store q base off made source) : made.length ≤ 5 := by
    obtain ⟨first, own, hfirst, hsourced, rfl⟩ := h
    rw [List.length_append]
    have hlength := hbased hfirst
    obtain rfl | ⟨j, rfl⟩ := hsourced.own_cases
    · exact Nat.le_succ_of_le hlength
    · exact Nat.succ_le_succ hlength
  cases h with
  | blank isOver => exact Nat.zero_le 9
  | early hselect hgathers hends hbase hoff =>
    have hlength := hgathers.length_le
    rw [List.length_zipIdx]
    omega
  | based h => exact Nat.le_trans (hbased h) (by decide)
  | waiting h => exact Nat.le_trans (hopened h) (by decide)
  | broken h => exact Nat.le_trans (hopened h) (by decide)
  | resumed h hpursues hoff =>
    have hfirst := hopened h
    have hmore := hpursues.length_le
    rw [List.length_append, List.length_zipIdx]
    omega

/-- Every statement that is asked for a load of a checked query has a value for each mark. -/
theorem bound (h : Lawful store q base off chart) (hcheck : q.check = .ok ()) :
    ∀ p ∈ chart.made, p.1.statement.Bound := by
  have hfirst {selection : Selection} {first : List Inquiry} {n : Nat}
      {result : Except LoadFailure (List Issue)} (hselect : q.select = .ok selection)
      (hgathers : Gathers store (.selected selection) n first result) :
      ∀ p ∈ first.zipIdx n, p.1.statement.Bound := fun p hp =>
    hgathers.bound (Statement.bound_selected hcheck hselect) p.1 (List.fst_mem_of_mem_zipIdx hp)
  have hbased {made : List (Inquiry × Nat)} (h : Based store q base made) :
      ∀ p ∈ made, p.1.statement.Bound := by
    obtain ⟨-, -, selection, first, n, hselect, hgathers, rfl⟩ := h
    exact hfirst hselect hgathers
  have hopened {made : List (Inquiry × Nat)} {source : Except LoadFailure Graph}
      (h : Opened store q base off made source) : ∀ p ∈ made, p.1.statement.Bound := by
    obtain ⟨first, own, hfirst, hsourced, rfl⟩ := h
    refine List.forall_mem_append.mpr ⟨hbased hfirst, fun p hp => ?_⟩
    obtain rfl | ⟨j, rfl⟩ := hsourced.own_cases
    · exact nomatch hp
    · obtain rfl := List.mem_singleton.mp hp
      exact Statement.bound_allDependencies
  cases h with
  | blank isOver => exact fun _ hp => nomatch hp
  | early hselect hgathers hends hbase hoff => exact hfirst hselect hgathers
  | based h => exact hbased h
  | waiting h => exact hopened h
  | broken h => exact hopened h
  | resumed h hpursues hoff =>
    refine List.forall_mem_append.mpr ⟨hopened h, fun p hp => ?_⟩
    exact hpursues.bound p.1 (List.fst_mem_of_mem_zipIdx hp)

/-- Over a store that does not fail, nothing but calling a load off cuts it short. -/
theorem wholeLoad (h : Lawful store q base off chart) (hstore : Unfailing store)
    (hmade : chart.made ≠ []) (hkept : off → ∃ out, chart.fate = some (.ok out)) :
    WholeLoad store q (entries store chart.made) := by
  have hopened {made : List (Inquiry × Nat)} {source : Except LoadFailure Graph}
      {more : List Inquiry} {k : Nat} (h : Opened store q base off made source)
      (hmore : more = [] ∨ ∃ ids, ids ≠ [] ∧
        WholeFetch store (.withIds ids) k (more.map Inquiry.statement)) :
      WholeLoad store q (entries store (made ++ more.zipIdx k)) := by
    obtain ⟨first, own, ⟨-, -, selection, first, n, hselect, hgathers, rfl⟩, hsourced, rfl⟩ := h
    exact wholeLoad_of_parts hstore hselect (hgathers.wholeFetch hstore fun _ _ => nofun)
      hsourced.own_cases hmore
  cases h with
  | blank isOver => exact absurd rfl hmade
  | @early selection n first result outcome isOver hselect hgathers hends hbase hoff =>
    -- a load that was cut off was called off, and then it came to no result
    have hwhole := hgathers.wholeFetch hstore fun signal reason haborted => by
      obtain ⟨out, hfate⟩ := hkept (hoff signal reason haborted)
      subst haborted
      cases hends
      cases hfate
    simpa using wholeLoad_of_parts (k := 0) hstore hselect hwhole (.inl rfl) (.inl rfl)
  | @based made isOver hbased =>
    obtain ⟨-, -, selection, first, n, hselect, hgathers, rfl⟩ := hbased
    simpa using wholeLoad_of_parts (k := 0) hstore hselect
      (hgathers.wholeFetch hstore fun _ _ => nofun) (.inl rfl) (.inl rfl)
  | waiting h => simpa using hopened (k := 0) h (.inl rfl)
  | broken h => simpa using hopened (k := 0) h (.inl rfl)
  | resumed h hpursues hoff =>
    refine hopened h (hpursues.wholeFetch hstore fun signal reason haborted => ?_)
    obtain ⟨out, hfate⟩ := hkept (hoff signal reason haborted)
    subst haborted
    cases hfate

end Lawful

/-! ## Runs -/

/-- A load is not called off while a call waits for it whose signal has not aborted. -/
theorem State.Attended.wanted (h : s.Attended cfg store) (hc : s.calls[i]? = some c)
    (hunsettled : c.settled = none) (hquiet : s.reason? c.signal = none) (hl : l ∈ s.loads)
    (hserves : l.Serves i c) : l.Wanted s := by
  unfold Load.Serves at hserves
  unfold Load.Wanted
  obtain ⟨-, htidy⟩ | ⟨-, hsolitary⟩ := h
  · have hattentive := htidy.alert.attentive
    obtain ⟨aborted, hshared⟩ := (hattentive.loads l hl).shared
    rw [hshared] at hserves ⊢
    obtain ⟨l', hl', hid, hon⟩ := (hattentive.calls i c hc).loaded l.id hserves
    obtain rfl := hattentive.eq_of_id hl hl' hid
    exact Control.shared.inj (hshared.symm.trans (hon hunsettled))
  · obtain ⟨k, c', hc', hown⟩ := hsolitary.owned l hl
    rw [hown] at hserves ⊢
    obtain rfl : k = i := hserves
    obtain rfl := Option.some.inj (hc.symm.trans hc')
    exact hquiet

/-- A load that serves a call whose signal has not aborted was not called off, or came to an outcome
all the same. -/
theorem Sound.kept {m : Mark} (h : Sound cfg store m s) (hstore : Unfailing store)
    (hcharted : Charted store F s) (hc : s.calls[i]? = some c)
    (hquiet : s.reason? c.signal = none) (hl : l ∈ s.loads) (hserves : l.Serves i c)
    (hoff : ¬ l.Wanted s) : ∃ out, (F.loads l.id).fate = some (.ok out) := by
  obtain ⟨hquery, hserver⟩ := hcharted.served h.traced hc hl hserves
  cases hsettled : c.settled with
  | none => exact absurd (h.attended.wanted hc hsettled hquiet hl hserves) hoff
  | some result =>
    obtain ⟨outcome, htold, hgot⟩ :=
      (hcharted.calls i c hc).settled hquiet result hsettled l.id hserver
    cases outcome with
    | ok out => exact ⟨out, htold.1⟩
    | error e =>
      -- the call would have been rejected without a cause
      cases result with
      | ok result => exact nomatch hgot
      | error rejection =>
        obtain ⟨failure, hfailed⟩ | haborted := h.fair hstore i c hc rejection hsettled
        · cases hquery.symm.trans hfailed
        · exact absurd hquiet haborted

/-- However many issues there are, a load takes a constant number of statements over a store that does
not fail. Whatever happens to the engine, its journal falls into the ledgers of its loads; none of
them has more than nine entries, and each entry is of a statement that ran with as many values as its
text has marks.

A load that serves a call whose signal has not aborted is for the query of that call, and is not cut
short. It takes a fetch of what the query selects, the graph at most, and a fetch of what was found at
most; and each fetch takes one statement if that gives no rows, and else four, with the identifiers of
the issues as values, each once and in the order of the rows: twice for the dependencies, once for the
labels and once for the counts of comments. -/
theorem constant_statements (cfg : Settings) (store : Store) (hstore : Unfailing store) (now : Time)
    (ttl interval ttl' interval' : Option Time) (events : List Event) :
    let s₀ := State.new now (.new now ttl interval) (.new now ttl' interval')
    let s := run cfg store s₀ events
    (∀ (n : Nat) (entry : StoreCall), s.journal[n]? = some entry ↔
      ∃! load, (entry, n) ∈ ledger cfg store load s₀ events) ∧
    (∀ load, ledger cfg store load s₀ events ≠ [] →
      (∃ l ∈ s.loads, l.id = load) ∧ (ledger cfg store load s₀ events).length ≤ 9) ∧
    (∀ entry ∈ s.journal, ∃ statement, entry = ranEntry statement ∧ statement.Bound) ∧
    ∀ (i : Nat) (c : Call) (q : Query), s.calls[i]? = some c → readQuery c.text = .ok q →
      s.reason? c.signal = none → ∀ l ∈ s.loads, l.Serves i c →
        l.query = q ∧ WholeLoad store q (ledger cfg store l.id s₀ events) := by
  intro s₀ s
  have hnew : Sound cfg store _ s₀ := sound_new now ttl interval ttl' interval'
  obtain ⟨hsound, -⟩ : Sound cfg store _ s ∧ _ := hnew.run events
  obtain ⟨F, -, hlogged⟩ : ∃ F, _ ∧ Logged store (fun load => ledger cfg store load s₀ events) F s :=
    (logged_new store now ttl interval ttl' interval').run cfg hnew.traced events
  have hcharted := hlogged.charted
  have hjournal (n : Nat) (entry : StoreCall) : s.journal[n]? = some entry ↔
      ∃! load, (entry, n) ∈ ledger cfg store load s₀ events :=
    hnew.traced.mem_journal_iff (Nat.zero_le n)
  refine ⟨hjournal, fun load hsome => ?_, fun entry hentry => ?_, ?_⟩
  · -- the ledger of a load is its chart, and a chart that is not blank has a load
    rw [hlogged.past load] at hsome ⊢
    have hmade : (F.loads load).made ≠ [] := fun hnone => hsome (congrArg (entries store) hnone)
    obtain ⟨l, hl, rfl⟩ := hlogged.exists_load hmade
    rw [entries, List.length_map]
    exact ⟨⟨l, hl, rfl⟩, (hcharted.loads l hl).lawful.length_le⟩
  · obtain ⟨n, hn⟩ := List.getElem?_of_mem hentry
    obtain ⟨load, hmem, -⟩ := (hjournal n entry).mp hn
    rw [hlogged.past load] at hmem
    obtain ⟨⟨a, k⟩, hp, hsame⟩ := List.mem_map.mp hmem
    obtain ⟨l, hl, rfl⟩ := hlogged.exists_load (List.ne_nil_of_mem hp)
    refine ⟨a.statement, ?_,
      (hcharted.loads l hl).lawful.bound (hcharted.loads l hl).check (a, k) hp⟩
    exact (congrArg Prod.fst hsame).symm.trans (Inquiry.entry_of_fit (hstore.fault?_eq_none a k))
  · intro i c q hc hquery hquiet l hl hserves
    obtain ⟨hquery', -⟩ := hcharted.served hsound.traced hc hl hserves
    obtain rfl : l.query = q := Except.ok.inj (hquery'.symm.trans hquery)
    refine ⟨rfl, ?_⟩
    have hpast : ledger cfg store l.id s₀ events = entries store (F.loads l.id).made :=
      hlogged.past l.id
    rw [hpast]
    exact (hcharted.loads l hl).lawful.wholeLoad hstore (hlogged.begun l hl)
      (hsound.kept hstore hcharted hc hquiet hl hserves)

/-- Every issue is given twice, and one depends on two others, of which the first one has been lost. -/
def twice : Store :=
  tableStore ["a", "a", "c", "c"] [⟨"a", "b", "blocks"⟩, ⟨"a", "c", "blocks"⟩]

/-- An issue that is given twice is asked for what it depends on. -/
def expandedTwice : State :=
  run ⟨5, false, default⟩ twice (.initial 0)
    (.call "id=a expand up" none :: List.replicate 12 .tick)

/-- A load takes nine statements with both fetches and the graph. -/
theorem constant_statements_twice :
    Unfailing twice ∧ expandedTwice.journal.length = 9 ∧
    ∃ c q l, expandedTwice.calls[0]? = some c ∧ readQuery c.text = .ok q ∧
      expandedTwice.reason? c.signal = none ∧ l ∈ expandedTwice.loads ∧ l.Serves 0 c ∧
      l.query = q ∧ WholeLoad twice q (ledger ⟨5, false, default⟩ twice l.id (.initial 0)
        (.call "id=a expand up" none :: List.replicate 12 .tick)) := by
  have hstore : Unfailing twice := unfailing_tableStore _ _
  have hrun : expandedTwice.journal.length = 9 ∧
      expandedTwice.calls.map (fun c => (c.text, c.signal, c.load)) =
        [(Text.ofString "id=a expand up", none, some 0)] ∧
      expandedTwice.loads.map Load.id = [0] := by decide +kernel
  obtain ⟨hlength, hcalls, hloads⟩ := hrun
  have hexpanding : Expanding (Text.ofString "id=a expand up") := by decide +kernel
  obtain ⟨q, hquery, -⟩ := hexpanding
  obtain ⟨c, hall, hc⟩ := List.map_eq_singleton_iff.mp hcalls
  obtain ⟨l, hothers, hl⟩ := List.map_eq_singleton_iff.mp hloads
  have hcall : expandedTwice.calls[0]? = some c := by rw [hall]; rfl
  have hmem : l ∈ expandedTwice.loads := hothers ▸ List.mem_singleton.mpr rfl
  obtain ⟨htext, hsignal, hload⟩ : c.text = Text.ofString "id=a expand up" ∧ c.signal = none ∧
      c.load = some 0 := by simpa using hc
  have hquiet : expandedTwice.reason? c.signal = none := by rw [hsignal]; rfl
  have hreachable : Reachable ⟨5, false, default⟩ twice expandedTwice :=
    ⟨0, none, none, none, none, _, rfl⟩
  have hserves : l.Serves 0 c := by
    obtain ⟨aborted, hshared⟩ := ((hreachable.tidy rfl).alert.attentive.loads l hmem).shared
    unfold Load.Serves
    rw [hshared, hl]
    exact hload
  obtain ⟨-, -, -, hserved⟩ := constant_statements ⟨5, false, default⟩ twice hstore 0 none none none
    none (.call "id=a expand up" none :: List.replicate 12 .tick)
  exact ⟨hstore, hlength, c, q, l, hcall, htext ▸ hquery, hquiet, hmem, hserves,
    hserved 0 c q hcall (htext ▸ hquery) hquiet l hmem hserves⟩

end Engine

end IssueQuery
