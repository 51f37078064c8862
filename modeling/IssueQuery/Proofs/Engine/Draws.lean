import IssueQuery.Engine.Call

/-!
# Results that come from given rows

A store may answer one statement differently over time. *Draws* say which rows a result may be made
of: the rows that may be taken for each statement. A result comes from draws if each of its parts is
read off rows that were drawn for a statement of that part: the base issues with their dependencies,
labels and comment counts, the graph, and the issues found along it.

* `Draws.Gives`   the result of a query comes from draws;
* `State.drawn`   the rows that a store has given since a certain statement;
* `drawn_within`  they become more with time.
-/

namespace IssueQuery.Engine

/-- The rows that may be taken for a statement. -/
abbrev Draws := Statement → List Json → Prop

namespace Draws

/-- The other draws have all of these. -/
def Within (draws draws' : Draws) : Prop :=
  ∀ statement rows, draws statement rows → draws' statement rows

/-! ## The parts of a result -/

/-- The items are read off the rows of a statement. -/
def Reads {α : Type} (draws : Draws) (statement : Statement) (read : Option Json → RowReading α)
    (items : List α) : Prop :=
  ∃ rows, draws statement rows ∧ readRows read rows = .ok items

/-- The issues are those of a statement, with what belongs to them. -/
def Fetches (draws : Draws) (statement : Statement) (issues : List Issue) : Prop :=
  ∃ found, draws.Reads statement Issue.ofRow found ∧
    let ids := firstOccurrences (found.map Issue.id)
    (found = [] ∧ issues = [] ∨
      found ≠ [] ∧
        ∃ dependencies, draws.Reads (.dependencies ids) Dependency.ofRow dependencies ∧
        ∃ labels, draws.Reads (.labels ids) Labelling.ofRow labels ∧
        ∃ counts, draws.Reads (.commentCounts ids) CommentCount.ofRow counts ∧
        issues = counts.foldl Issue.attachCommentCount
          (labels.foldl Issue.attachLabel (dependencies.foldl Issue.attachDependency found)))

/-- The issues are what a query selects. -/
def Selects (draws : Draws) (q : Query) (issues : List Issue) : Prop :=
  ∃ selection, q.select = .ok selection ∧ draws.Fetches (.selected selection) issues

/-- The graph is that of all dependencies. -/
def GivesGraph (draws : Draws) (graph : Graph) : Prop :=
  ∃ dependencies, draws.Reads .allDependencies Dependency.ofRow dependencies ∧
    graph = Graph.ofDependencies dependencies

/-- The outcome is the expansion of base issues along a graph. -/
def Expands (draws : Draws) (base : List Issue) (e : Expansion) (graph : Graph)
    (outcome : Outcome) : Prop :=
  let reach := graph.expand (base.map Issue.id) e.direction e.depth
  let report : ExpansionReport :=
    { emptyReport e base.length with levels := reach.levels, truncated := reach.truncated }
  let found := reach.ids.drop base.length
  found = [] ∧ outcome = ⟨base, some report⟩ ∨
    found ≠ [] ∧ ∃ extra, draws.Fetches (.withIds found) extra ∧
      let extra := extra.mergeSort fun a b => rank found a.id ≤ rank found b.id
      outcome = ⟨base ++ extra, some { report with expandedCount := extra.length }⟩

/-- The outcome is what a query selects, with its expansion if it has one. -/
def Gives (draws : Draws) (q : Query) (outcome : Outcome) : Prop :=
  ∃ base, draws.Selects q base ∧
    match q.expansion with
    | none => outcome = ⟨base, none⟩
    | some e =>
      base = [] ∧ outcome = ⟨[], some (emptyReport e 0)⟩ ∨
        base ≠ [] ∧ ∃ graph, draws.GivesGraph graph ∧ draws.Expands base e graph outcome

/-! ## More draws -/

variable {draws draws' draws'' : Draws} {α : Type} {statement : Statement}
  {read : Option Json → RowReading α} {items : List α} {issues base : List Issue} {q : Query}
  {graph : Graph} {e : Expansion} {outcome : Outcome}

theorem Within.refl (draws : Draws) : draws.Within draws := fun _ _ => id

theorem Within.trans (h : draws.Within draws') (h' : draws'.Within draws'') :
    draws.Within draws'' :=
  fun statement rows hdrawn => h' statement rows (h statement rows hdrawn)

theorem Reads.mono (hmore : draws.Within draws') (h : draws.Reads statement read items) :
    draws'.Reads statement read items := by
  obtain ⟨rows, hdrawn, hread⟩ := h
  exact ⟨rows, hmore statement rows hdrawn, hread⟩

theorem Fetches.mono (hmore : draws.Within draws') (h : draws.Fetches statement issues) :
    draws'.Fetches statement issues := by
  obtain ⟨found, hfound, hnone | ⟨hsome, dependencies, hdependencies, labels, hlabels, counts,
    hcounts, hissues⟩⟩ := h
  · exact ⟨found, hfound.mono hmore, .inl hnone⟩
  · exact ⟨found, hfound.mono hmore, .inr ⟨hsome, dependencies, hdependencies.mono hmore, labels,
      hlabels.mono hmore, counts, hcounts.mono hmore, hissues⟩⟩

theorem Selects.mono (hmore : draws.Within draws') (h : draws.Selects q issues) :
    draws'.Selects q issues := by
  obtain ⟨selection, hselect, hissues⟩ := h
  exact ⟨selection, hselect, hissues.mono hmore⟩

theorem GivesGraph.mono (hmore : draws.Within draws') (h : draws.GivesGraph graph) :
    draws'.GivesGraph graph := by
  obtain ⟨dependencies, hdependencies, hgraph⟩ := h
  exact ⟨dependencies, hdependencies.mono hmore, hgraph⟩

theorem Expands.mono (hmore : draws.Within draws') (h : draws.Expands base e graph outcome) :
    draws'.Expands base e graph outcome := by
  obtain hnone | ⟨hsome, extra, hextra, houtcome⟩ := h
  · exact .inl hnone
  · exact .inr ⟨hsome, extra, hextra.mono hmore, houtcome⟩

theorem Gives.mono (hmore : draws.Within draws') (h : draws.Gives q outcome) :
    draws'.Gives q outcome := by
  obtain ⟨base, hbase, houtcome⟩ := h
  refine ⟨base, hbase.mono hmore, ?_⟩
  split at houtcome
  · exact houtcome
  · obtain hnone | ⟨hsome, graph, hgraph, hexpands⟩ := houtcome
    · exact .inl hnone
    · exact .inr ⟨hsome, graph, hgraph.mono hmore, hexpands.mono hmore⟩

/-! ## Results without and with an expansion -/

theorem gives_of_not_expanding (h : draws.Selects q base) (he : q.expansion = none) :
    draws.Gives q ⟨base, none⟩ := by
  refine ⟨base, h, ?_⟩
  rw [he]

theorem gives_of_base_nil (h : draws.Selects q []) (he : q.expansion = some e) :
    draws.Gives q ⟨[], some (emptyReport e 0)⟩ := by
  refine ⟨[], h, ?_⟩
  rw [he]
  exact .inl ⟨rfl, rfl⟩

theorem gives_of_expands (h : draws.Selects q base) (hne : base ≠ [])
    (he : q.expansion = some e) (hgraph : draws.GivesGraph graph)
    (hexpands : draws.Expands base e graph outcome) : draws.Gives q outcome := by
  refine ⟨base, h, ?_⟩
  rw [he]
  exact .inr ⟨hne, graph, hgraph, hexpands⟩

end Draws

/-! ## The rows that a store has given -/

/-- The rows that the store has given for statements that ran, the first `n` statements left out. -/
def State.drawn (store : Store) (s : State) (n : Nat) : Draws := fun statement rows =>
  ∃ k, n ≤ k ∧ s.journal[k]? = some (.statement statement.sql (some statement.params)) ∧
    ∃ elapsed aborts, store k statement = .ran elapsed aborts (.ok rows)

variable {store : Store} {s s' : State} {n n' : Nat}

/-- A longer journal, or one read from an earlier statement on, has more rows. -/
theorem drawn_within (hjournal : s.journal <+: s'.journal) (hn : n' ≤ n) :
    (s.drawn store n).Within (s'.drawn store n') := by
  rintro statement rows ⟨k, hk, hentry, hran⟩
  refine ⟨k, Nat.le_trans hn hk, ?_, hran⟩
  obtain ⟨more, hmore⟩ := hjournal
  obtain ⟨hlt, -⟩ := List.getElem?_eq_some_iff.mp hentry
  rw [← hmore, List.getElem?_append_left hlt]
  exact hentry

end IssueQuery.Engine
