import IssueQuery.Proofs.Engine.Asking
import IssueQuery.Proofs.Engine.Batches

/-!
# The statements of a load, one by one

Work that succeeds has asked the store for certain statements and nothing else, one right after the
other, and all of them ran: what they were can be read off what it gives. The statements of a fetch
are one for issues and, if that gave any, three for what belongs to them.

* `batchStatements`        the statements of a fetch;
* `Obtains`                what a fetch asks and gives;
* `Takes`                  work that asks for statements that depend on what it gives;
* `takes_fetch`, `takes_fetchBase`, `takes_loadGraph`, `takes_expand` the work of loads.
-/

namespace IssueQuery.Engine

/-- The entry of a statement that ran. -/
def ranEntry (statement : Statement) : StoreCall :=
  .statement statement.sql (some statement.params)

/-- The entry of a statement, with its values if it ran. -/
def entryOf (statement : Statement) : Reply → StoreCall
  | .refused _ => .statement statement.sql none
  | .ran .. => ranEntry statement

/-- The statement for issues, and those for what belongs to the issues that it gave. -/
def batchStatements (statement : Statement) (ids : List Text) : List Statement :=
  statement :: if ids = [] then [] else
    [.dependencies (firstOccurrences ids), .labels (firstOccurrences ids),
      .commentCounts (firstOccurrences ids)]

/-- The issues are those that a statement of a number gave, and what belongs to them was asked for
right behind. -/
def Obtains (store : Store) (statement : Statement) (n : Nat) (statements : List Statement)
    (issues : List Issue) : Prop :=
  (given store n).Reads statement Issue.ofRow (issues.map Issue.bare) ∧
    statements = batchStatements statement (issues.map Issue.id)

variable {ε ε' α β : Type} {store : Store} {load : Nat} {work : Work ε α} {statement : Statement}
  {read : Option Json → RowReading α} {Gets Gets' : Nat → List Statement → α → Prop}

/-- Work that succeeds adds the entries of some statements to the journal and no others; which ones
they are depends on the number of the first one and on what the work gives. -/
def Takes (work : Work ε α) (Gets : Nat → List Statement → α → Prop) : Prop :=
  ∀ s s' a, s.Recorded → work s = (.ok a, s') →
    s'.Recorded ∧ ∃ statements, s'.journal = s.journal ++ statements.map ranEntry ∧
      Gets s.asked statements a

theorem Takes.imp (h : Takes work Gets) (himp : ∀ n sts a, Gets n sts a → Gets' n sts a) :
    Takes work Gets' := by
  intro s s' a hrecorded hwork
  obtain ⟨hrecorded', statements, hjournal, hgets⟩ := h s s' a hrecorded hwork
  exact ⟨hrecorded', statements, hjournal, himp _ _ _ hgets⟩

theorem takes_pure (a : α) : Takes (pure a : Work ε α) fun _ sts b => sts = [] ∧ b = a := by
  intro s s' b hrecorded hwork
  obtain ⟨hb, rfl⟩ := Prod.mk.inj hwork
  exact ⟨hrecorded, [], (List.append_nil _).symm, rfl, (Except.ok.inj hb).symm⟩

theorem takes_result (result : Except ε α) :
    Takes (ExceptT.mk (pure result)) fun _ sts a => sts = [] ∧ result = .ok a := by
  intro s s' a hrecorded hwork
  obtain ⟨ha, rfl⟩ := Prod.mk.inj hwork
  exact ⟨hrecorded, [], (List.append_nil _).symm, rfl, ha⟩

/-- The statements of the second part come right behind those of the first one. -/
theorem Takes.bind (h : Takes work Gets) {next : α → Work ε β}
    (GetsNext : α → Nat → List Statement → β → Prop)
    (hnext : ∀ a, Takes (next a) (GetsNext a)) :
    Takes (work >>= next) fun n sts b => ∃ a first more, sts = first ++ more ∧
      Gets n first a ∧ GetsNext a (n + first.length) more b := by
  intro s s'' b hrecorded hwork
  rw [bind_run] at hwork
  cases hfirst : work s with
  | mk result s' =>
    rw [hfirst] at hwork
    cases result with
    | error e => exact nomatch (Prod.mk.inj hwork).1
    | ok a =>
      obtain ⟨hrecorded', first, hjournal, hgets⟩ := h s s' a hrecorded hfirst
      obtain ⟨hrecorded'', more, hjournal', hgets'⟩ := hnext a s' s'' b hrecorded' hwork
      refine ⟨hrecorded'', first ++ more, ?_, a, first, more, rfl, hgets, ?_⟩
      · rw [hjournal', hjournal, List.map_append, List.append_assoc]
      · -- the second part goes on with the number behind the statements of the first one
        have hasked : s'.asked = s.asked + first.length := by
          rw [← hrecorded', ← hrecorded, hjournal, List.length_append, List.length_map]
        exact hasked ▸ hgets'

theorem Takes.adapt (h : Takes work Gets) (f : ε → ε') : Takes (work.adapt f) Gets := by
  intro s s' a hrecorded hwork
  have hadapt : (work.adapt f) s = ((work s).1.mapError f, (work s).2) := rfl
  rw [hadapt] at hwork
  cases hfirst : work s with
  | mk result s₁ =>
    rw [hfirst] at hwork
    obtain ⟨ha, rfl⟩ := Prod.mk.inj hwork
    cases result with
    | error e => exact nomatch ha
    | ok a' =>
      obtain rfl := Except.ok.inj ha
      exact h s s₁ a' hrecorded hfirst

/-- To stop if the load was called off asks nothing. -/
theorem Takes.unlessCalledOff {work : Work LoadFailure α} (h : Takes work Gets) :
    Takes (do Engine.unlessCalledOff load; work) Gets := by
  have hstop : Takes (Engine.unlessCalledOff load) fun _ sts _ => sts = [] := by
    intro s s' a hrecorded hwork
    unfold Engine.unlessCalledOff at hwork
    split at hwork
    · exact nomatch (Prod.mk.inj hwork).1
    · obtain ⟨-, rfl⟩ := Prod.mk.inj hwork
      exact ⟨hrecorded, [], (List.append_nil _).symm, rfl⟩
  refine (hstop.bind _ fun _ => h).imp ?_
  rintro n sts a ⟨-, first, more, rfl, rfl, hgets⟩
  exact hgets

/-- Neither does a line in the log. -/
theorem Takes.log (h : Takes work Gets) (cfg : Settings) (severity : Severity)
    (message : Text) (members : List (Text × Json)) :
    Takes (do modify fun s => s.log cfg severity message members; work) Gets := by
  have hline : Takes (modify fun s => s.log cfg severity message members : Work ε PUnit)
      fun _ sts _ => sts = [] := by
    intro s s' a hrecorded hwork
    obtain ⟨-, rfl⟩ := Prod.mk.inj hwork
    exact ⟨hrecorded, [], (List.append_nil _).symm, rfl⟩
  refine (hline.bind _ fun _ => h).imp ?_
  rintro n sts a ⟨-, first, more, rfl, rfl, hgets⟩
  exact hgets

/-! ## The work of loads -/

/-- A statement is noted whatever becomes of it. Signals may abort while it runs; that is no entry of
the journal. -/
theorem ask_spec (statement : Statement) {s s' : State} {rows : Except StageCause (List Json)}
    (hrecorded : s.Recorded) (hwork : ask store statement s = (rows, s')) :
    s'.Recorded ∧ s'.journal = s.journal ++ [entryOf statement (store s.asked statement)] ∧
      rows = answerOf (store s.asked statement) := by
  have hprovides : Provides store (ask store statement) _ := provides_ask statement
  have hrecorded' := (hprovides s hrecorded).1.recorded hrecorded
  rw [hwork] at hrecorded'
  unfold ask at hwork
  cases hreply : store s.asked statement with
  | refused message =>
    rw [hreply] at hwork
    obtain ⟨rfl, rfl⟩ := Prod.mk.inj hwork
    exact ⟨hrecorded', rfl, rfl⟩
  | ran elapsed aborts answer =>
    rw [hreply] at hwork
    obtain ⟨rfl, hstate⟩ := Prod.mk.inj hwork
    have hnotes := notes_foldl (fun s a => notes_abort s a.1 a.2) aborts
      (({ s with asked := s.asked + 1 }.record (ranEntry statement)).advance elapsed)
    refine ⟨hrecorded', ?_, rfl⟩
    rw [← hstate]
    exact hnotes.journal.trans (List.append_nil _)

theorem takes_ask (statement : Statement) :
    Takes (ask store statement) fun n sts rows =>
      sts = [statement] ∧ given store n statement rows := by
  intro s s' rows hrecorded hwork
  obtain ⟨hrecorded', hjournal, hrows⟩ := ask_spec statement hrecorded hwork
  cases hreply : store s.asked statement with
  | refused message =>
    rw [hreply] at hrows
    exact nomatch hrows
  | ran elapsed aborts answer =>
    rw [hreply] at hjournal hrows
    cases answer with
    | error fault => exact nomatch hrows
    | ok rows' =>
      obtain rfl := Except.ok.inj hrows
      exact ⟨hrecorded', [statement], hjournal, rfl, elapsed, aborts, hreply⟩

theorem takes_query (statement : Statement) (read : Option Json → RowReading α) :
    Takes (query store statement read) fun n sts items =>
      sts = [statement] ∧ (given store n).Reads statement read items := by
  refine ((takes_ask statement).bind _ fun rows => takes_result (readRows read rows)).imp ?_
  rintro n sts items ⟨rows, first, more, rfl, ⟨rfl, hrows⟩, rfl, hread⟩
  exact ⟨rfl, rows, hrows, hread⟩

/-- Three statements, if there are issues, ask for what belongs to them. -/
theorem takes_attachments (ids : List Text) (found : List Issue) :
    Takes (do
        Engine.unlessCalledOff load
        let dependencies ← staged .dependencies (query store (.dependencies ids) Dependency.ofRow)
        let labels ← staged .labels (query store (.labels ids) Labelling.ofRow)
        let counts ← staged .commentCounts (query store (.commentCounts ids) CommentCount.ofRow)
        let issues := dependencies.foldl Issue.attachDependency found
        let issues := labels.foldl Issue.attachLabel issues
        return counts.foldl Issue.attachCommentCount issues : Work LoadFailure (List Issue))
      fun _ sts issues => sts = [.dependencies ids, .labels ids, .commentCounts ids] ∧
        ∃ (dependencies : List Dependency) (labels : List Labelling) (counts : List CommentCount),
          issues = counts.foldl Issue.attachCommentCount (labels.foldl Issue.attachLabel
            (dependencies.foldl Issue.attachDependency found)) := by
  apply Takes.unlessCalledOff
  refine Takes.imp (((takes_query (.dependencies ids) Dependency.ofRow).adapt _).bind _
    fun dependencies => ((takes_query (.labels ids) Labelling.ofRow).adapt _).bind _
    fun labels => ((takes_query (.commentCounts ids) CommentCount.ofRow).adapt _).bind _
    fun counts => takes_pure _) ?_
  rintro n sts issues ⟨dependencies, _, _, rfl, ⟨rfl, -⟩, labels, _, _, rfl, ⟨rfl, -⟩, counts, _, _,
    rfl, ⟨rfl, -⟩, rfl, rfl⟩
  exact ⟨rfl, dependencies, labels, counts, rfl⟩

theorem takes_fetch (statement : Statement) :
    Takes (fetch store load statement) (Obtains store statement) := by
  -- first the rows, then what is attached to them: the batch depends on the ids alone
  refine Takes.imp (((takes_query statement Issue.ofRow).adapt (LoadFailure.ofStep .base)).bind
    (fun found _ more issues => (∀ issue ∈ found, issue.bare = issue) →
      issues.map Issue.bare = found ∧
        statement :: more = batchStatements statement (found.map Issue.id)) ?_) ?_
  · intro found
    dsimp only
    split
    · rename_i hempty
      obtain rfl := List.isEmpty_iff.mp hempty
      refine (takes_pure []).imp ?_
      rintro n more issues ⟨rfl, rfl⟩ -
      exact ⟨rfl, rfl⟩
    · rename_i hsome
      have hne : found.map Issue.id ≠ [] := by simpa using hsome
      refine (takes_attachments _ found).imp ?_
      rintro n more issues ⟨rfl, dependencies, labels, counts, rfl⟩ hbare
      exact ⟨Issue.map_bare_attached hbare _ _ _, by rw [batchStatements, if_neg hne]⟩
  · rintro n sts issues ⟨found, first, more, rfl, ⟨rfl, hfound⟩, hnext⟩
    obtain ⟨hissues, hmore⟩ := hnext hfound.bare
    have hids : issues.map Issue.id = found.map Issue.id := by
      rw [← hissues, List.map_map]
      rfl
    exact ⟨hissues ▸ hfound, hids ▸ hmore⟩

theorem takes_fetchBase (q : Query) :
    Takes (fetchBase store load q) fun n sts base => ∃ selection, q.select = .ok selection ∧
      Obtains store (.selected selection) n sts base := by
  refine Takes.imp ((takes_result (q.select.mapError LoadFailure.selection)).bind _
    fun selection => (takes_fetch (.selected selection)).unlessCalledOff) ?_
  rintro n sts base ⟨selection, first, more, rfl, ⟨rfl, hselection⟩, hobtains⟩
  exact ⟨selection, ok_of_mapError hselection, hobtains⟩

theorem takes_loadGraph :
    Takes (staged .graph (loadGraph store)) fun _ sts _ => sts = [.allDependencies] := by
  apply Takes.adapt
  refine Takes.imp ((takes_query .allDependencies Dependency.ofRow).bind _ fun _ => takes_pure _) ?_
  rintro n sts graph ⟨dependencies, first, more, rfl, ⟨rfl, -⟩, rfl, -⟩
  rfl

/-- What an expansion of base issues along a graph asks and gives. -/
def Widened (store : Store) (base : List Issue) (e : Expansion) (graph : Graph) (n : Nat)
    (statements : List Statement) (outcome : Outcome) : Prop :=
  let reach := graph.expand (base.map Issue.id) e.direction e.depth
  let report : ExpansionReport :=
    { emptyReport e base.length with levels := reach.levels, truncated := reach.truncated }
  let found := reach.ids.drop base.length
  found = [] ∧ statements = [] ∧ outcome = ⟨base, some report⟩ ∨
    found ≠ [] ∧ ∃ extra, Obtains store (.withIds found) n statements extra ∧
      let extra := extra.mergeSort fun a b => rank found a.id ≤ rank found b.id
      outcome = ⟨base ++ extra, some { report with expandedCount := extra.length }⟩

theorem takes_expand (cfg : Settings) (base : List Issue) (e : Expansion) (graph : Graph) :
    Takes (expand cfg store load base e graph) (Widened store base e graph) := by
  apply expand_of_fetchReach (P := fun work => Takes work (Widened store base e graph))
  · exact Takes.unlessCalledOff
  · exact fun hwork => hwork.log cfg .warn
  · unfold fetchReach
    dsimp only
    split
    · rename_i hempty
      refine (takes_pure _).imp ?_
      rintro n sts outcome ⟨rfl, rfl⟩
      exact .inl ⟨List.isEmpty_iff.mp hempty, rfl, rfl⟩
    · rename_i hsome
      refine Takes.imp ((takes_fetch _).bind _ fun extra => takes_pure _) ?_
      rintro n sts outcome ⟨extra, first, more, rfl, hobtains, rfl, rfl⟩
      rw [List.append_nil]
      exact .inr ⟨fun hnil => hsome (hnil ▸ rfl), extra, hobtains, rfl⟩

end IssueQuery.Engine
