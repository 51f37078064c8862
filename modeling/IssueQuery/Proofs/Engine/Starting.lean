import IssueQuery.Proofs.Engine.LiveIssues
import IssueQuery.Proofs.Engine.Taking

/-!
# How calls and loads start

What a call does when it is made, whether or not loads are shared, and what a load does when it
starts, said once each for all that follows. A load that starts asks for its base issues and, if it
has some and they are to be expanded, for the graph at most.

* `Called`, `called`      what a call does when it is made;
* `EndsEarly`, `startLoad_cases` a load that starts ends early, or turns to the graph;
* `Begun`, `begun_startLoad` what is asked for a load that starts.
-/

namespace IssueQuery.Engine

variable {cfg : Settings} {store : Store} {s : State} {l : Load} {text : Text}
  {signal : Option Text} {q : Query} {base : List Issue}

/-! ## Calls -/

/-- The engine when a call has been made and nothing has been done about it. -/
def State.made (s : State) (text : Text) (signal : Option Text) (texts : List Text)
    (queries : ReadThrough Text Outcome) : State :=
  { s with
    calls := s.calls ++ [⟨text, signal, s.now, none, false, none⟩]
    expanding := texts
    queries := queries }

/-- What a call does when it is made. It is rejected at once if its text is no query or its signal
has aborted; otherwise it gets a kept outcome, joins a load, or starts one that is shared or its
own. -/
inductive Called (cfg : Settings) (store : Store) (s : State) (text : Text) (signal : Option Text) :
    State → Prop
  | rejected (texts : List Text) (rejection : Rejection) (lines : List LogLine)
    (hcause : (∃ failure, readQuery text = .error failure) ∨ s.reason? signal ≠ none) :
    Called cfg store s text signal
      { (s.made text signal texts s.queries).settleCall s.calls.length (.error rejection) with
        lines := lines }
  | kept (texts : List Text) (queries : ReadThrough Text Outcome) (out : Outcome)
    (hon : cfg.disabled = false) (hqueries : s.queries.Subsides queries)
    (hholds : s.queries.store.Holds text out) :
    Called cfg store s text signal
      ((s.made text signal texts queries).schedule 0 (.finish s.calls.length (.ok out)))
  | joined (texts : List Text) (queries : ReadThrough Text Outcome) (load : Nat)
    (hon : cfg.disabled = false) (hqueries : s.queries.Subsides queries) :
    Called cfg store s text signal (join (s.made text signal texts queries) s.calls.length load)
  | shared (texts : List Text) (queries : ReadThrough Text Outcome) (q : Query)
    (hon : cfg.disabled = false) (hquery : readQuery text = .ok q)
    (hstarted : queries.started = s.queries.started + 1)
    (hholds : ∀ k v, queries.store.Holds k v → s.queries.store.Holds k v)
    (hflights : ∃ f, f.id = s.queries.started ∧ queries.flights = s.queries.flights ++ [f]) :
    Called cfg store s text signal
      (join (startLoad cfg store (s.made text signal texts queries)
        ⟨s.queries.started, q, .shared none, [], none, [], none⟩) s.calls.length s.queries.started)
  | own (texts : List Text) (q : Query) (hoff : cfg.disabled = true)
    (hquery : readQuery text = .ok q) (hquiet : s.reason? signal = none) :
    Called cfg store s text signal
      (startLoad cfg store (s.made text signal texts s.queries.startUnshared.2)
        ⟨s.queries.started, q, .own s.calls.length signal, [], none, [], none⟩)

theorem called (cfg : Settings) (store : Store) (s : State) (text : Text) (signal : Option Text) :
    Called cfg store s text signal (call cfg store s text signal) := by
  obtain ⟨texts, hcases⟩ := call_spec cfg store s text signal
  obtain ⟨failure, hquery, hcall⟩ | ⟨q, hquery, ⟨reason, hreason, hcall⟩ | ⟨hreason, hcall⟩⟩ := hcases
  · rw [hcall]
    exact .rejected texts _ _ (.inl ⟨failure, hquery⟩)
  · rw [hcall]
    exact .rejected texts (.aborted reason) s.lines (.inr (hreason ▸ nofun))
  · rw [hcall]
    split
    · rename_i hoff
      exact .own texts q hoff hquery hreason
    · rename_i hon
      have hon : cfg.disabled = false := by simpa using hon
      -- looking a text up puts nothing into the cache
      have hstored := ReadThrough.Subsides.stored s.queries true text (some cfg.ttl) s.now
      unfold requestShared
      obtain ⟨out, hholds, hrequest⟩ | ⟨f, -, hrequest⟩ | ⟨-, hrequest⟩ :=
        s.queries.request_cases true text (some cfg.ttl) s.now
      · dsimp only
        rw [hrequest]
        exact .kept texts _ out hon hstored hholds
      · dsimp only
        rw [hrequest]
        exact .joined texts _ f.id hon (hstored.trans (.join _ f.id))
      · dsimp only
        rw [hrequest]
        exact .shared texts _ q hon hquery rfl hstored.holds ⟨_, rfl, rfl⟩

/-! ## Loads that start -/

/-- With what was fetched for it, a load of the query ends without the graph. -/
inductive EndsEarly (q : Query) :
    Except LoadFailure (List Issue) → Except LoadFailure Outcome → Prop
  | failed (e : LoadFailure) : EndsEarly q (.error e) (.error e)
  | plain (base : List Issue) (h : q.expansion = none) : EndsEarly q (.ok base) (.ok ⟨base, none⟩)
  | empty (e : Expansion) (h : q.expansion = some e) :
    EndsEarly q (.ok []) (.ok ⟨[], some (emptyReport e 0)⟩)

/-- A load that has base issues turns to the graph, unless it was called off. -/
def turnToGraph (cfg : Settings) (store : Store) (s : State) (l : Load) : State :=
  match s.calledOff? l.id with
  | some (signal, reason) => s.schedule 0 (.resume l.id (.error (.aborted signal reason)))
  | none =>
    match l.control with
    | .shared _ => requestGraph cfg store s l.id
    | .own .. => fetchOwnGraph store s l.id

/-- A load fetches its base issues, and then it ends or turns to the graph. -/
theorem startLoad_cases (cfg : Settings) (store : Store) (s : State) (l : Load) :
    let fetched := fetchBase store l.id l.query { s with loads := s.loads ++ [l] }
    (∃ expanding outcome, EndsEarly l.query fetched.1 outcome ∧
      startLoad cfg store s l = concludeEarly fetched.2 l expanding outcome) ∨
    ∃ base e, fetched.1 = .ok base ∧ base ≠ [] ∧ l.query.expansion = some e ∧
      startLoad cfg store s l =
        turnToGraph cfg store (fetched.2.modifyLoad l.id fun l => { l with base := base }) l := by
  unfold startLoad
  generalize fetchBase store l.id l.query { s with loads := s.loads ++ [l] } = fetched
  obtain ⟨base, s'⟩ := fetched
  dsimp only
  split
  · exact .inl ⟨false, _, .failed _, rfl⟩
  · rename_i hexpansion
    exact .inl ⟨false, _, .plain _ hexpansion, rfl⟩
  · rename_i hexpansion
    exact .inl ⟨true, _, .empty _ hexpansion, rfl⟩
  · rename_i hsome hexpansion
    exact .inr ⟨_, _, rfl, hsome, hexpansion, rfl⟩

theorem meanwhile_fetchBase (store : Store) (load : Nat) (q : Query) (s : State) :
    Meanwhile s (fetchBase store load q s).2 := by
  cases hselect : q.select with
  | ok selection =>
    have hproceeds : Proceeds store load (fetchBase store load q) := proceeds_fetchBase hselect
    exact (hproceeds s).1
  | error e =>
    unfold fetchBase
    rw [hselect]
    exact .refl s

theorem meanwhile_loadGraph (store : Store) (s : State) :
    Meanwhile s (staged .graph (loadGraph store) s).2 := by
  have hproceeds : Proceeds store 0 (staged .graph (loadGraph store)) := proceeds_loadGraph
  exact (hproceeds s).1

/-! ## What is asked for a load that starts -/

/-- A store that does not fail gives the graph. -/
theorem journal_loadGraph (hstore : Unfailing store) (hrecorded : s.Recorded) :
    (∃ graph, (staged .graph (loadGraph store) s).1 = .ok graph) ∧
    (staged .graph (loadGraph store) s).2.journal = s.journal ++ [ranEntry .allDependencies] := by
  have hgraph : ∃ graph, (staged .graph (loadGraph store) s).1 = .ok graph := by
    obtain ⟨elapsed, aborts, rows, ds, hreply, hread⟩ := hstore.allDependencies s.asked
    have hquery : (query store .allDependencies Dependency.ofRow s).1 = .ok ds := by
      unfold query
      rw [bind_run, ask, hreply]
      exact hread
    refine ⟨Graph.ofDependencies ds, ?_⟩
    show ((loadGraph store s).1.mapError (LoadFailure.ofStep .graph)) = _
    unfold loadGraph
    rw [bind_run]
    cases hdone : query store .allDependencies Dependency.ofRow s with
    | mk result s' =>
      rw [hdone] at hquery
      obtain rfl : result = .ok ds := hquery
      rfl
  refine ⟨hgraph, ?_⟩
  obtain ⟨graph, hgraph⟩ := hgraph
  have htakes : Takes (staged .graph (loadGraph store)) _ := takes_loadGraph
  obtain ⟨-, statements, hjournal, rfl⟩ := htakes s _ graph hrecorded (Prod.ext hgraph rfl)
  exact hjournal

/-- The statements with which a load of a query begins: those for its base issues, which were given
for the first of them, and maybe the one for the graph if there are base issues. -/
def Begun (store : Store) (q : Query) (n : Nat) (statements : List Statement) (base : List Issue) :
    Prop :=
  ∃ selection own, q.select = .ok selection ∧
    (own = [] ∨ base ≠ [] ∧ own = [Statement.allDependencies]) ∧
    statements = batchStatements (.selected selection) (base.map Issue.id) ++ own ∧
    (given store n).Reads (.selected selection) Issue.ofRow (base.map Issue.bare)

/-- To turn to the graph is to ask for it at most. -/
theorem journal_turnToGraph (hstore : Unfailing store) (cfg : Settings) (l : Load)
    (hrecorded : s.Recorded) :
    ∃ own, (own = [] ∨ own = [Statement.allDependencies]) ∧
      (turnToGraph cfg store s l).journal = s.journal ++ own.map ranEntry := by
  have hnone : ∃ own, (own = [] ∨ own = [Statement.allDependencies]) ∧
      s.journal = s.journal ++ own.map ranEntry := ⟨[], .inl rfl, (List.append_nil _).symm⟩
  unfold turnToGraph
  split
  · exact hnone
  · split
    · unfold requestGraph
      split
      · exact hnone
      · exact hnone
      · rename_i graphs _
        have hsame : State.Recorded { s with graphs := graphs } := hrecorded
        exact ⟨_, .inr rfl, (journal_loadGraph hstore hsame).2⟩
    · exact ⟨_, .inr rfl, (journal_loadGraph hstore hrecorded).2⟩

theorem begun_startLoad (hstore : Unfailing store) (hrecorded : s.Recorded)
    (hbase : (fetchBase store l.id l.query { s with loads := s.loads ++ [l] }).1 = .ok base) :
    ∃ statements, (startLoad cfg store s l).journal = s.journal ++ statements.map ranEntry ∧
      Begun store l.query s.asked statements base := by
  have hadded : State.Recorded { s with loads := s.loads ++ [l] } := hrecorded
  have htakes : Takes (fetchBase store l.id l.query) _ := takes_fetchBase l.query
  obtain ⟨hrecorded', statements, hjournal, selection, hselect, hreads, hstatements⟩ :=
    htakes _ _ base hadded (Prod.ext hbase rfl)
  obtain ⟨expanding, outcome, -, hstart⟩ | ⟨base', e, hbase', hne, -, hstart⟩ :=
    startLoad_cases cfg store s l
  · obtain ⟨turns, hconclude⟩ := concludeEarly_eq
      (fetchBase store l.id l.query { s with loads := s.loads ++ [l] }).2 l expanding outcome
    rw [hstart, hconclude]
    exact ⟨statements, hjournal, selection, [], hselect, .inl rfl,
      hstatements.trans (List.append_nil _).symm, hreads⟩
  · obtain rfl := Except.ok.inj (hbase.symm.trans hbase')
    -- setting the base makes no statement
    have hmodified : State.Recorded ((fetchBase store l.id l.query
        { s with loads := s.loads ++ [l] }).2.modifyLoad l.id fun l => { l with base := base }) :=
      hrecorded'
    obtain ⟨own, hown, hturned⟩ := journal_turnToGraph hstore cfg l hmodified
    rw [hstart, hturned]
    refine ⟨statements ++ own, ?_, selection, own, hselect, hown.imp_right fun h => ⟨hne, h⟩,
      congrArg (· ++ own) hstatements, hreads⟩
    rw [List.map_append, ← List.append_assoc]
    exact congrArg (· ++ _) hjournal

end IssueQuery.Engine
