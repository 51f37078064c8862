import IssueQuery.Engine.Call
import IssueQuery.Proofs.Cache.Flights

/-!
# Fetching from a steady store

A store is steady if its answer to a statement is always the same. What a load fetches from such a
store is a function of the query alone, which `Answers.outcome` computes without any engine. The
engine's work agrees with it as long as the load is not called off, and changes nothing of the
engine but the clock, the journal and the log.

* `Frame`              what a state shares with the one behind some work;
* `Yields`             work that agrees with a result and keeps the frame;
* `yields_fetchBase`, `yields_loadGraph`, `yields_expand` the work of loads.
-/

namespace IssueQuery.Engine

/-! ## Steady stores -/

/-- The answers of a store to statements. -/
abbrev Answers := Statement → Except StageCause (List Json)

/-- The rows of a reply, or the failure. -/
def answerOf : Reply → Except StageCause (List Json)
  | .refused message => .error (.store (.error message))
  | .ran _ _ rows => rows.mapError .store

/-- The signals that abort before a reply. -/
def abortsOf : Reply → List (Text × Text)
  | .refused _ => []
  | .ran _ aborts _ => aborts

/-- The store gives the same answer to a statement whenever it is asked, and no signal aborts while
it is asked. How long a reply takes is left open. -/
structure Steady (store : Store) (answers : Answers) : Prop where
  answer : ∀ n statement, answerOf (store n statement) = answers statement
  quiet : ∀ n statement, abortsOf (store n statement) = []

/-! ## Results without an engine -/

namespace Answers

/-- The rows of a kind. -/
def query {α : Type} (answers : Answers) (statement : Statement)
    (read : Option Json → RowReading α) : Except StageCause (List α) := do
  let rows ← answers statement
  readRows read rows

/-- A step of a load: its failure is that of the step. -/
def staged {α : Type} (stage : Stage) (result : Except StageCause α) : Except LoadFailure α :=
  result.mapError (.ofStep stage)

/-- The issues of a statement, with what belongs to them. -/
def fetch (answers : Answers) (statement : Statement) : Except LoadFailure (List Issue) := do
  let issues ← staged .base (answers.query statement Issue.ofRow)
  if issues.isEmpty then return []
  let ids := firstOccurrences (issues.map Issue.id)
  let dependencies ← staged .dependencies (answers.query (.dependencies ids) Dependency.ofRow)
  let labels ← staged .labels (answers.query (.labels ids) Labelling.ofRow)
  let counts ← staged .commentCounts (answers.query (.commentCounts ids) CommentCount.ofRow)
  let issues := dependencies.foldl Issue.attachDependency issues
  let issues := labels.foldl Issue.attachLabel issues
  return counts.foldl Issue.attachCommentCount issues

/-- The graph of all dependencies. -/
def graph (answers : Answers) : Except LoadFailure Graph :=
  staged .graph do
    let dependencies ← answers.query .allDependencies Dependency.ofRow
    return Graph.ofDependencies dependencies

/-- The issues that a query selects. -/
def base (answers : Answers) (q : Query) : Except LoadFailure (List Issue) := do
  let selection ← q.select.mapError .selection
  answers.fetch (.selected selection)

/-- The expansion of base issues along a graph. -/
def expand (answers : Answers) (base : List Issue) (e : Expansion) (graph : Graph) :
    Except LoadFailure Outcome := do
  let reach := graph.expand (base.map Issue.id) e.direction e.depth
  let report : ExpansionReport :=
    { emptyReport e base.length with levels := reach.levels, truncated := reach.truncated }
  let found := reach.ids.drop base.length
  if found.isEmpty then return ⟨base, some report⟩
  let extra ← answers.fetch (.withIds found)
  let extra := extra.mergeSort fun a b => rank found a.id ≤ rank found b.id
  return ⟨base ++ extra, some { report with expandedCount := extra.length }⟩

/-- What a query selects, or why there is nothing to be had. -/
def outcome (answers : Answers) (q : Query) : Except LoadFailure Outcome := do
  let base ← answers.base q
  match q.expansion with
  | none => return ⟨base, none⟩
  | some e =>
    if base.isEmpty then return ⟨[], some (emptyReport e 0)⟩
    let graph ← answers.graph
    answers.expand base e graph

/-- What a call with a query text should get when nothing aborts. -/
def expected (answers : Answers) (text : Text) : Except Rejection Outcome :=
  match readQuery text with
  | .error failure => .error (.failed text failure)
  | .ok q => (answers.outcome q).mapError fun e => .failed text (.execute e)

variable {answers : Answers} {q : Query} {issues : List Issue} {e : Expansion}

theorem outcome_of_base_error {failure : LoadFailure} (h : answers.base q = .error failure) :
    answers.outcome q = .error failure := by
  rw [outcome, h]
  rfl

theorem outcome_of_not_expanding (h : answers.base q = .ok issues) (he : q.expansion = none) :
    answers.outcome q = .ok ⟨issues, none⟩ := by
  rw [outcome, h, he]
  rfl

theorem outcome_of_base_nil (h : answers.base q = .ok []) (he : q.expansion = some e) :
    answers.outcome q = .ok ⟨[], some (emptyReport e 0)⟩ := by
  rw [outcome, h, he]
  rfl

theorem outcome_of_expanding (h : answers.base q = .ok issues) (hne : issues ≠ [])
    (he : q.expansion = some e) :
    answers.outcome q = answers.graph >>= answers.expand issues e := by
  rw [outcome, h, he]
  show (if issues.isEmpty then _ else _) = _
  rw [if_neg (by simpa using hne)]

theorem expected_of_readQuery {text : Text} (h : readQuery text = .ok q) :
    answers.expected text = (answers.outcome q).mapError fun e => .failed text (.execute e) := by
  rw [expected, h]

end Answers

/-! ## What work leaves as it is -/

/-- The states agree but for the clock, the journal and the log; caches may have dropped values that
are past their deadlines. -/
structure Frame (s s' : State) : Prop where
  signals : s'.signals = s.signals
  queryFlights : s'.queries.flights = s.queries.flights
  queriesStarted : s'.queries.started = s.queries.started
  queriesHold : ∀ text v, s'.queries.store.Holds text v → s.queries.store.Holds text v
  graphFlights : s'.graphs.flights = s.graphs.flights
  graphsHold : ∀ v, s'.graphs.store.Holds () v → s.graphs.store.Holds () v
  expanding : s'.expanding = s.expanding
  loads : s'.loads = s.loads
  graphWaiters : s'.graphWaiters = s.graphWaiters
  calls : s'.calls = s.calls
  agenda : s'.agenda = s.agenda

theorem Frame.refl (s : State) : Frame s s :=
  ⟨rfl, rfl, rfl, fun _ _ => id, rfl, fun _ => id, rfl, rfl, rfl, rfl, rfl⟩

theorem Frame.trans {s s' s'' : State} (h : Frame s s') (h' : Frame s' s'') : Frame s s'' where
  signals := h'.signals.trans h.signals
  queryFlights := h'.queryFlights.trans h.queryFlights
  queriesStarted := h'.queriesStarted.trans h.queriesStarted
  queriesHold := fun text v hheld => h.queriesHold text v (h'.queriesHold text v hheld)
  graphFlights := h'.graphFlights.trans h.graphFlights
  graphsHold := fun v hheld => h.graphsHold v (h'.graphsHold v hheld)
  expanding := h'.expanding.trans h.expanding
  loads := h'.loads.trans h.loads
  graphWaiters := h'.graphWaiters.trans h.graphWaiters
  calls := h'.calls.trans h.calls
  agenda := h'.agenda.trans h.agenda

theorem frame_advance (s : State) (span : Time) : Frame s (s.advance span) where
  signals := rfl
  queryFlights := rfl
  queriesStarted := rfl
  queriesHold := fun _ _ => TtlCache.holds_advance
  graphFlights := rfl
  graphsHold := fun _ => TtlCache.holds_advance
  expanding := rfl
  loads := rfl
  graphWaiters := rfl
  calls := rfl
  agenda := rfl

/-- The journal, the count of statements and the log are no part of the frame. -/
theorem frame_notes (s : State) (journal : List StoreCall) (asked : Nat) (lines : List LogLine) :
    Frame s { s with journal := journal, asked := asked, lines := lines } :=
  ⟨rfl, rfl, rfl, fun _ _ => id, rfl, fun _ => id, rfl, rfl, rfl, rfl, rfl⟩

/-- Without its sweeps a cache holds what it held. -/
theorem frame_close (s : State) : Frame s s.close :=
  ⟨rfl, rfl, rfl, fun _ _ => id, rfl, fun _ => id, rfl, rfl, rfl, rfl, rfl⟩

theorem Frame.calledOff? {s s' : State} (h : Frame s s') (load : Nat) :
    s'.calledOff? load = s.calledOff? load := by
  simp only [State.calledOff?, State.load?, h.loads, h.signals]

/-! ## Work that yields a result -/

variable {ε ε' α β : Type} {load : Nat}

/-- Work goes on behind work that did not fail. -/
theorem bind_run (work : Work ε α) (next : α → Work ε β) (s : State) :
    (work >>= next) s =
      match work s with
      | (.ok a, s') => next a s'
      | (.error e, s') => (.error e, s') := by
  show (ExceptT.bindCont next (work s).1) (work s).2 = _
  cases work s with
  | mk r s' => cases r <;> rfl

/-- The work keeps the frame, and its result is the given one unless the load was called off. -/
def Yields (load : Nat) (work : Work ε α) (result : Except ε α) : Prop :=
  ∀ s, Frame s (work s).2 ∧ (s.calledOff? load = none → (work s).1 = result)

theorem yields_pure (a : α) : Yields load (pure a : Work ε α) (.ok a) := fun s =>
  ⟨Frame.refl s, fun _ => rfl⟩

theorem yields_result (result : Except ε α) : Yields load (ExceptT.mk (pure result)) result :=
  fun s => ⟨Frame.refl s, fun _ => rfl⟩

theorem Yields.bind {work : Work ε α} {result : Except ε α} {next : α → Work ε β}
    {nextResult : α → Except ε β} (h : Yields load work result)
    (hnext : ∀ a, Yields load (next a) (nextResult a)) :
    Yields load (work >>= next) (result >>= nextResult) := by
  intro s
  obtain ⟨hframe, hresult⟩ := h s
  rw [bind_run]
  cases hwork : work s with
  | mk r s' =>
    rw [hwork] at hframe hresult
    cases r with
    | error e =>
      refine ⟨hframe, fun hon => ?_⟩
      rw [← hresult hon]
      rfl
    | ok a =>
      obtain ⟨hframe', hresult'⟩ := hnext a s'
      refine ⟨hframe.trans hframe', fun hon => ?_⟩
      rw [← hresult hon]
      -- whether the load was called off did not change on the way
      exact hresult' (by rw [hframe.calledOff?, hon])

theorem Yields.adapt {work : Work ε α} {result : Except ε α} (h : Yields load work result)
    (f : ε → ε') : Yields load (work.adapt f) (result.mapError f) := by
  intro s
  obtain ⟨hframe, hresult⟩ := h s
  have hadapt : (work.adapt f) s = ((work s).1.mapError f, (work s).2) := rfl
  rw [hadapt]
  exact ⟨hframe, fun hon => by rw [hresult hon]⟩

theorem yields_ite {p : Prop} [Decidable p] {work work' : Work ε α} {result result' : Except ε α}
    (h : Yields load work result) (h' : Yields load work' result') :
    Yields load (if p then work else work') (if p then result else result') := by
  split
  · exact h
  · exact h'

/-- To stop if the load was called off changes nothing if it was not. -/
theorem Yields.unlessCalledOff {work : Work LoadFailure α} {result : Except LoadFailure α}
    (h : Yields load work result) :
    Yields load (do Engine.unlessCalledOff load; work) result := by
  have hstop : Yields load (Engine.unlessCalledOff load) (.ok ()) := by
    intro s
    unfold Engine.unlessCalledOff
    split
    · rename_i hoff
      exact ⟨Frame.refl s, fun hon => by rw [hon] at hoff; exact nomatch hoff⟩
    · exact ⟨Frame.refl s, fun _ => rfl⟩
  exact hstop.bind fun _ => h

/-- A line in the log changes nothing. -/
theorem Yields.log {work : Work ε α} {result : Except ε α} (h : Yields load work result)
    (cfg : Settings) (severity : Severity) (message : Text) (members : List (Text × Json)) :
    Yields load (do modify fun s => s.log cfg severity message members; work) result := by
  have hline : Yields load
      (modify fun s => s.log cfg severity message members : Work ε PUnit) (.ok ⟨⟩) := by
    intro s
    exact ⟨frame_notes s _ _ _, fun _ => rfl⟩
  exact hline.bind fun _ => h

/-! ## The work of loads -/

variable {store : Store} {answers : Answers}

/-- What is left of an expansion once it has been told how far it reaches: the issues found are
fetched, in the order in which they were found. -/
def fetchReach (store : Store) (load : Nat) (base : List Issue) (e : Expansion) (graph : Graph) :
    Work LoadFailure Outcome := do
  let reach := graph.expand (base.map Issue.id) e.direction e.depth
  let report : ExpansionReport :=
    { emptyReport e base.length with levels := reach.levels, truncated := reach.truncated }
  let found := reach.ids.drop base.length
  if found.isEmpty then return ⟨base, some report⟩
  let extra ← fetch store load (.withIds found)
  let extra := extra.mergeSort fun a b => rank found a.id ≤ rank found b.id
  return ⟨base ++ extra, some { report with expandedCount := extra.length }⟩

/-- An expansion has every property that fetching its reach has, if neither the question whether the
load was called off nor a warning takes it away. -/
theorem expand_of_fetchReach {P : Work LoadFailure Outcome → Prop} {cfg : Settings}
    {base : List Issue} {e : Expansion} {graph : Graph}
    (hoff : ∀ {work}, P work → P (do unlessCalledOff load; work))
    (hlog : ∀ {work}, P work → ∀ message members,
      P (do modify fun s => s.log cfg .warn message members; work))
    (h : P (fetchReach store load base e graph)) : P (expand cfg store load base e graph) := by
  apply hoff
  dsimp only
  split
  · exact hlog h _ _
  · exact h

theorem yields_ask (h : Steady store answers) (statement : Statement) :
    Yields load (ask store statement) (answers statement) := by
  intro s
  have hanswer := h.answer s.asked statement
  have hquiet := h.quiet s.asked statement
  unfold ask
  cases hreply : store s.asked statement with
  | refused message =>
    rw [hreply] at hanswer
    exact ⟨frame_notes s _ _ _, fun _ => hanswer⟩
  | ran elapsed aborts rows =>
    rw [hreply] at hanswer hquiet
    -- no signal aborts, and the time that passes keeps the frame
    obtain rfl : aborts = [] := hquiet
    refine ⟨?_, fun _ => hanswer⟩
    exact (frame_notes s _ _ s.lines).trans (frame_advance _ elapsed)

theorem yields_query (h : Steady store answers) (statement : Statement)
    (read : Option Json → RowReading α) :
    Yields load (query store statement read) (answers.query statement read) :=
  (yields_ask h statement).bind fun rows => yields_result (readRows read rows)

theorem yields_staged (stage : Stage) {work : Work StageCause α} {result : Except StageCause α}
    (h : Yields load work result) :
    Yields load (Engine.staged stage work) (Answers.staged stage result) :=
  h.adapt _

theorem yields_fetch (h : Steady store answers) (statement : Statement) :
    Yields load (fetch store load statement) (answers.fetch statement) := by
  apply (yields_staged .base (yields_query h statement Issue.ofRow)).bind
  intro issues
  apply yields_ite (yields_pure [])
  apply Yields.unlessCalledOff
  apply (yields_staged .dependencies (yields_query h _ Dependency.ofRow)).bind
  intro dependencies
  apply (yields_staged .labels (yields_query h _ Labelling.ofRow)).bind
  intro labels
  apply (yields_staged .commentCounts (yields_query h _ CommentCount.ofRow)).bind
  intro counts
  exact yields_pure _

theorem yields_loadGraph (h : Steady store answers) :
    Yields load (staged .graph (loadGraph store)) answers.graph := by
  apply yields_staged
  apply (yields_query h .allDependencies Dependency.ofRow).bind
  intro dependencies
  exact yields_pure _

theorem yields_fetchBase (h : Steady store answers) (q : Query) :
    Yields load (fetchBase store load q) (answers.base q) := by
  apply (yields_result (q.select.mapError LoadFailure.selection)).bind
  intro selection
  exact (yields_fetch h (.selected selection)).unlessCalledOff

theorem yields_expand (h : Steady store answers) (cfg : Settings) (base : List Issue)
    (e : Expansion) (graph : Graph) :
    Yields load (expand cfg store load base e graph) (answers.expand base e graph) := by
  apply expand_of_fetchReach (P := fun work => Yields load work (answers.expand base e graph))
  · exact Yields.unlessCalledOff
  · exact fun hwork => hwork.log cfg .warn
  · apply yields_ite (yields_pure _)
    apply (yields_fetch h _).bind
    intro extra
    exact yields_pure _

end IssueQuery.Engine
