import IssueQuery.Engine
import IssueQuery.Issue.Attach

/-!
# Fetching issues

A fetch asks the store for issues and, if there are any, for what belongs to them: four statements
in a fixed order, or one. Every failure is that of a step. A load that was called off stops after its
first statement.
-/

namespace IssueQuery.Engine

/-- Work that changes the engine and may fail. -/
abbrev Work (ε α : Type) := ExceptT ε (StateM State) α

/-- Gives the store a statement. Time passes and signals abort before it answers. -/
def ask (store : Store) (statement : Statement) : Work StageCause (List Json) := fun s =>
  let counted := { s with asked := s.asked + 1 }
  match store s.asked statement with
  | .refused message =>
    (.error (.store (.error message)), counted.record (.statement statement.sql none))
  | .ran elapsed aborts rows =>
    let s := (counted.record (.statement statement.sql (some statement.params))).advance elapsed
    (rows.mapError .store, aborts.foldl (fun s a => s.abort a.1 a.2) s)

/-- Reads every row, or reports the first unfit one. -/
def readRows {α : Type} (read : Option Json → RowReading α) (rows : List Json) :
    Except StageCause (List α) :=
  (rows.mapM fun row => read (some row)).mapError .row

/-- Asks the store for rows of a kind. -/
def query {α : Type} (store : Store) (statement : Statement) (read : Option Json → RowReading α) :
    Work StageCause (List α) := do
  let rows ← ask store statement
  ExceptT.mk (pure (readRows read rows))

/-- A step of a load: its failures are those of the step. -/
def staged {α : Type} (stage : Stage) (work : Work StageCause α) : Work LoadFailure α :=
  work.adapt (.ofStep stage)

/-- Stops if the load was called off. -/
def unlessCalledOff (load : Nat) : Work LoadFailure Unit := fun s =>
  match s.calledOff? load with
  | some (signal, reason) => (.error (.aborted signal reason), s)
  | none => (.ok (), s)

/-- Fetches issues with what belongs to them. -/
def fetch (store : Store) (load : Nat) (statement : Statement) : Work LoadFailure (List Issue) := do
  let issues ← staged .base (query store statement Issue.ofRow)
  if issues.isEmpty then return []
  unlessCalledOff load
  -- an identifier is asked for once, however many rows have it
  let ids := firstOccurrences (issues.map Issue.id)
  let dependencies ← staged .dependencies (query store (.dependencies ids) Dependency.ofRow)
  let labels ← staged .labels (query store (.labels ids) Labelling.ofRow)
  let counts ← staged .commentCounts (query store (.commentCounts ids) CommentCount.ofRow)
  let issues := dependencies.foldl Issue.attachDependency issues
  let issues := labels.foldl Issue.attachLabel issues
  return counts.foldl Issue.attachCommentCount issues

/-- Asks the store for the graph of all dependencies. -/
def loadGraph (store : Store) : Work StageCause Graph := do
  let dependencies ← query store .allDependencies Dependency.ofRow
  return Graph.ofDependencies dependencies

/-- Fetches the issues that a query selects. -/
def fetchBase (store : Store) (load : Nat) (q : Query) : Work LoadFailure (List Issue) := do
  let selection ← ExceptT.mk (pure (q.select.mapError .selection))
  unlessCalledOff load
  fetch store load (.selected selection)

/-- The place of an identifier in a list; one that is not there counts as first. -/
def rank (ids : List Text) (id : Text) : Nat := if ids.contains id then ids.idxOf id else 0

/-- The report on an expansion that found nothing. -/
def emptyReport (e : Expansion) (baseCount : Nat) : ExpansionReport :=
  ⟨e.direction, e.depth, baseCount, 0, 0, false⟩

/-- Expands base issues along the graph and fetches the issues found, in the order in which they
were found. -/
def expand (cfg : Settings) (store : Store) (load : Nat) (base : List Issue) (e : Expansion)
    (graph : Graph) : Work LoadFailure Outcome := do
  unlessCalledOff load
  -- an issue that the base names twice counts twice when the base is dropped from the reach
  let reach := graph.expand (base.map Issue.id) e.direction e.depth
  if reach.truncated then
    modify fun s => s.log cfg .warn "expansion stopped at the level ceiling"
      [("levels", Issue.jsonInt reach.levels)]
  let report : ExpansionReport :=
    { emptyReport e base.length with levels := reach.levels, truncated := reach.truncated }
  let found := reach.ids.drop base.length
  if found.isEmpty then return ⟨base, some report⟩
  let extra ← fetch store load (.withIds found)
  let extra := extra.mergeSort fun a b => rank found a.id ≤ rank found b.id
  return ⟨base ++ extra, some { report with expandedCount := extra.length }⟩

end IssueQuery.Engine
