import IssueQuery.Cache.ReadThrough
import IssueQuery.Graph.Reach
import IssueQuery.Log
import IssueQuery.Query.Parser
import IssueQuery.Store.Statements

/-!
# The query engine: what it is made of

The engine answers calls, each of which is a query text with an optional signal. Results are kept
per query text, and the graph of dependencies is kept once; calls of one text share a load, and
loads share the load of the graph.

A load does as much as it can at once. Whatever depends on something else happens in turns: the
agenda is a queue of jobs, and a job may let its turn pass a number of times before it is done.

* `Engine.Result`, `Engine.Rejection` are what a call gets;
* `Engine.State` is the engine with its calls, loads and agenda.
-/

namespace IssueQuery.Engine

/-- What is known about the expansion of a result. -/
structure ExpansionReport where
  direction : Direction
  depth : Depth
  baseCount : Nat
  expandedCount : Nat
  levels : Nat
  truncated : Bool
deriving DecidableEq, Repr, Inhabited

/-- What a query text selects. -/
structure Outcome where
  /-- The issues that the query selects, then those found by its expansion. -/
  issues : List Issue
  expansion : Option ExpansionReport
deriving DecidableEq, Repr, Inhabited

/-! ## Failures -/

/-- The steps of a load that ask the store. -/
inductive Stage where
  | base
  | dependencies
  | labels
  | commentCounts
  | graph
deriving DecidableEq, Repr, Inhabited

/-- The step as messages name it. -/
def Stage.name : Stage → String
  | .base => "base query"
  | .dependencies => "load dependencies"
  | .labels => "load labels"
  | .commentCounts => "load comment counts"
  | .graph => "load dependency graph"

/-- Why a step of a load failed. -/
inductive StageCause where
  | store (fault : StoreFault)
  /-- A row did not have the columns that it should have. -/
  | row (faults : List RowFault)

/-- The message of the cause, if it has one. -/
def StageCause.message? : StageCause → Option Text
  | .store fault => fault.message?
  | .row faults => some (RowFault.message faults)

/-- Why a load failed. -/
inductive LoadFailure where
  /-- A step failed for a cause that has a message. -/
  | stage (stage : Stage) (cause : StageCause) (told : cause.message?.isSome)
  /-- A step failed for a cause that has none. Which step it was, and why, is lost. -/
  | wordless
  /-- The query has a field that is none. -/
  | selection (e : CheckError)
  /-- A signal aborted, with a reason. -/
  | aborted (signal reason : Text)

/-- The failure of a step. -/
def LoadFailure.ofStep (step : Stage) (cause : StageCause) : LoadFailure :=
  if told : cause.message?.isSome then .stage step cause told else .wordless

/-- The message names the step that failed, if the failure does. -/
def LoadFailure.message : LoadFailure → Text
  | .stage step cause told => Text.ofString step.name ++ ": " ++ cause.message?.get told
  | .wordless => "Cannot convert object to primitive value"
  | .selection e => e.message
  | .aborted _ reason => reason

/-- Why a query text has no result. -/
inductive QueryFailure where
  | parse (e : ParseError)
  | validate (e : CheckError)
  | execute (e : LoadFailure)

namespace QueryFailure

/-- The part of the work on a query that failed. -/
def stageName : QueryFailure → String
  | .parse _ => "parse"
  | .validate _ => "validate"
  | .execute _ => "execute"

/-- The message names the part of the work that failed. -/
def message : QueryFailure → Text
  | .parse e => "parse error: " ++ e.message
  | .validate e => "validation error: " ++ e.message
  | .execute e => "execution error: " ++ e.message

/-- What the log says of the failure. -/
def headline : QueryFailure → String
  | .parse _ => "parse failed"
  | .validate _ => "validate failed"
  | .execute _ => "query failed"

end QueryFailure

/-- What a call gets instead of a result: the failure of its query, or the reason for which it was
called off. -/
inductive Rejection where
  | failed (text : Text) (failure : QueryFailure)
  | aborted (reason : Text)

/-- The message that a call gets. -/
def Rejection.message : Rejection → Text
  | .failed _ failure => failure.message
  | .aborted reason => reason

/-- What a call gets. -/
structure Result where
  text : Text
  outcome : Outcome
  elapsed : Time
deriving DecidableEq, Repr, Inhabited

/-! ## State -/

/-- A call and what became of it. -/
structure Call where
  text : Text
  signal : Option Text
  /-- When the call was made. -/
  started : Time
  /-- The load that the call waits for. -/
  load : Option Nat
  /-- The call is turned away as soon as its signal aborts. -/
  listening : Bool
  /-- What the call got, once it has got it. -/
  settled : Option (Except Rejection Result)

/-- Who can call a load off. -/
inductive Control where
  /-- All of its callers together; `aborted` once they have, with the signal and reason of the
  last. -/
  | shared (aborted : Option (Text × Text))
  /-- The signal of the one caller, if it has one. -/
  | own (call : Nat) (signal : Option Text)

/-- A load of a query. -/
structure Load where
  id : Nat
  query : Query
  control : Control
  /-- The issues that the query selects, once they are fetched. -/
  base : List Issue
  /-- The load of the graph that this load waits for. -/
  graphLoad : Option Nat
  /-- The calls that will be told the outcome, in the order in which they asked to be. -/
  subscribers : List Nat
  /-- The outcome, once the load has ended. -/
  ended : Option (Except LoadFailure Outcome)

/-- Work to do in a later turn. -/
inductive Job where
  /-- A call without a signal asks to be told the outcome of its load. -/
  | subscribe (call : Nat)
  /-- A load ends. -/
  | settle (load : Nat) (outcome : Except LoadFailure Outcome)
  /-- The load of the graph ends. -/
  | settleGraph (graphLoad : Nat) (graph : Except LoadFailure Graph)
  /-- A load is told the outcome of the load of the graph. -/
  | deliverGraph (load : Nat) (graph : Except LoadFailure Graph)
  /-- A load goes on with the graph. -/
  | resume (load : Nat) (graph : Except LoadFailure Graph)
  /-- A call with a signal is told the outcome of its load. -/
  | deliver (call : Nat) (outcome : Except LoadFailure Outcome)
  /-- A call gets its result. -/
  | finish (call : Nat) (outcome : Except LoadFailure Outcome)

/-- How an engine behaves throughout. -/
structure Settings where
  /-- How long results and the graph are kept; 0 is for ever. -/
  ttl : Time
  /-- Neither keep nor share anything. -/
  disabled : Bool
  logger : Logger
deriving DecidableEq, Repr, Inhabited

/-- An engine at work. -/
structure State where
  now : Time
  /-- What was done with the store, in order. -/
  journal : List StoreCall
  /-- The number of statements that the store was given. -/
  asked : Nat
  /-- The lines that the logger wrote. -/
  lines : List LogLine
  /-- The signals that have aborted, with their reasons. -/
  signals : List (Text × Text)
  queries : ReadThrough Text Outcome
  graphs : ReadThrough Unit Graph
  /-- The query texts whose kept results may depend on the graph. -/
  expanding : List Text
  loads : List Load
  /-- Who waits for which load of the graph, in order: the number of the load of the graph, and that
  of the load that waits. -/
  graphWaiters : List (Nat × Nat)
  calls : List Call
  /-- Jobs in order of turn, each with the number of turns that it lets pass. -/
  agenda : List (Nat × Job)

namespace State

/-- An engine over two caches that has not been called. -/
def new (now : Time) (queries : TtlCache Text Outcome) (graphs : TtlCache Unit Graph) : State where
  now := now
  journal := []
  asked := 0
  lines := []
  signals := []
  queries := .new queries
  graphs := .new graphs
  expanding := []
  loads := []
  graphWaiters := []
  calls := []
  agenda := []

/-- An engine with caches of its own, which are swept at the usual interval. -/
def initial (now : Time) : State := new now (.new now none none) (.new now none none)

/-- The number of sweeps that keep running. -/
def sweeps (s : State) : Nat :=
  s.queries.store.sweep.toList.length + s.graphs.store.sweep.toList.length

/-- Writes a line to the log, if the logger passes it on. -/
def log (cfg : Settings) (s : State) (severity : Severity) (message : Text)
    (members : List (Text × Json)) : State :=
  { s with lines := s.lines ++ (cfg.logger.line? severity message [.obj members]).toList }

/-- Notes what was done with the store. -/
def record (s : State) (call : StoreCall) : State := { s with journal := s.journal ++ [call] }

/-- Puts a job on the agenda. -/
def schedule (s : State) (turns : Nat) (job : Job) : State :=
  { s with agenda := s.agenda ++ [(turns, job)] }

/-- Lets the time become later. -/
def advance (s : State) (span : Time) : State :=
  { s with
    now := s.now + span
    queries := s.queries.advance (s.now + span)
    graphs := s.graphs.advance (s.now + span) }

/-- The reason of a signal, if it has aborted. -/
def reason? (s : State) (signal : Option Text) : Option Text :=
  signal.bind fun name => s.signals.lookup name

/-- The load of a number. -/
def load? (s : State) (id : Nat) : Option Load := s.loads.find? fun l => l.id == id

/-- Changes the load of a number. -/
def modifyLoad (s : State) (id : Nat) (change : Load → Load) : State :=
  { s with loads := s.loads.map fun l => if l.id = id then change l else l }

/-- Changes the call of a number. -/
def modifyCall (s : State) (id : Nat) (change : Call → Call) : State :=
  { s with calls := s.calls.modify id change }

/-- Gives a call what it gets. -/
def settleCall (s : State) (id : Nat) (what : Except Rejection Result) : State :=
  s.modifyCall id fun c => { c with settled := some what, listening := false }

/-- The signal and reason for which a load was called off, if it was. -/
def calledOff? (s : State) (load : Nat) : Option (Text × Text) :=
  match s.load? load with
  | none => none
  | some l =>
    match l.control with
    | .shared aborted => aborted
    | .own _ signal => signal.bind fun name => (s.signals.lookup name).map fun r => (name, r)

/-! ## Aborts -/

/-- Calls a load off whose callers have all left. It no longer waits for the graph. -/
def callOff (s : State) (load : Nat) (signal reason : Text) : State :=
  let graphLoad := (s.load? load).bind Load.graphLoad
  let s := s.modifyLoad load fun l =>
    { l with control := .shared (some (signal, reason)), graphLoad := none }
  match graphLoad with
  | none => s
  | some g =>
    { s with
      graphs := (s.graphs.leave g).2
      graphWaiters := s.graphWaiters.filter fun w => w != (g, load) }

/-- Turns a call away that waits for a load, and calls the load off if it was the last one. -/
def turnAway (s : State) (signal reason : Text) (call : Nat) : State :=
  match (s.calls[call]?).bind Call.load with
  | none => s
  | some load =>
    let (isLast, queries) := s.queries.leave load
    let s := { s with queries := queries }
    let s := if isLast then s.callOff load signal reason else s
    s.settleCall call (.error (.aborted reason))

/-- A signal aborts: calls that carry it and listen are turned away in order. A second abort does
nothing. -/
def abort (s : State) (signal reason : Text) : State :=
  if (s.reason? (some signal)).isSome then s
  else
    let s := { s with signals := s.signals ++ [(signal, reason)] }
    let leaving := (List.range s.calls.length).filter fun i =>
      ((s.calls[i]?).map fun c => c.listening && c.signal == some signal).getD false
    leaving.foldl (fun s i => s.turnAway signal reason i) s

/-! ## Invalidation -/

/-- Forgets all results and the graph. -/
def invalidate (s : State) : State :=
  { s with
    queries := s.queries.invalidateAll
    expanding := []
    graphs := s.graphs.invalidate () }

/-- Forgets the graph and the results that may depend on it. -/
def invalidateGraph (s : State) : State :=
  { s with
    graphs := s.graphs.invalidate ()
    queries := s.expanding.foldl ReadThrough.invalidate s.queries
    expanding := [] }

/-- Stops the sweeps of the engine's own caches. -/
def close (s : State) : State :=
  { s with
    queries := { s.queries with store := s.queries.store.close }
    graphs := { s.graphs with store := s.graphs.store.close } }

end State

end IssueQuery.Engine
