import IssueQuery.Engine.Turn

/-!
# Calling the engine

A call parses and checks its query text, and then gets a kept result, joins a load or starts one.
A load that starts fetches the issues that the query selects, and the graph if it needs one and
nobody else is fetching it, before the call returns.

* `Engine.call`   one call;
* `Engine.step`   one event: a call, a turn, an abort, an invalidation, the passing of time;
* `Engine.run`    a list of events.
-/

namespace IssueQuery.Engine

/-- Waits for the graph on behalf of a load. -/
def awaitGraph (s : State) (graphLoad load : Nat) : State :=
  let s := s.modifyLoad load fun l => { l with graphLoad := some graphLoad }
  { s with graphWaiters := s.graphWaiters ++ [(graphLoad, load)] }

/-- A shared load gets the graph that is kept, waits for the one under way, or fetches one. -/
def requestGraph (cfg : Settings) (store : Store) (s : State) (load : Nat) : State :=
  match s.graphs.request true () (some cfg.ttl) s.now with
  | (.hit graph, graphs) => { s with graphs := graphs }.schedule 0 (.resume load (.ok graph))
  | (.joined g, graphs) => awaitGraph { s with graphs := graphs } g load
  | (.starts g, graphs) =>
    -- the graph is fetched at once, but its load ends in a later turn
    let (graph, s) := staged .graph (loadGraph store) { s with graphs := graphs }
    awaitGraph (s.schedule 0 (.settleGraph g graph)) g load

/-- A load of its own fetches a graph of its own. -/
def fetchOwnGraph (store : Store) (s : State) (load : Nat) : State :=
  let (graph, s) := staged .graph (loadGraph store) s
  s.schedule 2 (.resume load graph)

/-- Ends a load that needs no graph. It takes more turns if the query expands, although there is
nothing to expand. -/
def concludeEarly (s : State) (l : Load) (expanding : Bool) (outcome : Except LoadFailure Outcome) :
    State :=
  match l.control with
  | .shared _ => s.schedule (if expanding then 2 else 0) (.settle l.id outcome)
  | .own call _ => s.schedule (if expanding then 3 else 2) (.finish call outcome)

/-- Starts a load: fetches the issues that the query selects, and turns to the graph if there is
something to expand. -/
def startLoad (cfg : Settings) (store : Store) (s : State) (l : Load) : State :=
  let (base, s) := fetchBase store l.id l.query { s with loads := s.loads ++ [l] }
  match base, l.query.expansion with
  | .error e, _ => concludeEarly s l false (.error e)
  | .ok base, none => concludeEarly s l false (.ok ⟨base, none⟩)
  | .ok [], some e => concludeEarly s l true (.ok ⟨[], some (emptyReport e 0)⟩)
  | .ok base, some _ =>
    let s := s.modifyLoad l.id fun l => { l with base := base }
    -- a signal may have aborted while the store was asked
    match s.calledOff? l.id with
    | some (signal, reason) => s.schedule 0 (.resume l.id (.error (.aborted signal reason)))
    | none =>
      match l.control with
      | .shared _ => requestGraph cfg store s l.id
      | .own .. => fetchOwnGraph store s l.id

/-- A call asks to be told the outcome of a load. One with a signal can be turned away from now on,
unless the signal has aborted already. -/
def join (s : State) (call load : Nat) : State :=
  let signal := (s.calls[call]?).bind Call.signal
  let listening := signal.isSome && (s.reason? signal).isNone
  let s := s.modifyCall call fun c => { c with load := some load, listening := listening }
  match signal with
  -- a call that can be turned away asks at once, any other one in the next turn
  | some _ => s.modifyLoad load fun l => { l with subscribers := l.subscribers ++ [call] }
  | none => s.schedule 0 (.subscribe call)

/-- A call whose query is fit gets a kept result or waits for a load. -/
def requestShared (cfg : Settings) (store : Store) (s : State) (call : Nat) (text : Text)
    (q : Query) : State :=
  match s.queries.request true text (some cfg.ttl) s.now with
  | (.hit outcome, queries) => { s with queries := queries }.schedule 0 (.finish call (.ok outcome))
  | (.joined load, queries) => join { s with queries := queries } call load
  | (.starts load, queries) =>
    let l : Load := ⟨load, q, .shared none, [], none, [], none⟩
    join (startLoad cfg store { s with queries := queries } l) call load

/-- A call whose query is fit starts a load of its own. -/
def requestOwn (cfg : Settings) (store : Store) (s : State) (call : Nat) (signal : Option Text)
    (q : Query) : State :=
  let (load, queries) := s.queries.startUnshared
  startLoad cfg store { s with queries := queries } ⟨load, q, .own call signal, [], none, [], none⟩

/-- The query of a text, if it has one that makes sense. -/
def readQuery (text : Text) : Except QueryFailure Query := do
  let q ← (Query.parse text).mapError .parse
  q.check.mapError .validate
  return q

/-- Adds an item to a list that does not have it. -/
def addNew (items : List Text) (item : Text) : List Text :=
  if items.contains item then items else items ++ [item]

/-- Makes a call. Its number is the number of calls before it. -/
def call (cfg : Settings) (store : Store) (s : State) (text : Text) (signal : Option Text) :
    State :=
  let id := s.calls.length
  let s := { s with calls := s.calls ++ [⟨text, signal, s.now, none, false, none⟩] }
  match readQuery text with
  | .error failure => finishWith cfg s id (.error (.failed text failure))
  | .ok q =>
    -- noted even if the call gets no further
    let s := if q.expansion.isSome then { s with expanding := addNew s.expanding text } else s
    match s.reason? signal with
    | some reason => s.settleCall id (.error (.aborted reason))
    | none =>
      if cfg.disabled then requestOwn cfg store s id signal q
      else requestShared cfg store s id text q

/-! ## Events -/

/-- What happens to an engine. -/
inductive Event where
  | call (text : Text) (signal : Option Text)
  | tick
  | abort (signal reason : Text)
  | invalidate
  | invalidateGraph
  | advance (span : Time)
  | close
deriving DecidableEq, Repr, Inhabited

/-- One event. -/
def step (cfg : Settings) (store : Store) (s : State) : Event → State
  | .call text signal => call cfg store s text signal
  | .tick => tick cfg store s
  | .abort signal reason => s.abort signal reason
  | .invalidate => s.invalidate
  | .invalidateGraph => s.invalidateGraph
  | .advance span => s.advance span
  | .close => s.close

/-- The state after a list of events. -/
def run (cfg : Settings) (store : Store) (s : State) (events : List Event) : State :=
  events.foldl (step cfg store) s

/-- What a call got, once it has got it. -/
def State.result? (s : State) (call : Nat) : Option (Except Rejection Result) :=
  (s.calls[call]?).bind Call.settled

end IssueQuery.Engine
