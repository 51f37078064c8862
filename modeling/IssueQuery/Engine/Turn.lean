import IssueQuery.Engine.Fetch

/-!
# The engine's turns

What each job on the agenda does, and running the agenda until nothing is left to do. The outcome
of a load reaches its callers in the order in which they asked to be told; a call that can be turned
away is told one turn earlier, so that it can stop listening before it finishes.

* `Engine.perform` one job;
* `Engine.tick`    the first job of the agenda, or its postponement;
* `Engine.drain`   turns until the agenda is empty.
-/

namespace IssueQuery.Engine

/-- Ends a load in a later turn: its callers are told, or its one caller finishes. -/
def conclude (s : State) (l : Load) (outcome : Except LoadFailure Outcome) : State :=
  match l.control with
  | .shared _ => s.schedule 1 (.settle l.id outcome)
  | .own call _ => s.schedule 2 (.finish call outcome)

/-- A load goes on with the graph, or ends because there is none. -/
def resume (cfg : Settings) (store : Store) (s : State) (id : Nat)
    (graph : Except LoadFailure Graph) : State :=
  match s.load? id with
  | none => s
  | some l =>
    match graph, l.query.expansion with
    | .error e, _ => conclude s l (.error e)
    | .ok _, none => conclude s l (.ok ⟨l.base, none⟩)
    | .ok graph, some e =>
      let (outcome, s) := expand cfg store id l.base e graph s
      conclude s l outcome

/-- Tells a call the outcome of its load. A call without a signal just finishes. -/
def notify (outcome : Except LoadFailure Outcome) (s : State) (call : Nat) : State :=
  match (s.calls[call]?).bind Call.signal with
  | some _ => s.schedule 0 (.deliver call outcome)
  | none => s.schedule 1 (.finish call outcome)

/-- A load ends. Its outcome is kept if it may be, and the callers are told. -/
def settle (s : State) (id : Nat) (outcome : Except LoadFailure Outcome) : State :=
  let s := { s with queries := s.queries.settle id outcome.toOption s.now }
  let subscribers := ((s.load? id).map Load.subscribers).getD []
  let s := s.modifyLoad id fun l => { l with ended := some outcome }
  subscribers.foldl (notify outcome) s

/-- The load of the graph ends. It is kept if it may be, and the loads that wait are told. -/
def settleGraph (s : State) (id : Nat) (graph : Except LoadFailure Graph) : State :=
  let s := { s with graphs := s.graphs.settle id graph.toOption s.now }
  (s.graphWaiters.filter fun w => w.1 == id).foldl
    (fun s w => s.schedule 0 (.deliverGraph w.2 graph)) s

/-- A load that still waits for the graph goes on with it a turn later. -/
def deliverGraph (s : State) (id : Nat) (graph : Except LoadFailure Graph) : State :=
  if ((s.load? id).bind Load.graphLoad).isSome then
    let s := s.modifyLoad id fun l => { l with graphLoad := none }
    let s := { s with graphWaiters := s.graphWaiters.filter fun w => w.2 != id }
    s.schedule 1 (.resume id graph)
  else s

/-- A call without a signal asks to be told the outcome of its load, which may have ended. -/
def subscribe (s : State) (call : Nat) : State :=
  match ((s.calls[call]?).bind Call.load).bind s.load? with
  | none => s
  | some l =>
    match l.ended with
    | some outcome => s.schedule 1 (.finish call outcome)
    | none => s.modifyLoad l.id fun l => { l with subscribers := l.subscribers ++ [call] }

/-- A call with a signal is told the outcome of its load, and cannot be turned away any more. -/
def deliver (s : State) (call : Nat) (outcome : Except LoadFailure Outcome) : State :=
  if ((s.calls[call]?).bind Call.settled).isSome then s
  else (s.modifyCall call fun c => { c with listening := false }).schedule 1 (.finish call outcome)

/-- What a call gets for the outcome of its load: the reason of its signal if that has aborted by
now, unless its load failed for another cause. -/
def resultOf (s : State) (c : Call) (outcome : Except LoadFailure Outcome) :
    Except Rejection Result :=
  match outcome, s.reason? c.signal with
  -- too late for the load, but not for the call
  | .ok _, some reason => .error (.aborted reason)
  | .ok out, none => .ok ⟨c.text, out, s.now - c.started⟩
  -- the load may have been called off by another caller's signal
  | .error (.aborted signal reason), some _ =>
    if c.signal = some signal then .error (.aborted reason)
    else .error (.failed c.text (.execute (.aborted signal reason)))
  | .error e, _ => .error (.failed c.text (.execute e))

/-- Writes to the log what became of a call. Of a call that was called off nothing is said. -/
def logResult (cfg : Settings) (s : State) (result : Except Rejection Result) : State :=
  match result with
  | .ok r =>
    s.log cfg .debug "query complete"
      [("query", .str r.text), ("count", Issue.jsonInt r.outcome.issues.length),
        ("elapsed_ms", .num r.elapsed)]
  | .error (.failed text failure) =>
    s.log cfg .error failure.headline
      [("query", .str text), ("error", .str failure.message)]
  | .error (.aborted _) => s

/-- Gives a call its result, and writes to the log what became of it. -/
def finishWith (cfg : Settings) (s : State) (call : Nat) (result : Except Rejection Result) :
    State :=
  logResult cfg (s.settleCall call result) result

/-- A call gets its result, unless it was turned away. -/
def finish (cfg : Settings) (s : State) (call : Nat) (outcome : Except LoadFailure Outcome) :
    State :=
  match s.calls[call]? with
  | none => s
  | some c => if c.settled.isSome then s else finishWith cfg s call (resultOf s c outcome)

/-- Does a job. -/
def perform (cfg : Settings) (store : Store) (s : State) : Job → State
  | .subscribe call => subscribe s call
  | .settle load outcome => settle s load outcome
  | .settleGraph graphLoad graph => settleGraph s graphLoad graph
  | .deliverGraph load graph => deliverGraph s load graph
  | .resume load graph => resume cfg store s load graph
  | .deliver call outcome => deliver s call outcome
  | .finish call outcome => finish cfg s call outcome

/-- The turn of the first job: it is done, or goes to the back with one turn less to let pass. -/
def tick (cfg : Settings) (store : Store) (s : State) : State :=
  match s.agenda with
  | [] => s
  | (0, job) :: rest => perform cfg store { s with agenda := rest } job
  | (turns + 1, job) :: rest => { s with agenda := rest ++ [(turns, job)] }

/-- A number of turns. -/
def ticks (cfg : Settings) (store : Store) : Nat → State → State
  | 0, s => s
  | n + 1, s => if s.agenda.isEmpty then s else ticks cfg store n (tick cfg store s)

/-- More turns than the calls and loads of a state can need. -/
def patience (s : State) : Nat := 16 * (s.calls.length + s.loads.length + s.agenda.length + 1)

/-- Lets everything happen that can. -/
def drain (cfg : Settings) (store : Store) (s : State) : State :=
  ticks cfg store (patience s) s

end IssueQuery.Engine
