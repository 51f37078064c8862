import IssueQuery.Cache.ReadThrough
import IssueQuery.Text

/-!
# Callers of a read-through cache over time

A session is a read-through cache with its callers, its loads and a clock. Events come one at a
time: requests, ends of loads, aborts, invalidations. Each event has its full effect before the next
one.

Callers may carry a signal. When a signal aborts, every caller that carries it and still waits is
turned away with the reason; a load is aborted with the reason of the last of its callers to go. A
disabled cache neither stores nor shares: each request is a load, which has the signal of its
caller.

* `Session.step` one event, with what it made happen;
* `Session.run`  a list of events from the start.
-/

namespace IssueQuery.Session

/-- What happens to a session. -/
inductive Event (κ ι ν : Type) where
  /-- A caller asks for a key; the deadline of a stored value moves if `refresh`. -/
  | request (refresh : Bool) (key : κ) (input : ι) (ttl : Option Time) (signal : Option Text)
  | resolve (load : Nat) (value : ν)
  | reject (load : Nat) (message : Text)
  | abort (signal reason : Text)
  | invalidate (key : κ)
  | invalidateAll
  | advance (span : Time)
  /-- Writes to the store behind the cache. -/
  | seed (key : κ) (value : ν) (ttl : Option Time)
  /-- Reads from the store behind the cache. -/
  | peek (key : κ)

/-- What a caller gets in the end: a value, or the message of a failure or of an abort. -/
abbrev Outcome (ν : Type) := Except Text ν

/-- What an event made happen, each list in order of time. -/
structure Effects (κ ι ν : Type) where
  /-- The loads that started, with key and input. -/
  started : List (Nat × κ × ι) := []
  /-- The loads that were aborted, with the reason. -/
  aborted : List (Nat × Text) := []
  /-- The callers that got their outcome. -/
  settled : List (Nat × Outcome ν) := []
  /-- What a look at the store found. -/
  peeked : Option (Option ν) := none

/-- A caller that waits for a load. -/
structure Waiter where
  caller : Nat
  load : Nat
  signal : Option Text
deriving DecidableEq, Repr

/-- A load of a disabled cache, which has its caller's signal. -/
structure DirectLoad where
  load : Nat
  signal : Option Text
deriving DecidableEq, Repr

/-- How a session behaves throughout. -/
structure Mode where
  /-- Neither store nor share. -/
  disabled : Bool
  /-- Loads fail as soon as they are aborted, with the reason. -/
  abortable : Bool
deriving DecidableEq, Repr

/-- A session at some point of time. -/
structure State (κ ν : Type) where
  now : Time
  cache : ReadThrough κ ν
  /-- The number of callers so far. -/
  callers : Nat
  /-- The callers that wait, in the order in which they came. -/
  waiting : List Waiter
  /-- The loads of a disabled cache. -/
  direct : List DirectLoad
  /-- The signals that have aborted, with their reasons. -/
  signals : List (Text × Text)

variable {κ ι ν : Type} [DecidableEq κ]

/-- The session before any event, over a store with a time to live and an interval between sweeps. -/
def State.new (now : Time) (ttl interval : Option Time) : State κ ν :=
  ⟨now, ReadThrough.new (TtlCache.new now ttl interval), 0, [], [], []⟩

/-- The session before any event, over a store with the usual time to live that is not swept. -/
def State.initial (now : Time) : State κ ν := new now none (some 0)

/-- The reason of a signal, if it has aborted. -/
def State.reason? (s : State κ ν) (signal : Option Text) : Option Text :=
  signal.bind fun name => s.signals.lookup name

/-- Ends a load: its callers get the outcome, and the cache the value. -/
def State.settle (s : State κ ν) (load : Nat) (outcome : Outcome ν) :
    List (Nat × Outcome ν) × State κ ν :=
  let (done, waiting) := s.waiting.partition fun w => w.load == load
  (done.map fun w => (w.caller, outcome),
    { s with waiting := waiting, cache := s.cache.settle load outcome.toOption s.now })

/-- A new caller of a disabled cache. -/
def State.requestDirect (s : State κ ν) (key : κ) (input : ι) (signal : Option Text) :
    Effects κ ι ν × State κ ν :=
  let (load, cache) := s.cache.startUnshared
  -- the load has the signal, so the caller waits for the load whatever happens
  ({ started := [(load, key, input)] },
    { s with
      cache := cache
      waiting := s.waiting ++ [⟨s.callers, load, none⟩]
      direct := s.direct ++ [⟨load, signal⟩] })

/-- A new caller whose signal has not aborted. -/
def State.requestShared (s : State κ ν) (refresh : Bool) (key : κ) (input : ι) (ttl : Option Time)
    (signal : Option Text) : Effects κ ι ν × State κ ν :=
  match s.cache.request refresh key ttl s.now with
  | (.hit v, cache) => ({ settled := [(s.callers, .ok v)] }, { s with cache := cache })
  | (.joined load, cache) =>
    ({}, { s with cache := cache, waiting := s.waiting ++ [⟨s.callers, load, signal⟩] })
  | (.starts load, cache) =>
    ({ started := [(load, key, input)] },
      { s with
        cache := cache
        waiting := s.waiting ++ [⟨s.callers, load, signal⟩] })

/-- A new caller. One whose signal has aborted is turned away at once. -/
def State.request (mode : Mode) (s : State κ ν) (refresh : Bool) (key : κ) (input : ι)
    (ttl : Option Time) (signal : Option Text) : Effects κ ι ν × State κ ν :=
  match s.reason? signal with
  | some reason => ({ settled := [(s.callers, .error reason)] }, s)
  | none =>
    if mode.disabled then s.requestDirect key input signal
    else s.requestShared refresh key input ttl signal

/-- Turns one caller away, and aborts its load if nobody else waits for it. -/
def State.turnAway (s : State κ ν) (w : Waiter) (reason : Text) : List (Nat × Text) × State κ ν :=
  let (isLast, cache) := s.cache.leave w.load
  let s := { s with cache := cache, waiting := s.waiting.filter fun v => v.caller != w.caller }
  (if isLast then [(w.load, reason)] else [], s)

/-- Turns callers away one after the other. -/
def State.turnAwayAll (s : State κ ν) (reason : Text) :
    List Waiter → List (Nat × Text) × State κ ν
  | [] => ([], s)
  | w :: rest =>
    let (aborted, s) := s.turnAway w reason
    let (more, s) := State.turnAwayAll s reason rest
    (aborted ++ more, s)

/-- Ends loads one after the other with a failure. -/
def State.failAll (s : State κ ν) (reason : Text) :
    List Nat → List (Nat × Outcome ν) × State κ ν
  | [] => ([], s)
  | load :: rest =>
    let (settled, s) := s.settle load (.error reason)
    let (more, s) := State.failAll s reason rest
    (settled ++ more, s)

/-- A signal aborts: callers that carry it are turned away, loads left alone are aborted, and
aborted loads fail if they are abortable. -/
def State.abort (mode : Mode) (s : State κ ν) (signal reason : Text) :
    Effects κ ι ν × State κ ν :=
  if (s.reason? (some signal)).isSome then ({}, s)
  else
    let s := { s with signals := s.signals ++ [(signal, reason)] }
    let leaving := s.waiting.filter fun w => w.signal = some signal
    let (alone, s) := s.turnAwayAll reason leaving
    let own := (s.direct.filter fun d => d.signal = some signal).map fun d => (d.load, reason)
    let aborted := alone ++ own
    let (failed, s) := if mode.abortable then s.failAll reason (aborted.map Prod.fst) else ([], s)
    ({ aborted := aborted
       settled := leaving.map (fun w => (w.caller, .error reason)) ++ failed }, s)

/-- One event, with what it made happen. -/
def step (mode : Mode) (s : State κ ν) : Event κ ι ν → Effects κ ι ν × State κ ν
  | .request refresh key input ttl signal =>
    let (effects, s) := s.request mode refresh key input ttl signal
    (effects, { s with callers := s.callers + 1 })
  | .resolve load value =>
    let (settled, s) := s.settle load (.ok value)
    ({ settled := settled }, s)
  | .reject load message =>
    let (settled, s) := s.settle load (.error message)
    ({ settled := settled }, s)
  | .abort signal reason => s.abort mode signal reason
  | .invalidate key => ({}, { s with cache := s.cache.invalidate key })
  | .invalidateAll => ({}, { s with cache := s.cache.invalidateAll })
  | .advance span =>
    ({}, { s with now := s.now + span, cache := s.cache.advance (s.now + span) })
  | .seed key value ttl =>
    ({}, { s with cache := { s.cache with store := s.cache.store.set key value ttl s.now } })
  | .peek key =>
    let (v, cache) := s.cache.stored false key none s.now
    ({ peeked := some v }, { s with cache := cache })

/-- A list of events, with what each made happen and the state behind it. -/
def run (mode : Mode) (s : State κ ν) : List (Event κ ι ν) → List (Effects κ ι ν × State κ ν)
  | [] => []
  | e :: rest =>
    let (effects, s) := step mode s e
    (effects, s) :: run mode s rest

end IssueQuery.Session
