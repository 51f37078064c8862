import IssueQuery.Cache.Ttl

/-!
# A cache that loads what it lacks

Callers ask for a key. A live value answers at once; otherwise the caller waits for a load, and
callers of one key share a load. Loads are numbered as they start, and the outcome of a load comes
later.

A load is *attached* while new callers of its key may join it. An invalidation detaches it, and so
does the departure of its last caller; from then on its value is not stored. Callers that joined
before keep waiting for it.

* `ReadThrough.request`    answers a caller from the store or a load;
* `ReadThrough.leave`      lets a caller go whose request was called off;
* `ReadThrough.settle`     ends a load, and stores its value if it is attached;
* `ReadThrough.invalidate` forgets a key.
-/

namespace IssueQuery

/-- A load that has not ended. -/
structure Flight (κ : Type) where
  id : Nat
  key : κ
  /-- The time to live of the value, as the caller that started the load asked for it. -/
  ttl : Option Time
  /-- The callers that ever joined. -/
  waiters : Nat
  /-- The callers that left before the end. -/
  departed : Nat
  attached : Bool
deriving DecidableEq, Repr

/-- A cache with the loads under way. -/
structure ReadThrough (κ ν : Type) where
  store : TtlCache κ ν
  flights : List (Flight κ)
  /-- The number of loads ever started, which is the number of the next one. -/
  started : Nat

/-- How a caller gets its value. -/
inductive Answer (ν : Type) where
  | hit (value : ν)
  /-- By a load that another caller started. -/
  | joined (load : Nat)
  /-- By a load that starts now. -/
  | starts (load : Nat)
deriving DecidableEq, Repr

namespace ReadThrough

variable {κ ν : Type} [DecidableEq κ]

/-- No value stored and no load running. -/
def new (store : TtlCache κ ν) : ReadThrough κ ν := ⟨store, [], 0⟩

/-- The load that a caller of a key joins. -/
def attached? (c : ReadThrough κ ν) (k : κ) : Option (Flight κ) :=
  c.flights.find? fun f => f.attached && f.key = k

/-- The load of a number, if it has not ended. -/
def flight? (c : ReadThrough κ ν) (load : Nat) : Option (Flight κ) :=
  c.flights.find? fun f => f.id == load

/-- Changes the load of a number. -/
def modify (c : ReadThrough κ ν) (load : Nat) (change : Flight κ → Flight κ) : ReadThrough κ ν :=
  { c with flights := c.flights.map fun f => if f.id = load then change f else f }

/-- The number of loads that callers may join. -/
def pending (c : ReadThrough κ ν) : Nat := c.flights.countP (·.attached)

/-- The stored value at a key; its deadline moves if `refresh`. -/
def stored (c : ReadThrough κ ν) (refresh : Bool) (k : κ) (ttl : Option Time) (now : Time) :
    Option ν × ReadThrough κ ν :=
  let (v, store) := if refresh then c.store.getWithRefresh k ttl now else c.store.get k now
  (v, { c with store := store })

/-- Makes a caller wait for a key, by the load under way or by a new one. -/
def wait (c : ReadThrough κ ν) (k : κ) (ttl : Option Time) : Answer ν × ReadThrough κ ν :=
  match c.attached? k with
  | some f => (.joined f.id, c.modify f.id fun f => { f with waiters := f.waiters + 1 })
  | none =>
    (.starts c.started,
      { c with
        flights := c.flights ++ [⟨c.started, k, ttl, 1, 0, true⟩]
        started := c.started + 1 })

/-- Numbers a load that is not shared: nobody joins it, and its value is not stored. -/
def startUnshared (c : ReadThrough κ ν) : Nat × ReadThrough κ ν :=
  (c.started, { c with started := c.started + 1 })

/-- Answers a caller from the store, or makes it wait. -/
def request (c : ReadThrough κ ν) (refresh : Bool) (k : κ) (ttl : Option Time) (now : Time) :
    Answer ν × ReadThrough κ ν :=
  match c.stored refresh k ttl now with
  | (some v, c) => (.hit v, c)
  | (none, c) => c.wait k ttl

/-- A caller leaves a load that has not ended. Tells whether it was the last one there, in which
case the load is detached and may be given up. -/
def leave (c : ReadThrough κ ν) (load : Nat) : Bool × ReadThrough κ ν :=
  match c.flight? load with
  | none => (false, c)
  | some f =>
    -- a caller that nobody can turn away is a waiter for ever
    let isLast := f.departed + 1 == f.waiters
    (isLast, c.modify load fun f =>
      { f with departed := f.departed + 1, attached := f.attached && !isLast })

/-- Ends a load with its value, or with none if it failed. -/
def settle (c : ReadThrough κ ν) (load : Nat) (value : Option ν) (now : Time) : ReadThrough κ ν :=
  match c.flight? load with
  | none => c
  | some f =>
    let c := { c with flights := c.flights.filter fun f => f.id != load }
    match value with
    | some v => if f.attached then { c with store := c.store.set f.key v f.ttl now } else c
    | none => c

/-- Drops the value at a key, and detaches its load. -/
def invalidate (c : ReadThrough κ ν) (k : κ) : ReadThrough κ ν :=
  { c with
    store := c.store.delete [k]
    flights := c.flights.map fun f => if f.key = k then { f with attached := false } else f }

/-- Drops every value, and detaches every load. -/
def invalidateAll (c : ReadThrough κ ν) : ReadThrough κ ν :=
  { c with
    store := c.store.flush
    flights := c.flights.map fun f => { f with attached := false } }

/-- Lets the time become `now`. -/
def advance (c : ReadThrough κ ν) (now : Time) : ReadThrough κ ν :=
  { c with store := c.store.advance now }

end ReadThrough

end IssueQuery
