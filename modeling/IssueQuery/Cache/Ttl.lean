import IssueQuery.OrderedMap
import IssueQuery.Time

/-!
# A cache with deadlines

Entries live until a deadline, or for ever. An entry past its deadline is dropped when it is read,
or by a sweep that is due at regular intervals; no read ever sees one. Every operation is told what
time it is.
-/

namespace IssueQuery

/-- A value with the time at which it stops being one; none if it never does. -/
structure Stored (ν : Type) where
  value : ν
  deadline : Option Time
deriving DecidableEq, Repr

/-- Whether the entry still counts. At the deadline it no longer does. -/
def Stored.isLive {ν : Type} (e : Stored ν) (now : Time) : Bool :=
  match e.deadline with
  | none => true
  | some t => !(t ≤ now)

/-- A sweep of a cache, and when it is due next. -/
structure Sweep where
  interval : Time
  due : Time
deriving DecidableEq, Repr

namespace Sweep

/-- The last of the times `t`, `t + interval`, … that is not after `now`; `t` is not after it. At
most `bound` steps are made. -/
def lastFrom (interval now : Time) : (bound : Nat) → (t : Time) → Time
  | 0, t => t
  | bound + 1, t =>
    if t + interval ≤ now then lastFrom interval now bound (t + interval) else t

/-- The last time up to `now` at which the sweep is due, if it is due by then. There are fewer than
`2 ^ 64` times, so as many steps reach any of them that can be reached. -/
def lastBy (s : Sweep) (now : Time) : Option Time :=
  if s.due ≤ now then some (lastFrom s.interval now (Nat.pow 2 64) s.due) else none

end Sweep

/-- A cache whose entries have deadlines. -/
structure TtlCache (κ ν : Type) where
  defaultTtl : Time
  entries : OrderedMap κ (Stored ν)
  sweep : Option Sweep

namespace TtlCache

variable {κ ν : Type} [DecidableEq κ]

/-- The time to live of entries unless something else is asked for: five minutes. -/
def usualTtl : Time := 300000

/-- The interval between sweeps unless something else is asked for: ten minutes. -/
def usualInterval : Time := 600000

/-- An empty cache. It is swept only if the interval is positive. -/
def new (now : Time) (defaultTtl interval : Option Time) : TtlCache κ ν :=
  let interval := interval.getD usualInterval
  ⟨defaultTtl.getD usualTtl, OrderedMap.empty,
    if 0 < interval then some ⟨interval, now + interval⟩ else none⟩

/-- The number of entries, those past their deadline included. -/
def size (c : TtlCache κ ν) : Nat := c.entries.size

/-- The deadline of an entry that is written now. A time to live of 0 is for ever. -/
def deadline (c : TtlCache κ ν) (ttl : Option Time) (now : Time) : Option Time :=
  let ttl := ttl.getD c.defaultTtl
  if ttl.isZero then none else some (now + ttl)

/-- The live value at a key; an entry past its deadline is dropped. -/
def get (c : TtlCache κ ν) (k : κ) (now : Time) : Option ν × TtlCache κ ν :=
  match c.entries.get? k with
  | none => (none, c)
  | some e =>
    if e.isLive now then (some e.value, c) else (none, { c with entries := c.entries.erase k })

/-- Writes a value, with a deadline counted from now. -/
def set (c : TtlCache κ ν) (k : κ) (v : ν) (ttl : Option Time) (now : Time) : TtlCache κ ν :=
  { c with entries := c.entries.insert k ⟨v, c.deadline ttl now⟩ }

/-- The live value at a key, which gets a new deadline counted from now. -/
def getWithRefresh (c : TtlCache κ ν) (k : κ) (ttl : Option Time) (now : Time) :
    Option ν × TtlCache κ ν :=
  match c.get k now with
  | (some v, c) => (some v, c.set k v ttl now)
  | (none, c) => (none, c)

/-- Reads keys one after the other and gives the live entries. -/
def getEach (c : TtlCache κ ν) (now : Time) : List κ → List (κ × ν) × TtlCache κ ν
  | [] => ([], c)
  | k :: rest =>
    let (v, c) := c.get k now
    let (found, c) := getEach c now rest
    ((v.map fun v => (k, v)).toList ++ found, c)

/-- The live entries among some keys in the order of their first request, or nothing if there is
none. -/
def getMultiple (c : TtlCache κ ν) (ks : List κ) (now : Time) :
    Option (List (κ × ν)) × TtlCache κ ν :=
  let (found, c) := c.getEach now (firstOccurrences ks)
  (if found.isEmpty then none else some found, c)

/-- Drops the entries at some keys. -/
def delete (c : TtlCache κ ν) (ks : List κ) : TtlCache κ ν :=
  { c with entries := ks.foldl OrderedMap.erase c.entries }

/-- Drops all entries. -/
def flush (c : TtlCache κ ν) : TtlCache κ ν := { c with entries := OrderedMap.empty }

/-- Drops the entries past their deadline. -/
def deleteExpired (c : TtlCache κ ν) (now : Time) : TtlCache κ ν :=
  { c with entries := c.entries.filter fun _ e => e.isLive now }

/-- Stops the sweep. The cache stays usable. -/
def close (c : TtlCache κ ν) : TtlCache κ ν := { c with sweep := none }

/-- Lets the time become `now`. Of the sweeps that fall due on the way only the last one counts, as
it drops whatever the others would. -/
def advance (c : TtlCache κ ν) (now : Time) : TtlCache κ ν :=
  match c.sweep with
  | none => c
  | some s =>
    match s.lastBy now with
    | none => c
    | some last =>
      { c.deleteExpired last with sweep := some { s with due := last + s.interval } }

end TtlCache

end IssueQuery
