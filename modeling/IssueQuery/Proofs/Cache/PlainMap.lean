import IssueQuery.Proofs.Cache.Holds
import IssueQuery.Proofs.Number.Order

/-!
# A cache is a map with deadlines

`PlainMap` is what a cache with deadlines is meant to be: a map from keys to values with deadlines
that never drops an entry because of its deadline. A sweep does nothing to it, and neither do the
clock, a read or closing. A cache gives the same answers, whatever it drops along the way.

* `TtlCache.live?`, `PlainMap.live?` the entry at a key that counts at a time;
* `Pruned`, `pruned_get`, … entries past their deadline may go, for a deadline that has passed stays
  passed: what counts, now and at any later time, is the same;
* `Agrees` the same entries count in a cache and in a map, from now on;
* `agrees_perform` one operation gives the same in both and leaves them in agreement;
* `run_eq_plain` so does every sequence of operations, and what the cache keeps is at least what
  counts.
-/

namespace IssueQuery

/-! ## Operations and the map -/

namespace TtlCache

/-- What can be asked of a cache; the last one moves the clock. -/
inductive Op (κ ν : Type) where
  | set (k : κ) (v : ν) (ttl : Option Time)
  | get (k : κ)
  | getWithRefresh (k : κ) (ttl : Option Time)
  | getMultiple (ks : List κ)
  | delete (ks : List κ)
  | flush
  | deleteExpired
  | close
  | advance (later : Time)

/-- What comes back. -/
inductive Reply (κ ν : Type) where
  | done
  | value (v : Option ν)
  | values (found : Option (List (κ × ν)))
deriving DecidableEq

variable {κ ν : Type}

/-- What the clock shows behind an operation. -/
def Op.clock (now : Time) : Op κ ν → Time
  | .advance later => later
  | _ => now

/-- No time to live is negative, and the clock does not run back. -/
def Op.Timely (now : Time) : Op κ ν → Prop
  | .set _ _ ttl | .getWithRefresh _ ttl => ∀ t ∈ ttl, 0 ≤ t
  | .advance later => now ≤ later
  | _ => True

/-- So for one operation after the other. -/
def Timely (now : Time) : List (Op κ ν) → Prop
  | [] => True
  | op :: rest => op.Timely now ∧ Timely (op.clock now) rest

/-- What comes back of operations performed one after the other, and where they lead. -/
def Op.run {σ : Type} (perform : σ → Time → Op κ ν → Reply κ ν × σ) (s : σ) (now : Time) :
    List (Op κ ν) → List (Reply κ ν) × σ × Time
  | [] => ([], s, now)
  | op :: rest =>
    let (reply, s) := perform s now op
    let (replies, last) := Op.run perform s (op.clock now) rest
    (reply :: replies, last)

theorem Op.run_cons {σ : Type} (perform : σ → Time → Op κ ν → Reply κ ν × σ) (s : σ) (now : Time)
    (op : Op κ ν) (rest : List (Op κ ν)) :
    Op.run perform s now (op :: rest) =
      ((perform s now op).1 :: (Op.run perform (perform s now op).2 (op.clock now) rest).1,
        (Op.run perform (perform s now op).2 (op.clock now) rest).2) := rfl

variable [DecidableEq κ]

/-- An operation on a cache. -/
def perform (c : TtlCache κ ν) (now : Time) : Op κ ν → Reply κ ν × TtlCache κ ν
  | .set k v ttl => (.done, c.set k v ttl now)
  | .get k => let (v, c) := c.get k now; (.value v, c)
  | .getWithRefresh k ttl => let (v, c) := c.getWithRefresh k ttl now; (.value v, c)
  | .getMultiple ks => let (found, c) := c.getMultiple ks now; (.values found, c)
  | .delete ks => (.done, c.delete ks)
  | .flush => (.done, c.flush)
  | .deleteExpired => (.done, c.deleteExpired now)
  | .close => (.done, c.close)
  | .advance later => (.done, c.advance later)

end TtlCache

/-- A map from keys to values with deadlines. Entries past their deadline stay in it. -/
structure PlainMap (κ ν : Type) where
  defaultTtl : Time
  entry : κ → Option (Stored ν)

namespace PlainMap

variable {κ ν : Type}

/-- The map without entries. -/
def new (defaultTtl : Option Time) : PlainMap κ ν :=
  ⟨defaultTtl.getD TtlCache.usualTtl, fun _ => none⟩

/-- The entry at a key if it is live: its deadline, if it has one, is strictly after `now`. -/
def live? (m : PlainMap κ ν) (k : κ) (now : Time) : Option (Stored ν) :=
  (m.entry k).filter fun e => e.deadline.all fun t => now < t

/-- The deadline of an entry that is written now: none for a time to live of 0. -/
def deadline (m : PlainMap κ ν) (ttl : Option Time) (now : Time) : Option Time :=
  let ttl := ttl.getD m.defaultTtl
  if ttl.isZero then none else some (now + ttl)

variable [DecidableEq κ]

/-- Sets the entry at a key. -/
def write (m : PlainMap κ ν) (k : κ) (e : Stored ν) : PlainMap κ ν :=
  { m with entry := fun j => if j = k then some e else m.entry j }

/-- An operation on the map. Reads change nothing, but a refresh moves the deadline of a live entry;
sweeping, closing and the clock change nothing either. -/
def perform (m : PlainMap κ ν) (now : Time) : TtlCache.Op κ ν → TtlCache.Reply κ ν × PlainMap κ ν
  | .set k v ttl => (.done, m.write k ⟨v, m.deadline ttl now⟩)
  | .get k => (.value ((m.live? k now).map Stored.value), m)
  | .getWithRefresh k ttl =>
    match m.live? k now with
    | none => (.value none, m)
    | some e => (.value (some e.value), m.write k { e with deadline := m.deadline ttl now })
  | .getMultiple ks =>
    let found := (firstOccurrences ks).filterMap fun k => (m.live? k now).map fun e => (k, e.value)
    (.values (if found.isEmpty then none else some found), m)
  | .delete ks => (.done, { m with entry := fun k => if k ∈ ks then none else m.entry k })
  | .flush => (.done, { m with entry := fun _ => none })
  | .deleteExpired | .close | .advance _ => (.done, m)

end PlainMap

/-! ## What counts in a cache -/

namespace OrderedMap

variable {κ α : Type} [DecidableEq κ]

theorem lookup_filter {es : List (κ × α)} (h : (es.map Prod.fst).Nodup) (keep : κ → α → Bool)
    (k : κ) : (es.filter fun e => keep e.1 e.2).lookup k = (es.lookup k).filter (keep k) := by
  induction es with
  | nil => rfl
  | cons e rest ih =>
    obtain ⟨i, u⟩ := e
    rw [List.map_cons, List.nodup_cons] at h
    have ih := ih h.2
    by_cases hk : k = i
    · subst hk
      -- no other entry has this key, so nothing comes up in its place
      have hrest : rest.lookup k = none := List.lookup_eq_none_iff.mpr fun e he => by
        have hne : k ≠ e.1 := fun heq => h.1 (List.mem_map.mpr ⟨e, he, heq.symm⟩)
        simpa using hne
      by_cases hkeep : keep k u <;> simp [hkeep, ih, hrest, Option.filter]
    · by_cases hkeep : keep i u <;>
        simp [hkeep, List.lookup_cons, beq_eq_false_iff_ne.2 hk, ih]

/-- Reading behind a filter finds what passes the test. -/
theorem get?_filter (m : OrderedMap κ α) (keep : κ → α → Bool) (k : κ) :
    (m.filter keep).get? k = (m.get? k).filter (keep k) :=
  lookup_filter m.nodup_keys keep k

theorem mem_keys_iff {m : OrderedMap κ α} {k : κ} : k ∈ m.keys ↔ (m.get? k).isSome := by
  constructor
  · intro h
    obtain ⟨⟨i, u⟩, hmem, rfl⟩ := List.mem_map.mp h
    cases hread : m.get? i with
    | none => exact absurd hmem (not_mem_of_get? hread u)
    | some v => rfl
  · intro h
    obtain ⟨v, hv⟩ := Option.isSome_iff_exists.mp h
    exact List.mem_map_of_mem (mem_of_get? hv)

theorem get?_foldl_erase (m : OrderedMap κ α) (ks : List κ) (k : κ) :
    (ks.foldl erase m).get? k = if k ∈ ks then none else m.get? k := by
  induction ks generalizing m with
  | nil => simp
  | cons j rest ih =>
    rw [List.foldl_cons, ih, get?_erase]
    by_cases hk : k = j <;> simp [hk]

end OrderedMap

/-- A deadline that has passed stays passed. -/
theorem Stored.isLive_of_later {ν : Type} {e : Stored ν} {now later : Time} (hle : now ≤ later)
    (h : e.isLive later) : e.isLive now := by
  unfold isLive at h ⊢
  split
  · rfl
  · rename_i t ht
    rw [ht] at h
    simp only [Bool.not_eq_true', decide_eq_false_iff_not] at h ⊢
    exact fun hpassed => h (Number.le_trans hpassed hle)

/-- A deadline that is a number has not passed exactly if it is yet to come. -/
theorem Stored.isLive_eq {ν : Type} {e : Stored ν} {now : Time} (hnow : now ≠ .notANumber)
    (h : ∀ t ∈ e.deadline, t ≠ .notANumber) :
    e.isLive now = e.deadline.all fun t => now < t := by
  unfold isLive
  split
  · rename_i hnone
    rw [hnone]
    rfl
  · rename_i t ht
    have hiff := Number.not_le_iff (h t ht) hnow
    rw [ht, Option.all_some, ← decide_not]
    exact decide_eq_decide.mpr hiff

namespace Sweep

theorem lastFrom_le {interval now t : Time} (bound : Nat) (h : t ≤ now) :
    lastFrom interval now bound t ≤ now := by
  induction bound generalizing t with
  | zero => exact h
  | succ bound ih =>
    unfold lastFrom
    split
    · rename_i hnext
      exact ih hnext
    · exact h

theorem lastBy_le {s : Sweep} {now t : Time} (h : s.lastBy now = some t) : t ≤ now := by
  unfold lastBy at h
  split at h
  · rename_i hdue
    obtain rfl := Option.some.inj h
    exact lastFrom_le _ hdue
  · exact nomatch h

end Sweep

namespace TtlCache

variable {κ ν : Type} [DecidableEq κ] {c c' c'' : TtlCache κ ν} {j k : κ} {v : ν}
  {now later : Time} {ttl : Option Time}

/-- The entry at a key if it is live. -/
def live? (c : TtlCache κ ν) (k : κ) (now : Time) : Option (Stored ν) :=
  (c.entries.get? k).filter fun e => e.isLive now

theorem get_eq (c : TtlCache κ ν) (k : κ) (now : Time) :
    (c.get k now).1 = (c.live? k now).map Stored.value := by
  unfold get live?
  split
  · rename_i hnone
    simp [hnone]
  · rename_i e he
    split <;> rename_i hlive <;> simp [he, hlive, Option.filter]

/-- A cache is another one less entries that do not count any more. -/
structure Pruned (c c' : TtlCache κ ν) (now : Time) : Prop where
  defaultTtl : c'.defaultTtl = c.defaultTtl
  live : ∀ later, now ≤ later → ∀ k, c'.live? k later = c.live? k later

theorem Pruned.refl (c : TtlCache κ ν) (now : Time) : c.Pruned c now := ⟨rfl, fun _ _ _ => rfl⟩

theorem Pruned.trans (h : c.Pruned c' now) (h' : c'.Pruned c'' now) : c.Pruned c'' now :=
  ⟨h'.defaultTtl.trans h.defaultTtl,
    fun later hle k => (h'.live later hle k).trans (h.live later hle k)⟩

theorem pruned_get (c : TtlCache κ ν) (k : κ) (now : Time) : c.Pruned (c.get k now).2 now := by
  unfold get
  split
  · exact .refl c now
  · rename_i e he
    split
    · exact .refl c now
    · rename_i hpassed
      refine ⟨rfl, fun later hle j => ?_⟩
      have hgone : ¬ e.isLive later := fun hlive => hpassed (Stored.isLive_of_later hle hlive)
      unfold live?
      rw [OrderedMap.get?_erase]
      by_cases hj : j = k
      · simp [hj, he, hgone, Option.filter]
      · rw [if_neg hj]

theorem getEach_spec (hnow : now ≠ .notANumber) (c : TtlCache κ ν) (ks : List κ) :
    (c.getEach now ks).1 = ks.filterMap (fun k => (c.live? k now).map fun e => (k, e.value)) ∧
      c.Pruned (c.getEach now ks).2 now := by
  induction ks generalizing c with
  | nil => exact ⟨rfl, .refl c now⟩
  | cons k rest ih =>
    have hget := pruned_get c k now
    obtain ⟨hfound, hpruned⟩ := ih (c.get k now).2
    have hsame : ∀ j, (c.get k now).2.live? j now = c.live? j now :=
      hget.live now (Number.le_refl hnow)
    refine ⟨?_, hget.trans hpruned⟩
    show ((c.get k now).1.map fun v => (k, v)).toList ++ ((c.get k now).2.getEach now rest).1 = _
    rw [hfound, get_eq, List.filterMap_cons]
    simp only [hsame, Option.map_map]
    cases c.live? k now <;> rfl

theorem pruned_deleteExpired {t : Time} (c : TtlCache κ ν) (hle : t ≤ now) :
    c.Pruned (c.deleteExpired t) now := by
  refine ⟨rfl, fun later hlater k => ?_⟩
  unfold live? deleteExpired
  rw [OrderedMap.get?_filter, Option.filter_filter]
  congr 1
  funext e
  have hstays : e.isLive later → e.isLive t := Stored.isLive_of_later (Number.le_trans hle hlater)
  cases hlive : e.isLive later <;> simp_all

theorem pruned_close (c : TtlCache κ ν) (now : Time) : c.Pruned c.close now :=
  ⟨rfl, fun _ _ _ => rfl⟩

theorem pruned_advance (c : TtlCache κ ν) (now : Time) : c.Pruned (c.advance now) now := by
  unfold advance
  split
  · exact .refl c now
  · split
    · exact .refl c now
    · rename_i s _ last hlast
      have hswept := pruned_deleteExpired c (Sweep.lastBy_le hlast)
      exact ⟨hswept.defaultTtl, hswept.live⟩

theorem live?_set : (c.set j v ttl now).live? k later =
    if k = j then some (⟨v, c.deadline ttl now⟩ : Stored ν) |>.filter fun e => e.isLive later
      else c.live? k later := by
  unfold live? set
  rw [OrderedMap.get?_insert]
  split <;> rfl

theorem getWithRefresh_eq (c : TtlCache κ ν) (k : κ) (ttl : Option Time) (now : Time) :
    c.getWithRefresh k ttl now = match c.live? k now with
      | none => (none, (c.get k now).2)
      | some e => (some e.value, (c.get k now).2.set k e.value ttl now) := by
  have hread := get_eq c k now
  unfold getWithRefresh
  cases hlive : c.live? k now <;> rw [hlive] at hread <;> split <;> rename_i heq <;>
    simp_all

/-! ## Agreement with the map -/

variable {m : PlainMap κ ν}

/-- From now on the same entries count in a cache and in a map. -/
structure Agrees (c : TtlCache κ ν) (m : PlainMap κ ν) (now : Time) : Prop where
  clock : .infinite true < now
  defaultTtl : c.defaultTtl = m.defaultTtl
  nonnegative : 0 ≤ m.defaultTtl
  live : ∀ later, now ≤ later → ∀ k, c.live? k later = m.live? k later

namespace Agrees

theorem comparable (h : Agrees c m now) : now ≠ .notANumber :=
  (Number.ne_notANumber_of_le h.clock.1).2

/-- What counts right now. -/
theorem current (h : Agrees c m now) (k : κ) : c.live? k now = m.live? k now :=
  h.live now (Number.le_refl h.comparable) k

theorem pruned (h : Agrees c m now) (hpruned : c.Pruned c' now) : Agrees c' m now where
  clock := h.clock
  defaultTtl := hpruned.defaultTtl.trans h.defaultTtl
  nonnegative := h.nonnegative
  live later hle k := (hpruned.live later hle k).trans (h.live later hle k)

theorem passes (h : Agrees c m now) (hle : now ≤ later) : Agrees c m later where
  clock := Number.lt_of_lt_of_le h.clock hle
  defaultTtl := h.defaultTtl
  nonnegative := h.nonnegative
  live last hlast := h.live last (Number.le_trans hle hlast)

/-- A deadline counted from now can be compared with any time. -/
theorem deadline_comparable (h : Agrees c m now) (httl : ∀ t ∈ ttl, 0 ≤ t) :
    ∀ t ∈ m.deadline ttl now, t ≠ .notANumber := by
  have hspan : 0 ≤ ttl.getD m.defaultTtl := by
    cases ttl with
    | none => exact h.nonnegative
    | some t => exact httl t rfl
  intro t ht
  unfold PlainMap.deadline at ht
  dsimp only at ht
  split at ht
  · exact nomatch ht
  · obtain rfl : _ = t := Option.some.inj ht
    exact Number.add_ne_notANumber h.clock hspan

theorem set (h : Agrees c m now) (httl : ∀ t ∈ ttl, 0 ≤ t) :
    Agrees (c.set k v ttl now) (m.write k ⟨v, m.deadline ttl now⟩) now where
  clock := h.clock
  defaultTtl := h.defaultTtl
  nonnegative := h.nonnegative
  live later hle j := by
    have hdeadline : c.deadline ttl now = m.deadline ttl now := by
      unfold TtlCache.deadline PlainMap.deadline
      rw [h.defaultTtl]
    have hlive : (⟨v, m.deadline ttl now⟩ : Stored ν).isLive later =
        (m.deadline ttl now).all fun t => later < t :=
      Stored.isLive_eq (h.passes hle).comparable (h.deadline_comparable httl)
    rw [live?_set, hdeadline]
    unfold PlainMap.live? PlainMap.write
    by_cases hj : j = k
    · simp only [hj, if_true, Option.filter, hlive]
    · simp only [hj, if_false]
      exact h.live later hle j

theorem delete (h : Agrees c m now) (ks : List κ) :
    Agrees (c.delete ks) { m with entry := fun k => if k ∈ ks then none else m.entry k } now where
  clock := h.clock
  defaultTtl := h.defaultTtl
  nonnegative := h.nonnegative
  live later hle k := by
    have hsame := h.live later hle k
    unfold TtlCache.live? PlainMap.live? TtlCache.delete at *
    rw [OrderedMap.get?_foldl_erase]
    by_cases hk : k ∈ ks
    · simp only [hk, if_true]
      rfl
    · simp only [hk, if_false]
      exact hsame

theorem flush (h : Agrees c m now) : Agrees c.flush { m with entry := fun _ => none } now where
  clock := h.clock
  defaultTtl := h.defaultTtl
  nonnegative := h.nonnegative
  live _ _ _ := rfl

end Agrees

/-- What one operation gives, and where it leads. -/
theorem agrees_perform (h : Agrees c m now) {op : Op κ ν} (hop : op.Timely now) :
    (c.perform now op).1 = (m.perform now op).1 ∧
      Agrees (c.perform now op).2 (m.perform now op).2 (op.clock now) := by
  cases op with
  | set k v ttl => exact ⟨rfl, h.set hop⟩
  -- reads and sweeps drop entries that are past their deadline, which the map does not show either
  | get k =>
    have hread := get_eq c k now
    rw [h.current] at hread
    exact ⟨congrArg Reply.value hread, h.pruned (pruned_get c k now)⟩
  | getWithRefresh k ttl =>
    have hread := getWithRefresh_eq c k ttl now
    have hpruned := h.pruned (pruned_get c k now)
    rw [h.current] at hread
    simp only [TtlCache.perform, PlainMap.perform, hread]
    cases m.live? k now with
    | none => exact ⟨rfl, hpruned⟩
    | some e => exact ⟨rfl, hpruned.set hop⟩
  | getMultiple ks =>
    obtain ⟨hfound, hpruned⟩ := getEach_spec h.comparable c (firstOccurrences ks)
    simp only [h.current] at hfound
    refine ⟨?_, h.pruned hpruned⟩
    simp only [TtlCache.perform, PlainMap.perform, TtlCache.getMultiple, hfound]
  | delete ks => exact ⟨rfl, h.delete ks⟩
  | flush => exact ⟨rfl, h.flush⟩
  | deleteExpired =>
    exact ⟨rfl, h.pruned (pruned_deleteExpired c (Number.le_refl h.comparable))⟩
  | close => exact ⟨rfl, h.pruned (pruned_close c now)⟩
  | advance later => exact ⟨rfl, (h.passes hop).pruned (pruned_advance c later)⟩

/-- What operations give one after the other, and where they lead. -/
theorem agrees_run (h : Agrees c m now) {ops : List (Op κ ν)} (hops : Timely now ops) :
    ∃ replies c' m' later, Op.run TtlCache.perform c now ops = (replies, c', later) ∧
      Op.run PlainMap.perform m now ops = (replies, m', later) ∧ Agrees c' m' later := by
  induction ops generalizing c m now with
  | nil => exact ⟨[], c, m, now, rfl, rfl, h⟩
  | cons op rest ih =>
    obtain ⟨hop, hrest⟩ := hops
    obtain ⟨hreply, hnext⟩ := agrees_perform h hop
    obtain ⟨replies, c', m', later, hcache, hmap, hagrees⟩ := ih hnext hrest
    refine ⟨(m.perform now op).1 :: replies, c', m', later, ?_, ?_, hagrees⟩
    · rw [Op.run_cons, hcache, hreply]
    · rw [Op.run_cons, hmap]

theorem agrees_new {start : Time} {defaultTtl : Option Time} (interval : Option Time)
    (hstart : .infinite true < start) (hdefault : ∀ t ∈ defaultTtl, 0 ≤ t) :
    Agrees (.new start defaultTtl interval : TtlCache κ ν) (.new defaultTtl) start where
  clock := hstart
  defaultTtl := rfl
  nonnegative := by
    cases defaultTtl with
    | none => exact (by decide : (0 : Number) ≤ usualTtl)
    | some t => exact hdefault t rfl
  live _ _ _ := rfl

/-- The keys that a sweep leaves are those that are live. -/
theorem Agrees.mem_swept (h : Agrees c m now) :
    k ∈ (c.deleteExpired now).entries.keys ↔ (m.live? k now).isSome := by
  rw [OrderedMap.mem_keys_iff, ← h.current]
  unfold deleteExpired live?
  rw [OrderedMap.get?_filter]

/-- **A cache cannot be told from a map that never drops an entry because of its deadline.**
Whatever is asked of it, the answers are those of the map, however often it is swept. Besides it
keeps at least the live keys, and those alone right after a sweep. -/
theorem run_eq_plain {start : Time} {defaultTtl : Option Time} (interval : Option Time)
    {ops : List (Op κ ν)} (hstart : .infinite true < start) (hdefault : ∀ t ∈ defaultTtl, 0 ≤ t)
    (hops : Timely start ops) :
    ∃ (replies : List (Reply κ ν)) (c : TtlCache κ ν) (m : PlainMap κ ν) (now : Time),
      Op.run TtlCache.perform (.new start defaultTtl interval) start ops = (replies, c, now) ∧
      Op.run PlainMap.perform (.new defaultTtl) start ops = (replies, m, now) ∧
      ∃ live : List κ, live.Nodup ∧ (∀ k, k ∈ live ↔ (m.live? k now).isSome) ∧
        live.length ≤ c.size ∧ (c.deleteExpired now).size = live.length := by
  obtain ⟨replies, c, m, now, hcache, hmap, hagrees⟩ :=
    agrees_run (agrees_new interval hstart hdefault) hops
  refine ⟨replies, c, m, now, hcache, hmap, (c.deleteExpired now).entries.keys,
    (c.deleteExpired now).entries.nodup_keys, fun k => hagrees.mem_swept, ?_, ?_⟩
  · have hkeys : (c.deleteExpired now).entries.keys.length = (c.deleteExpired now).size :=
      List.length_map _
    rw [hkeys]
    exact List.length_filter_le _ _
  · exact (List.length_map _).symm

/-- A refresh just before the deadline counts, one at the deadline does not revive the entry, and a
sweep that is due in between goes unnoticed. -/
theorem run_eq_plain_boundary :
    let ops : List (Op String Nat) :=
      [.set "a" 1 none, .advance 99, .getWithRefresh "a" none, .set "b" 2 (some 0), .advance 199,
        .get "a", .getWithRefresh "a" none, .set "c" 3 (some 2000), .advance 1500,
        .getMultiple ["c", "a", "b", "c"], .close, .delete ["b"], .advance 2199,
        .getMultiple ["b", "c"]]
    ∃ (c : TtlCache String Nat) (m : PlainMap String Nat) (now : Time),
      Op.run TtlCache.perform (.new 0 (some 100) (some 1000)) 0 ops =
        ([.done, .done, .value (some 1), .done, .done, .value none, .value none, .done, .done,
          .values (some [("c", 3), ("b", 2)]), .done, .done, .done, .values none], c, now) ∧
      ∃ live : List String, live.Nodup ∧ (∀ k, k ∈ live ↔ (m.live? k now).isSome) ∧
        live.length ≤ c.size ∧ (c.deleteExpired now).size = live.length := by
  intro ops
  have hops : Timely 0 ops := by
    simp only [ops, Timely, Op.Timely, Op.clock, Option.mem_def, Option.some.injEq, forall_eq']
    decide +kernel
  have hdefault : ∀ t ∈ some (100 : Time), 0 ≤ t := by decide +kernel
  obtain ⟨replies, c, m, now, hcache, hmap, hlive⟩ :=
    run_eq_plain (some 1000) (by decide) hdefault hops
  refine ⟨c, m, now, ?_, hlive⟩
  rw [hcache, Prod.mk.injEq]
  refine ⟨?_, rfl⟩
  have hreplies : replies = (Op.run PlainMap.perform (.new (some 100)) 0 ops).1 := by rw [hmap]
  rw [hreplies]
  decide +kernel

end TtlCache

end IssueQuery
