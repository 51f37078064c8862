import Mathlib.Data.List.Nodup
import IssueQuery.Cache.ReadThrough
import IssueQuery.Proofs.Cache.Holds

/-!
# Loads of a read-through cache

What each operation does to the loads under way. The number of callers that wait for a load is not
kept anywhere: it is what a load's counters of callers that came and left have to agree with, and
`ReadThrough.Tallied` says that they do.

* `ReadThrough.Tallied`         the counters agree with the callers that wait;
* `ReadThrough.leave_isLast`    so the last caller to leave is told from the others;
* `ReadThrough.attached?_leave`, `ReadThrough.attached?_settle` what happens to a load leaves the
  load that callers join alone, if it is another one.
-/

namespace IssueQuery.ReadThrough

variable {κ ν : Type} {c : ReadThrough κ ν} {k : κ} {load : Nat} {f : Flight κ}

/-! ## Finding loads -/

theorem mem_of_flight? (h : c.flight? load = some f) : f ∈ c.flights ∧ f.id = load :=
  ⟨List.mem_of_find?_eq_some h, by simpa using List.find?_some h⟩

theorem flight?_eq_none : c.flight? load = none ↔ ∀ f ∈ c.flights, f.id ≠ load := by
  simp [flight?, List.find?_eq_none]

/-- The keys of a list still occur once each if an element with a new key is added to it. -/
theorem nodup_map_concat {α β : Type} {f : α → β} {l : List α} {a : α} (h : (l.map f).Nodup)
    (hnew : ∀ b ∈ l, f b ≠ f a) : ((l ++ [a]).map f).Nodup := by
  rw [List.map_append, List.map_singleton]
  refine List.nodup_append.mpr ⟨h, List.nodup_singleton _, ?_⟩
  intro key hkey key' hkey' heq
  obtain ⟨b, hb, rfl⟩ := List.mem_map.mp hkey
  exact hnew b hb (heq.trans (List.mem_singleton.mp hkey'))

/-- What a list maps to a number that occurs once is one element. -/
theorem filter_of_nodup_map {α : Type} {f : α → Nat} {l : List α} (h : (l.map f).Nodup) {a : α}
    (ha : a ∈ l) : l.filter (fun b => f b == f a) = [a] := by
  induction l with
  | nil => cases ha
  | cons b rest ih =>
    rw [List.map_cons, List.nodup_cons] at h
    obtain ⟨hb, h⟩ := h
    obtain rfl | ha := List.mem_cons.mp ha
    · have hnone : rest.filter (fun b => f b == f a) = [] := by
        rw [List.filter_eq_nil_iff]
        intro c hc hsame
        exact hb (eq_of_beq hsame ▸ List.mem_map_of_mem hc)
      rw [List.filter_cons_of_pos (by simp), hnone]
    · have hne : f b ≠ f a := fun heq => hb (heq ▸ List.mem_map_of_mem ha)
      rw [List.filter_cons_of_neg (by simpa using hne)]
      exact ih h ha

/-- The loads under way have different numbers. -/
def Distinct (c : ReadThrough κ ν) : Prop := (c.flights.map Flight.id).Nodup

theorem Distinct.eq (h : c.Distinct) {f g : Flight κ} (hf : f ∈ c.flights) (hg : g ∈ c.flights)
    (hid : f.id = g.id) : f = g :=
  List.inj_on_of_nodup_map h hf hg hid

theorem Distinct.flight? (h : c.Distinct) (hf : f ∈ c.flights) : c.flight? f.id = some f := by
  cases hfound : c.flight? f.id with
  | none => exact absurd rfl (flight?_eq_none.mp hfound f hf)
  | some g =>
    obtain ⟨hg, hid⟩ := mem_of_flight? hfound
    rw [h.eq hg hf hid]

/-- A search is not disturbed by changes to elements that it passes over. -/
theorem find?_map_of_imp {α : Type} {p : α → Bool} {g : α → α} {l : List α}
    (hpasses : ∀ a ∈ l, p (g a) = true → p a = true) (hfound : ∀ a, l.find? p = some a → g a = a) :
    (l.map g).find? p = l.find? p := by
  induction l with
  | nil => rfl
  | cons a rest ih =>
    rw [List.map_cons, List.find?_cons, List.find?_cons] at *
    cases ha : p a with
    | true =>
      have hsame : g a = a := hfound a (by rw [ha])
      rw [hsame, ha]
    | false =>
      have hsame : p (g a) = false := by
        cases hpg : p (g a) with
        | true => exact absurd (hpasses a List.mem_cons_self hpg) (by simp [ha])
        | false => rfl
      rw [hsame]
      refine ih (fun b hb => hpasses b (List.mem_cons_of_mem a hb)) fun b hb => hfound b ?_
      rw [ha]
      exact hb

theorem find?_filter_of_imp {α : Type} {p q : α → Bool} {l : List α}
    (hfound : ∀ a, l.find? p = some a → q a = true) : (l.filter q).find? p = l.find? p := by
  induction l with
  | nil => rfl
  | cons a rest ih =>
    rw [List.find?_cons] at hfound ⊢
    cases ha : p a with
    | true =>
      have hkept : q a = true := hfound a (by rw [ha])
      rw [List.filter_cons_of_pos hkept, List.find?_cons, ha]
    | false =>
      simp only [ha] at hfound
      -- what is passed over may be dropped
      cases hq : q a with
      | true => rw [List.filter_cons_of_pos hq, List.find?_cons, ha, ih hfound]
      | false => rw [List.filter_cons_of_neg (by simp [hq]), ih hfound]

/-- A change that keeps the number of a load keeps all the numbers. -/
theorem modify_ids {change : Flight κ → Flight κ} (h : ∀ f, (change f).id = f.id) :
    (c.modify load change).flights.map Flight.id = c.flights.map Flight.id := by
  rw [modify, List.map_map]
  apply List.map_congr_left
  intro f _
  dsimp only [Function.comp]
  split
  · exact h f
  · rfl

/-- A load that another caller joined was there before. -/
theorem exists_of_mem_join (h : f ∈ (c.modify load fun f =>
    { f with waiters := f.waiters + 1 }).flights) : ∃ g ∈ c.flights, g.id = f.id ∧
      g.key = f.key ∧ g.attached = f.attached ∧ g.departed = f.departed ∧
      f.waiters = g.waiters + if g.id = load then 1 else 0 := by
  obtain ⟨g, hg, rfl⟩ := List.mem_map.mp h
  refine ⟨g, hg, ?_⟩
  split <;> exact ⟨rfl, rfl, rfl, rfl, rfl⟩

/-! ## Leaving -/

theorem leave_flights :
    (c.leave load).2.flights =
      c.flights.map fun f => if f.id = load then
        { f with departed := f.departed + 1, attached := f.attached && !(c.leave load).1 }
      else f := by
  unfold leave
  split
  · rename_i hnone
    have hother := flight?_eq_none.mp hnone
    have hsame : c.flights.map (fun f => if f.id = load then
        { f with departed := f.departed + 1, attached := f.attached && !false } else f) =
        c.flights.map id := List.map_congr_left fun f hf => if_neg (hother f hf)
    rw [hsame, List.map_id]
  · rfl

@[simp] theorem leave_store : (c.leave load).2.store = c.store := by
  unfold leave
  split <;> rfl

@[simp] theorem leave_started : (c.leave load).2.started = c.started := by
  unfold leave
  split <;> rfl

@[simp] theorem leave_ids : (c.leave load).2.flights.map Flight.id = c.flights.map Flight.id := by
  rw [leave_flights, List.map_map]
  apply List.map_congr_left
  intro f _
  dsimp only [Function.comp]
  split <;> rfl

/-- Nobody can join a load that its last caller has left. -/
theorem not_attached_of_isLast (hlast : (c.leave load).1 = true)
    (hf : f ∈ (c.leave load).2.flights) (hid : f.id = load) : f.attached = false := by
  rw [leave_flights] at hf
  obtain ⟨g, -, rfl⟩ := List.mem_map.mp hf
  split at hid
  · rename_i hg
    rw [if_pos hg, hlast]
    exact Bool.and_false _
  · rename_i hg
    exact absurd hid hg

/-- A load that has been left was there before, attached if it still is. -/
theorem exists_of_mem_leave (h : f ∈ (c.leave load).2.flights) :
    ∃ g ∈ c.flights, g.id = f.id ∧ g.key = f.key ∧ (f.attached = true → g.attached = true) ∧
      (f.id ≠ load → g = f) := by
  rw [leave_flights, List.mem_map] at h
  obtain ⟨g, hg, rfl⟩ := h
  refine ⟨g, hg, ?_⟩
  split
  · rename_i hid
    refine ⟨rfl, rfl, ?_, fun hne => absurd hid hne⟩
    intro hattached
    simp only [Bool.and_eq_true] at hattached
    exact hattached.1
  · exact ⟨rfl, rfl, id, fun _ => rfl⟩

/-! ## Callers that wait -/

/-- The counters of the loads agree with the number of callers that wait for each. -/
structure Tallied (c : ReadThrough κ ν) (waiting : Nat → Nat) : Prop where
  distinct : c.Distinct
  below : ∀ f ∈ c.flights, f.id < c.started
  known : ∀ load, c.started ≤ load → waiting load = 0
  tally : ∀ f ∈ c.flights, f.waiters = f.departed + waiting f.id

variable {waiting waiting' : Nat → Nat}

theorem tallied_new (store : TtlCache κ ν) : (new store).Tallied fun _ => 0 where
  distinct := List.nodup_nil
  below := fun _ hf => nomatch hf
  known := fun _ _ => rfl
  tally := fun _ hf => nomatch hf

namespace Tallied

/-- Only the loads and their numbers matter. -/
theorem of_flights (h : c.Tallied waiting) {c' : ReadThrough κ ν} (hflights : c'.flights = c.flights)
    (hstarted : c'.started = c.started) : c'.Tallied waiting where
  distinct := by rw [Distinct, hflights]; exact h.distinct
  below := by rw [hflights, hstarted]; exact h.below
  known := by rw [hstarted]; exact h.known
  tally := by rw [hflights]; exact h.tally

/-- Loads change, and what each of them counts is right for the callers that wait now. -/
theorem map (h : c.Tallied waiting) {c' : ReadThrough κ ν} {change : Flight κ → Flight κ}
    (hflights : c'.flights = c.flights.map change) (hstarted : c'.started = c.started)
    (hid : ∀ f, (change f).id = f.id) (hknown : ∀ load, c.started ≤ load → waiting' load = 0)
    (htally : ∀ f ∈ c.flights, (change f).waiters = (change f).departed + waiting' f.id) :
    c'.Tallied waiting' where
  distinct := by
    have hids : (c.flights.map change).map Flight.id = c.flights.map Flight.id := by
      rw [List.map_map]
      exact List.map_congr_left fun f _ => hid f
    rw [Distinct, hflights, hids]
    exact h.distinct
  below := by
    intro f hf
    rw [hflights] at hf
    obtain ⟨g, hg, rfl⟩ := List.mem_map.mp hf
    rw [hid, hstarted]
    exact h.below g hg
  known := by
    rw [hstarted]
    exact hknown
  tally := by
    intro f hf
    rw [hflights] at hf
    obtain ⟨g, hg, rfl⟩ := List.mem_map.mp hf
    rw [hid]
    exact htally g hg

/-- One load changes with the callers that wait for it. -/
theorem modify (h : c.Tallied waiting) {c' : ReadThrough κ ν} {change : Flight κ → Flight κ}
    (hflights : c'.flights = c.flights.map fun f => if f.id = load then change f else f)
    (hstarted : c'.started = c.started) (hid : ∀ f, (change f).id = f.id)
    (hload : c.started ≤ load → waiting' load = 0)
    (hothers : ∀ other, other ≠ load → waiting' other = waiting other)
    (htally : ∀ f, f.waiters = f.departed + waiting load →
      (change f).waiters = (change f).departed + waiting' load) : c'.Tallied waiting' := by
  refine h.map hflights hstarted (fun f => ?_) (fun other hother => ?_) fun f hf => ?_
  · split
    · exact hid f
    · rfl
  · by_cases hsame : other = load
    · exact hsame ▸ hload (hsame ▸ hother)
    · rw [hothers other hsame]
      exact h.known other hother
  · have hcount := h.tally f hf
    split
    · rename_i hf
      rw [hf] at hcount ⊢
      exact htally f hcount
    · rename_i hf
      rw [hothers f.id hf]
      exact hcount

/-- One caller more waits for a load under way. -/
theorem join (h : c.Tallied waiting) (hf : f ∈ c.flights)
    (hone : waiting' f.id = waiting f.id + 1)
    (hothers : ∀ load, load ≠ f.id → waiting' load = waiting load) :
    (c.modify f.id fun f => { f with waiters := f.waiters + 1 }).Tallied waiting' := by
  refine h.modify rfl rfl (fun _ => rfl) (fun hload => ?_) hothers fun g hg => ?_
  · exact absurd (h.below f hf) (Nat.not_lt.mpr hload)
  · dsimp only
    omega

/-- A load starts, and its one caller waits for it. -/
theorem start (h : c.Tallied waiting) {store : TtlCache κ ν} {ttl : Option Time}
    (hone : waiting' c.started = 1)
    (hothers : ∀ load, load ≠ c.started → waiting' load = waiting load) :
    (⟨store, c.flights ++ [⟨c.started, k, ttl, 1, 0, true⟩], c.started + 1⟩ :
      ReadThrough κ ν).Tallied waiting' where
  distinct := nodup_map_concat h.distinct fun f hf => Nat.ne_of_lt (h.below f hf)
  below := by
    intro f hf
    obtain hf | hf := List.mem_append.mp hf
    · exact Nat.lt_succ_of_lt (h.below f hf)
    · obtain rfl := List.mem_singleton.mp hf
      exact Nat.lt_succ_self _
  known := by
    intro load hload
    have hlt : c.started < load := hload
    rw [hothers load (by omega)]
    exact h.known load (by omega)
  tally := by
    intro f hf
    obtain hf | hf := List.mem_append.mp hf
    · have hbelow := h.below f hf
      rw [hothers f.id (by omega)]
      exact h.tally f hf
    · obtain rfl := List.mem_singleton.mp hf
      dsimp only
      omega

/-- A caller no longer waits for the load that it leaves. -/
theorem leave (h : c.Tallied waiting) (hone : waiting load = waiting' load + 1)
    (hothers : ∀ other, other ≠ load → waiting' other = waiting other) :
    (c.leave load).2.Tallied waiting' := by
  refine h.modify leave_flights leave_started (fun _ => rfl) (fun hload => ?_) hothers fun g hg => ?_
  · -- nobody waits for a load that has not started, so nobody leaves it
    have hzero := h.known load hload
    omega
  · dsimp only
    omega

/-- A caller is told to be the last one of a load exactly if nobody else waits for it. -/
theorem leave_isLast (h : c.Tallied waiting) (hf : f ∈ c.flights) :
    (c.leave f.id).1 = true ↔ waiting f.id = 1 := by
  have htally := h.tally f hf
  -- the caller is the last one if those who left are all but one of those who came
  rw [ReadThrough.leave, h.distinct.flight? hf]
  simp only [beq_iff_eq]
  omega

end Tallied

/-! ## Attached loads -/

variable [DecidableEq κ]

theorem mem_of_attached? (h : c.attached? k = some f) :
    f ∈ c.flights ∧ f.attached = true ∧ f.key = k :=
  ⟨List.mem_of_find?_eq_some h, by simpa using List.find?_some h⟩

/-- A caller that leaves a load does not disturb the load that callers of some key join, if that is
another one. -/
theorem attached?_leave (hother : ∀ f, c.attached? k = some f → f.id ≠ load) :
    (c.leave load).2.attached? k = c.attached? k := by
  unfold attached?
  rw [leave_flights]
  apply find?_map_of_imp
  · -- whoever can be joined behind it could be joined before
    intro f _ hpasses
    split at hpasses
    · simp only [Bool.and_eq_true] at hpasses ⊢
      exact ⟨hpasses.1.1, hpasses.2⟩
    · exact hpasses
  · intro f hfound
    exact if_neg (hother f hfound)

/-! ## Ending -/

theorem settle_flights {v : Option ν} {now : Time} :
    (c.settle load v now).flights = c.flights.filter fun f => f.id != load := by
  unfold settle
  split
  · rename_i hnone
    have hother := flight?_eq_none.mp hnone
    exact (List.filter_eq_self.mpr fun f hf => by simpa using hother f hf).symm
  · split
    · split <;> rfl
    · rfl

/-- The load that ends goes, the others stay. -/
theorem mem_settle_flights {v : Option ν} {now : Time} {f : Flight κ} :
    f ∈ (c.settle load v now).flights ↔ f ∈ c.flights ∧ f.id ≠ load := by
  rw [settle_flights, List.mem_filter, bne_iff_ne]

@[simp] theorem settle_started {v : Option ν} {now : Time} :
    (c.settle load v now).started = c.started := by
  unfold settle
  split
  · rfl
  · split
    · split <;> rfl
    · rfl

/-- The end of a load stores nothing unless it is attached. -/
theorem settle_store (hdetached : ∀ f ∈ c.flights, f.id = load → f.attached = false)
    {v : Option ν} {now : Time} : (c.settle load v now).store = c.store := by
  unfold settle
  split
  · rfl
  · rename_i f hfound
    obtain ⟨hf, hid⟩ := mem_of_flight? hfound
    split
    · rw [if_neg (by simp [hdetached f hf hid])]
    · rfl

@[simp] theorem settle_none_store {now : Time} : (c.settle load none now).store = c.store := by
  unfold settle
  split <;> rfl

/-- What the end of a load makes the cache hold is the value, at the key of the load. -/
theorem holds_settle {v : Option ν} {now : Time} {u : ν}
    (h : (c.settle load v now).store.Holds k u) :
    (v = some u ∧ ∃ f ∈ c.flights, f.id = load ∧ f.key = k ∧ f.attached = true) ∨
      c.store.Holds k u := by
  unfold settle at h
  split at h
  · exact .inr h
  · rename_i f hfound
    obtain ⟨hf, hid⟩ := mem_of_flight? hfound
    split at h
    · split at h
      · rename_i hattached
        obtain ⟨rfl, rfl⟩ | hold := TtlCache.holds_set h
        · exact .inl ⟨rfl, f, hf, hid, rfl, hattached⟩
        · exact .inr hold
      · exact .inr h
    · exact .inr h

/-- The end of a load does not disturb the load that callers of some key join, if that is another
one. -/
theorem attached?_settle (hother : ∀ f, c.attached? k = some f → f.id ≠ load) {v : Option ν}
    {now : Time} : (c.settle load v now).attached? k = c.attached? k := by
  unfold attached?
  rw [settle_flights]
  apply find?_filter_of_imp
  intro f hfound
  simpa using hother f hfound

/-! ## Asking -/

@[simp] theorem stored_flights {refresh : Bool} {ttl : Option Time} {now : Time} :
    (c.stored refresh k ttl now).2.flights = c.flights := rfl

@[simp] theorem stored_started {refresh : Bool} {ttl : Option Time} {now : Time} :
    (c.stored refresh k ttl now).2.started = c.started := rfl

/-- A value that is found was held. -/
theorem holds_of_stored {refresh : Bool} {ttl : Option Time} {now : Time} {v : ν}
    (h : (c.stored refresh k ttl now).1 = some v) : c.store.Holds k v := by
  cases refresh with
  | false => exact TtlCache.holds_of_get h
  | true =>
    have hread : (c.store.getWithRefresh k ttl now).1 = some v := h
    rw [TtlCache.getWithRefresh_fst] at hread
    exact TtlCache.holds_of_get hread

theorem holds_stored {refresh : Bool} {ttl : Option Time} {now : Time} {j : κ} {v : ν}
    (h : (c.stored refresh j ttl now).2.store.Holds k v) : c.store.Holds k v := by
  cases refresh with
  | false => exact TtlCache.holds_get h
  | true => exact TtlCache.holds_getWithRefresh h

/-- Behind a look at the store that finds nothing, nothing is held. -/
theorem not_holds_stored {refresh : Bool} {ttl : Option Time} {now : Time} {v : ν}
    (h : (c.stored refresh k ttl now).1 = none) :
    ¬ (c.stored refresh k ttl now).2.store.Holds k v := by
  cases refresh with
  | false => exact TtlCache.not_holds_of_get h
  | true => exact TtlCache.not_holds_of_getWithRefresh h

/-- A request finds a value, joins the load that is attached, or starts one. -/
theorem request_cases (c : ReadThrough κ ν) (refresh : Bool) (k : κ) (ttl : Option Time)
    (now : Time) :
    (∃ v, c.store.Holds k v ∧
      c.request refresh k ttl now = (.hit v, (c.stored refresh k ttl now).2)) ∨
    (∃ f, c.attached? k = some f ∧ c.request refresh k ttl now =
      (.joined f.id, (c.stored refresh k ttl now).2.modify f.id fun f =>
        { f with waiters := f.waiters + 1 })) ∨
    (c.attached? k = none ∧ c.request refresh k ttl now =
      (.starts c.started, { (c.stored refresh k ttl now).2 with
        flights := c.flights ++ [⟨c.started, k, ttl, 1, 0, true⟩], started := c.started + 1 })) := by
  unfold request
  cases hstored : c.stored refresh k ttl now with
  | mk v c' =>
    have hflights : c'.flights = c.flights := by
      rw [← @stored_flights κ ν c k _ refresh ttl now, hstored]
    have hstarted : c'.started = c.started := by
      rw [← @stored_started κ ν c k _ refresh ttl now, hstored]
    cases v with
    | some v => exact .inl ⟨v, holds_of_stored (by rw [hstored]), rfl⟩
    | none =>
      -- reading the store does not touch the loads
      have hattached : c'.attached? k = c.attached? k := by rw [attached?, hflights, attached?]
      refine .inr ?_
      simp only [wait, hattached]
      cases c.attached? k with
      | some f => exact .inl ⟨f, rfl, rfl⟩
      | none => exact .inr ⟨rfl, by rw [hflights, hstarted]⟩

/-- A load ends; callers may stop to wait for it. -/
theorem Tallied.settle (h : c.Tallied waiting) {v : Option ν} {now : Time}
    (hone : waiting' load ≤ waiting load)
    (hothers : ∀ other, other ≠ load → waiting' other = waiting other) :
    (c.settle load v now).Tallied waiting' where
  distinct := by
    rw [Distinct, settle_flights]
    exact h.distinct.sublist (List.filter_sublist.map _)
  below := by
    intro f hf
    rw [settle_started]
    exact h.below f (mem_settle_flights.mp hf).1
  known := by
    intro other hother
    rw [settle_started] at hother
    have hzero := h.known other hother
    by_cases hsame : other = load
    · rw [hsame] at hzero ⊢
      omega
    · rw [hothers other hsame]
      exact hzero
  tally := by
    intro f hf
    obtain ⟨hf, hid⟩ := mem_settle_flights.mp hf
    rw [hothers f.id hid]
    exact h.tally f hf

/-! ## Invalidating -/

theorem Tallied.invalidate (h : c.Tallied waiting) (k : κ) : (c.invalidate k).Tallied waiting := by
  refine h.map rfl rfl (fun f => ?_) h.known fun f hf => ?_
  · split <;> rfl
  · split <;> exact h.tally f hf

omit [DecidableEq κ] in
theorem Tallied.invalidateAll (h : c.Tallied waiting) : c.invalidateAll.Tallied waiting :=
  h.map rfl rfl (fun _ => rfl) h.known h.tally

theorem invalidate_ids :
    (c.invalidate k).flights.map Flight.id = c.flights.map Flight.id := by
  rw [invalidate, List.map_map]
  apply List.map_congr_left
  intro f _
  dsimp only [Function.comp]
  split <;> rfl

omit [DecidableEq κ] in
theorem invalidateAll_ids : c.invalidateAll.flights.map Flight.id = c.flights.map Flight.id := by
  rw [invalidateAll, List.map_map]
  rfl

/-- A load that is attached behind an invalidation was so before, and is for another key. -/
theorem exists_of_mem_invalidate {j : κ} (h : f ∈ (c.invalidate j).flights)
    (hattached : f.attached = true) : f ∈ c.flights ∧ f.key ≠ j := by
  obtain ⟨g, hg, rfl⟩ := List.mem_map.mp h
  split at hattached
  · exact nomatch hattached
  · rename_i hkey
    rw [if_neg hkey]
    exact ⟨hg, hkey⟩

omit [DecidableEq κ] in
theorem not_attached_invalidateAll (h : f ∈ c.invalidateAll.flights) : f.attached = false := by
  obtain ⟨g, -, rfl⟩ := List.mem_map.mp h
  rfl

end IssueQuery.ReadThrough
