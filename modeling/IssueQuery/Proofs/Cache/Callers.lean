import IssueQuery.Cache.Session
import IssueQuery.Proofs.Cache.Flights

/-!
# Callers of a session

What holds of the callers of a session whose cache is not disabled, whatever the order of events:
everyone who waits, waits for a load under way, and the counters of the loads say how many wait.

* `Inv`, `inv_step`, `inv_after` the invariant, one event, and any number of them;
* `TurnedAway`, `abort_spec`     what an abort does to those who stay;
* `settled_of_step`, `stays_of_step` nobody's wait ends by what happens to others.
-/

namespace IssueQuery.Session

variable {κ ι ν : Type} [DecidableEq κ] {s s' : State κ ν} {w : Waiter} {ws : List Waiter}

/-- How many callers wait for a load. -/
def State.waitingFor (s : State κ ν) (load : Nat) : Nat := s.waiting.countP (·.load == load)

/-- The invariant of sessions whose cache is not disabled. -/
structure Inv (s : State κ ν) : Prop where
  tallied : s.cache.Tallied s.waitingFor
  flying : ∀ w ∈ s.waiting, w.load ∈ s.cache.flights.map Flight.id
  attended : ∀ f ∈ s.cache.flights, f.attached = true → ∃ w ∈ s.waiting, w.load = f.id
  distinct : (s.waiting.map Waiter.caller).Nodup
  below : ∀ w ∈ s.waiting, w.caller < s.callers
  direct : s.direct = []

omit [DecidableEq κ] in
theorem inv_new (now : Time) (defaultTtl interval : Option Time) :
    Inv (State.new now defaultTtl interval : State κ ν) where
  tallied := ReadThrough.tallied_new _
  flying := fun _ hw => nomatch hw
  attended := fun _ hf => nomatch hf
  distinct := List.nodup_nil
  below := fun _ hw => nomatch hw
  direct := rfl

/-! ## The end of a load -/

theorem settle_eq (s : State κ ν) (load : Nat) (outcome : Outcome ν) :
    s.settle load outcome = ((s.waiting.filter (·.load == load)).map fun w => (w.caller, outcome),
      { s with
        waiting := s.waiting.filter fun w => !(w.load == load)
        cache := s.cache.settle load outcome.toOption s.now }) := by
  rw [State.settle, List.partition_eq_filter_filter]
  rfl

/-- The other loads go on. -/
theorem mem_flights_settle {load : Nat} {outcome : Outcome ν} {f : Flight κ} :
    f ∈ (s.settle load outcome).2.cache.flights ↔ f ∈ s.cache.flights ∧ f.id ≠ load := by
  rw [settle_eq]
  exact ReadThrough.mem_settle_flights

/-- The end of a load is told to the callers that wait for it. -/
theorem settled_of_settle {load c : Nat} {outcome outcome' : Outcome ν}
    (h : (c, outcome') ∈ (s.settle load outcome).1) :
    ∃ w ∈ s.waiting, w.caller = c ∧ w.load = load ∧ outcome' = outcome := by
  rw [settle_eq] at h
  obtain ⟨w, hdone, heq⟩ := List.mem_map.mp h
  obtain ⟨hw, hload⟩ := List.mem_filter.mp hdone
  obtain ⟨rfl, rfl⟩ := Prod.mk.inj heq
  exact ⟨w, hw, rfl, by simpa using hload, rfl⟩

theorem stays_of_settle {load : Nat} {outcome : Outcome ν} (hw : w ∈ s.waiting)
    (hother : w.load ≠ load) : w ∈ (s.settle load outcome).2.waiting := by
  rw [settle_eq]
  exact List.mem_filter.mpr ⟨hw, by simpa using hother⟩

theorem inv_settle (h : Inv s) (load : Nat) (outcome : Outcome ν) :
    Inv (s.settle load outcome).2 := by
  rw [settle_eq]
  have hkept : ∀ w ∈ s.waiting.filter fun w => !(w.load == load), w ∈ s.waiting ∧ w.load ≠ load := by
    intro w hw
    simpa using List.mem_filter.mp hw
  refine ⟨h.tallied.settle ?_ ?_, ?_, ?_, ?_, ?_, h.direct⟩
  · -- nobody waits for the load that ended
    have hnone : (s.waiting.filter fun w => !(w.load == load)).countP (·.load == load) = 0 := by
      rw [List.countP_eq_zero]
      intro w hw
      simpa using (hkept w hw).2
    exact Nat.le_trans (Nat.le_of_eq hnone) (Nat.zero_le _)
  · -- as many as before wait for every other load
    intro other hother
    have hsame : (s.waiting.filter fun w => !(w.load == load)).countP (·.load == other) =
        s.waiting.countP (·.load == other) := by
      rw [List.countP_filter]
      apply List.countP_congr
      intro w _
      simp only [Bool.and_eq_true, beq_iff_eq, Bool.not_eq_true', beq_eq_false_iff_ne]
      constructor
      · exact And.left
      · rintro rfl
        exact ⟨rfl, hother⟩
    exact hsame
  · intro w hw
    obtain ⟨hwaits, hload⟩ := hkept w hw
    obtain ⟨f, hf, hid⟩ := List.mem_map.mp (h.flying w hwaits)
    rw [ReadThrough.settle_flights]
    refine List.mem_map.mpr ⟨f, List.mem_filter.mpr ⟨hf, ?_⟩, hid⟩
    simpa [hid] using hload
  · -- a load that stays has callers, and they stay with it
    intro f hf hattached
    rw [ReadThrough.settle_flights] at hf
    obtain ⟨hf, hid⟩ := List.mem_filter.mp hf
    obtain ⟨w, hw, hload⟩ := h.attended f hf hattached
    exact ⟨w, List.mem_filter.mpr ⟨hw, by simpa [hload] using hid⟩, hload⟩
  · exact h.distinct.sublist (List.filter_sublist.map _)
  · intro w hw
    exact h.below w (hkept w hw).1

/-! ## Turning callers away -/

theorem countP_filter_caller (hdistinct : (ws.map Waiter.caller).Nodup) (hw : w ∈ ws) (load : Nat) :
    ws.countP (·.load == load) =
      (ws.filter (·.caller != w.caller)).countP (·.load == load) +
        if w.load = load then 1 else 0 := by
  induction ws with
  | nil => exact nomatch hw
  | cons v rest ih =>
    rw [List.map_cons, List.nodup_cons] at hdistinct
    obtain ⟨hv, hdistinct⟩ := hdistinct
    -- the caller that leaves is the first one, or one of the rest
    obtain rfl | hw := List.mem_cons.mp hw
    · have hrest : rest.filter (·.caller != w.caller) = rest := by
        rw [List.filter_eq_self]
        intro u hu
        have hne : u.caller ≠ w.caller := fun heq => hv (heq ▸ List.mem_map_of_mem hu)
        simpa using hne
      rw [List.filter_cons_of_neg (by simp), hrest, List.countP_cons]
      simp
    · have hne : v.caller ≠ w.caller := fun heq => hv (heq ▸ List.mem_map_of_mem hw)
      rw [List.filter_cons_of_pos (by simpa using hne), List.countP_cons, List.countP_cons,
        ih hdistinct hw]
      omega

/-- What is left of a session behind callers that were turned away, and of their loads those that
were aborted. -/
structure TurnedAway (s : State κ ν) (ws : List Waiter) (aborted : List (Nat × Text))
    (s' : State κ ν) : Prop where
  inv : Inv s'
  waiting : s'.waiting = s.waiting.filter fun v => v.caller ∉ ws.map Waiter.caller
  store : s'.cache.store = s.cache.store
  callers : s'.callers = s.callers
  alone : ∀ p ∈ aborted, (∀ v ∈ s'.waiting, v.load ≠ p.1) ∧
    ∀ f ∈ s'.cache.flights, f.id = p.1 → f.attached = false
  flights : ∀ f ∈ s'.cache.flights, f.attached = true →
    ∃ g ∈ s.cache.flights, g.attached = true ∧ g.id = f.id ∧ g.key = f.key
  others : ∀ k, (∀ f, s.cache.attached? k = some f → ∀ w ∈ ws, w.load ≠ f.id) →
    s'.cache.attached? k = s.cache.attached? k

omit [DecidableEq κ] in
/-- A load that can still be joined when a caller has left has another caller. -/
theorem attended_leave (h : Inv s) (hw : w ∈ s.waiting) {f : Flight κ}
    (hf : f ∈ (s.cache.leave w.load).2.flights) (hattached : f.attached = true) :
    ∃ v ∈ s.waiting.filter (·.caller != w.caller), v.load = f.id := by
  rw [ReadThrough.leave_flights] at hf
  obtain ⟨g, hg, rfl⟩ := List.mem_map.mp hf
  split at hattached
  · -- the load is not given up, so the caller that leaves is not the last one
    rename_i hgid
    rw [if_pos hgid]
    have hlast : (s.cache.leave g.id).1 ≠ true := by
      rw [hgid]
      intro hlast
      simp [hlast] at hattached
    have hmore := mt (h.tallied.leave_isLast hg).mpr hlast
    have htotal := countP_filter_caller h.distinct hw w.load
    rw [if_pos rfl] at htotal
    have htotal' : s.waitingFor g.id = s.waiting.countP (·.load == w.load) := by
      rw [hgid]
      rfl
    have hpos : 0 < (s.waiting.filter (·.caller != w.caller)).countP (·.load == w.load) := by
      omega
    obtain ⟨v, hv, hload⟩ := List.countP_pos_iff.mp hpos
    exact ⟨v, hv, by simpa [hgid] using hload⟩
  · -- the load is another one, and so is its caller
    rename_i hgid
    rw [if_neg hgid]
    obtain ⟨v, hv, hload⟩ := h.attended g hg hattached
    refine ⟨v, List.mem_filter.mpr ⟨hv, ?_⟩, hload⟩
    have hne : v.caller ≠ w.caller := by
      intro heq
      obtain rfl := List.inj_on_of_nodup_map h.distinct hv hw heq
      exact hgid hload.symm
    simpa using hne

omit [DecidableEq κ] in
theorem inv_turnAway (h : Inv s) (hw : w ∈ s.waiting) (reason : Text) :
    Inv (s.turnAway w reason).2 := by
  have hcount := countP_filter_caller h.distinct hw
  have hkept : ∀ v ∈ s.waiting.filter (·.caller != w.caller), v ∈ s.waiting := fun v hv =>
    (List.mem_filter.mp hv).1
  refine ⟨?_, ?_, ?_, ?_, ?_, h.direct⟩
  · -- one caller less waits for its load, and as many as before for any other
    refine h.tallied.leave ?_ fun other hother => ?_
    · have hone := hcount w.load
      rw [if_pos rfl] at hone
      exact hone
    · have hsame := hcount other
      rw [if_neg (Ne.symm hother)] at hsame
      exact hsame.symm
  · intro v hv
    have hids := @ReadThrough.leave_ids κ ν s.cache w.load
    have hflying := h.flying v (hkept v hv)
    rw [← hids] at hflying
    exact hflying
  · exact fun f hf hattached => attended_leave h hw hf hattached
  · exact h.distinct.sublist (List.filter_sublist.map _)
  · exact fun v hv => h.below v (hkept v hv)

omit [DecidableEq κ] in
/-- Nobody waits any more for a load that its last caller has left. -/
theorem alone_of_isLast (h : Inv s) (hw : w ∈ s.waiting)
    (hlast : (s.cache.leave w.load).1 = true) {v : Waiter}
    (hv : v ∈ s.waiting.filter (·.caller != w.caller)) : v.load ≠ w.load := by
  obtain ⟨f, hf, hid⟩ := List.mem_map.mp (h.flying w hw)
  -- the counters say that one caller waits, and it is the one that leaves
  have hone : s.waitingFor w.load = 1 := by
    rw [← hid] at hlast ⊢
    exact (h.tallied.leave_isLast hf).mp hlast
  have hnone : (s.waiting.filter (·.caller != w.caller)).countP (·.load == w.load) = 0 := by
    have htotal := countP_filter_caller h.distinct hw w.load
    rw [if_pos rfl] at htotal
    have hone' : s.waiting.countP (·.load == w.load) = 1 := hone
    omega
  intro hload
  exact List.countP_eq_zero.mp hnone v hv (by simpa using hload)

theorem turnAway_spec (h : Inv s) (hw : w ∈ s.waiting) (reason : Text) :
    TurnedAway s [w] (s.turnAway w reason).1 (s.turnAway w reason).2 := by
  refine ⟨inv_turnAway h hw reason, ?_, ReadThrough.leave_store, rfl, ?_, ?_, ?_⟩
  · apply List.filter_congr
    intro v _
    simp [bne, Bool.beq_eq_decide_eq]
  · intro p hp
    -- only the last caller of a load aborts it
    cases hlast : (s.cache.leave w.load).1 with
    | false =>
      have hnot : ¬ (s.cache.leave w.load).1 = true := Bool.eq_false_iff.mp hlast
      have hempty : (s.turnAway w reason).1 = [] := if_neg hnot
      rw [hempty] at hp
      cases hp
    | true =>
      have hpair : (s.turnAway w reason).1 = [(w.load, reason)] := if_pos hlast
      rw [hpair] at hp
      obtain rfl := List.mem_singleton.mp hp
      exact ⟨fun v hv => alone_of_isLast h hw hlast hv,
        fun f hf hid => ReadThrough.not_attached_of_isLast hlast hf hid⟩
  · intro g hg hattached
    obtain ⟨f, hf, hid, hkey, hwas, -⟩ := ReadThrough.exists_of_mem_leave hg
    exact ⟨f, hf, hwas hattached, hid, hkey⟩
  · intro k hother
    exact ReadThrough.attached?_leave fun f hf hid => hother f hf w List.mem_cons_self hid.symm

/-- Callers that were turned away after others. -/
theorem TurnedAway.cons {s₁ : State κ ν} {aborted more : List (Nat × Text)}
    (h : TurnedAway s [w] aborted s₁) (h' : TurnedAway s₁ ws more s') :
    TurnedAway s (w :: ws) (aborted ++ more) s' := by
  refine ⟨h'.inv, ?_, h'.store.trans h.store, h'.callers.trans h.callers, ?_, ?_, ?_⟩
  · rw [h'.waiting, h.waiting, List.filter_filter]
    apply List.filter_congr
    intro v _
    simp only [List.map_cons, List.map_nil, List.mem_cons, List.not_mem_nil, or_false]
    by_cases hv : v.caller = w.caller <;> simp [hv]
  · intro p hp
    obtain hp | hp := List.mem_append.mp hp
    · -- those who leave later leave a load alone that was left alone before: they add no caller and
      -- attach nothing
      obtain ⟨hnobody, hdetached⟩ := h.alone p hp
      refine ⟨fun v hv => ?_, fun f hf hid => ?_⟩
      · rw [h'.waiting] at hv
        exact hnobody v (List.mem_filter.mp hv).1
      · cases hattached : f.attached with
        | false => rfl
        | true =>
          obtain ⟨g, hg, hwas, hgid, -⟩ := h'.flights f hf hattached
          rw [hdetached g hg (hgid.trans hid)] at hwas
          exact hwas.symm
    · exact h'.alone p hp
  · intro f hf hattached
    obtain ⟨g, hg, hwas, hid, hkey⟩ := h'.flights f hf hattached
    obtain ⟨g', hg', hwas', hid', hkey'⟩ := h.flights g hg hwas
    exact ⟨g', hg', hwas', hid'.trans hid, hkey'.trans hkey⟩
  · -- a key that neither is about keeps its load through both
    intro k hother
    have hfirst : s₁.cache.attached? k = s.cache.attached? k :=
      h.others k fun f hf v hv => hother f hf v (List.mem_cons.mpr (.inl (List.mem_singleton.mp hv)))
    rw [← hfirst]
    refine h'.others k fun f hf v hv => ?_
    rw [hfirst] at hf
    exact hother f hf v (List.mem_cons_of_mem w hv)

theorem turnAwayAll_spec (h : Inv s) (hws : ∀ w ∈ ws, w ∈ s.waiting)
    (hdistinct : (ws.map Waiter.caller).Nodup) (reason : Text) :
    TurnedAway s ws (s.turnAwayAll reason ws).1 (s.turnAwayAll reason ws).2 := by
  induction ws generalizing s with
  | nil =>
    exact {
      inv := h
      waiting := (List.filter_eq_self.mpr fun v _ => by simp).symm
      store := rfl
      callers := rfl
      alone := fun _ hp => nomatch hp
      flights := fun f hf hattached => ⟨f, hf, hattached, rfl, rfl⟩
      others := fun _ _ => rfl }
  | cons w rest ih =>
    rw [List.map_cons, List.nodup_cons] at hdistinct
    have hfirst := turnAway_spec h (hws w List.mem_cons_self) reason
    refine hfirst.cons (ih hfirst.inv (fun v hv => ?_) hdistinct.2)
    -- the others still wait when the first one has left
    have hne : v.caller ≠ w.caller := fun heq => hdistinct.1 (heq ▸ List.mem_map_of_mem hv)
    rw [hfirst.waiting]
    exact List.mem_filter.mpr ⟨hws v (List.mem_cons_of_mem w hv), by simpa using hne⟩

/-- Loads that nobody waits for end unnoticed. -/
theorem failAll_spec {loads : List Nat} {aborted : List (Nat × Text)}
    (hloads : ∀ load ∈ loads, ∃ p ∈ aborted, p.1 = load) (h : TurnedAway s ws aborted s')
    (reason : Text) :
    (s'.failAll reason loads).1 = [] ∧
      TurnedAway s ws aborted (s'.failAll reason loads).2 := by
  induction loads generalizing s' with
  | nil => exact ⟨rfl, h⟩
  | cons load rest ih =>
    obtain ⟨p, hp, rfl⟩ := hloads _ List.mem_cons_self
    obtain ⟨hnobody, hdetached⟩ := h.alone p hp
    have hnone : s'.waiting.filter (·.load == p.1) = [] := by
      rw [List.filter_eq_nil_iff]
      intro v hv
      simpa using hnobody v hv
    have hall : (s'.waiting.filter fun v => !(v.load == p.1)) = s'.waiting := by
      rw [List.filter_eq_self]
      intro v hv
      simpa using hnobody v hv
    -- nobody waits for the load, so its end settles no caller
    have hended : TurnedAway s ws aborted (s'.settle p.1 (.error reason)).2 := by
      have hinv := inv_settle h.inv p.1 (.error reason)
      rw [settle_eq] at hinv ⊢
      have hflights : ∀ f ∈ (s'.cache.settle p.1 none s'.now).flights, f ∈ s'.cache.flights := by
        intro f hf
        exact (ReadThrough.mem_settle_flights.mp hf).1
      have hstore : (s'.cache.settle p.1 none s'.now).store = s'.cache.store :=
        ReadThrough.settle_none_store
      refine ⟨hinv, hall.trans h.waiting, hstore.trans h.store, h.callers, ?_, ?_, ?_⟩
      · intro q hq
        obtain ⟨hnobody', hdetached'⟩ := h.alone q hq
        exact ⟨fun v hv => hnobody' v (List.mem_filter.mp hv).1,
          fun f hf hid => hdetached' f (hflights f hf) hid⟩
      · exact fun f hf hattached => h.flights f (hflights f hf) hattached
      · intro k hother
        rw [← h.others k hother]
        refine ReadThrough.attached?_settle fun f hf hid => ?_
        obtain ⟨hmem, hattached, -⟩ := ReadThrough.mem_of_attached? hf
        rw [hdetached f hmem hid] at hattached
        exact nomatch hattached
    obtain ⟨hsettled, hspec⟩ :=
      ih (fun load hload => hloads load (List.mem_cons_of_mem p.1 hload)) hended
    refine ⟨?_, hspec⟩
    have hfirst : (s'.settle p.1 (.error reason)).1 = [] := by rw [settle_eq, hnone]; rfl
    rw [State.failAll]
    exact List.append_eq_nil_iff.mpr ⟨hfirst, hsettled⟩

/-! ## Aborts -/

/-- The callers that carry a signal. -/
def State.carrying (s : State κ ν) (signal : Text) : List Waiter :=
  s.waiting.filter fun w => w.signal = some signal

omit [DecidableEq κ] in
theorem mem_carrying {signal : Text} :
    w ∈ s.carrying signal ↔ w ∈ s.waiting ∧ w.signal = some signal := by
  simp [State.carrying]

omit [DecidableEq κ] in
theorem Inv.nodup_carrying (h : Inv s) (signal : Text) :
    ((s.carrying signal).map Waiter.caller).Nodup :=
  h.distinct.sublist (List.filter_sublist.map _)

omit [DecidableEq κ] in
/-- Which signals have aborted does not matter to the invariant. -/
theorem Inv.noted (h : Inv s) (signal reason : Text) :
    Inv { s with signals := s.signals ++ [(signal, reason)] } :=
  ⟨h.tallied, h.flying, h.attended, h.distinct, h.below, h.direct⟩

/-- An abort does nothing if the signal has aborted before. Else it turns away those who carry the
signal, and nobody else gets anything. -/
theorem abort_spec (h : Inv s) (abortable : Bool) (signal reason : Text) :
    (s.abort ⟨false, abortable⟩ signal reason : Effects κ ι ν × State κ ν) = ({}, s) ∨
    ∃ aborted s', s.abort ⟨false, abortable⟩ signal reason =
      (({ aborted := aborted
          settled := (s.carrying signal).map fun w => (w.caller, .error reason) } :
            Effects κ ι ν), s') ∧ TurnedAway s (s.carrying signal) aborted s' := by
  unfold State.abort
  split
  · exact .inl rfl
  · refine .inr ?_
    have hspec := turnAwayAll_spec (h.noted signal reason) (fun w hw => (mem_carrying.mp hw).1)
      (h.nodup_carrying signal) reason
    -- that the signal is noted makes no difference to what is said of those who leave
    have hspec : TurnedAway s (s.carrying signal) _ _ :=
      ⟨hspec.inv, hspec.waiting, hspec.store, hspec.callers, hspec.alone, hspec.flights,
        hspec.others⟩
    -- nobody loads past a cache that is not disabled
    have hown : (State.turnAwayAll { s with signals := s.signals ++ [(signal, reason)] } reason
        (s.carrying signal)).2.direct = [] := hspec.inv.direct
    simp only [State.carrying] at hspec hown ⊢
    simp only [hown, List.filter_nil, List.map_nil, List.append_nil]
    cases abortable with
    | false => exact ⟨_, _, by simp, hspec⟩
    | true =>
      obtain ⟨hsettled, hfailed⟩ := failAll_spec (fun load hload => List.mem_map.mp hload) hspec reason
      exact ⟨_, _, by simp [hsettled], hfailed⟩

/-! ## Requests -/

/-- A new caller is answered at once, or waits for the load that is attached, or for a new one. -/
theorem request_spec (abortable : Bool) (s : State κ ν) (refresh : Bool) (key : κ) (input : ι)
    (ttl : Option Time) (signal : Option Text) :
    (∃ reason, step ⟨false, abortable⟩ s (.request refresh key input ttl signal) =
      ({ settled := [(s.callers, .error reason)] }, { s with callers := s.callers + 1 })) ∨
    (∃ v, s.cache.store.Holds key v ∧
      step ⟨false, abortable⟩ s (.request refresh key input ttl signal) =
        ({ settled := [(s.callers, .ok v)] },
          { s with
            callers := s.callers + 1
            cache := (s.cache.stored refresh key ttl s.now).2 })) ∨
    (∃ f, s.cache.attached? key = some f ∧
      step ⟨false, abortable⟩ s (.request refresh key input ttl signal) =
        ({},
          { s with
            callers := s.callers + 1
            waiting := s.waiting ++ [⟨s.callers, f.id, signal⟩]
            cache := (s.cache.stored refresh key ttl s.now).2.modify f.id fun f =>
              { f with waiters := f.waiters + 1 } })) ∨
    (s.cache.attached? key = none ∧
      step ⟨false, abortable⟩ s (.request refresh key input ttl signal) =
        ({ started := [(s.cache.started, key, input)] },
          { s with
            callers := s.callers + 1
            waiting := s.waiting ++ [⟨s.callers, s.cache.started, signal⟩]
            cache :=
              { (s.cache.stored refresh key ttl s.now).2 with
                flights := s.cache.flights ++ [⟨s.cache.started, key, ttl, 1, 0, true⟩]
                started := s.cache.started + 1 } })) := by
  cases hreason : s.reason? signal with
  | some reason =>
    refine .inl ⟨reason, ?_⟩
    simp only [step, State.request, hreason]
  | none =>
    refine .inr ?_
    -- the caller gets what the cache gives for its key
    obtain ⟨v, hheld, hcase⟩ | ⟨f, hf, hcase⟩ | ⟨hnone, hcase⟩ :=
      s.cache.request_cases refresh key ttl s.now
    · refine .inl ⟨v, hheld, ?_⟩
      simp [step, State.request, hreason, State.requestShared, hcase]
    · refine .inr (.inl ⟨f, hf, ?_⟩)
      simp [step, State.request, hreason, State.requestShared, hcase]
    · refine .inr (.inr ⟨hnone, ?_⟩)
      simp [step, State.request, hreason, State.requestShared, hcase]

theorem callers_request (abortable : Bool) (s : State κ ν) (refresh : Bool) (key : κ) (input : ι)
    (ttl : Option Time) (signal : Option Text) :
    s.callers < (step ⟨false, abortable⟩ s (.request refresh key input ttl signal)).2.callers := by
  obtain ⟨reason, hcase⟩ | ⟨v, -, hcase⟩ | ⟨f, -, hcase⟩ | ⟨-, hcase⟩ :=
    request_spec abortable s refresh key input ttl signal <;> rw [hcase] <;>
    exact Nat.lt_succ_self _

omit [DecidableEq κ] in
/-- A new caller that waits, with its load. -/
theorem inv_wait (h : Inv s) {cache : ReadThrough κ ν} {load : Nat} {signal : Option Text}
    (hids : ∀ id ∈ s.cache.flights.map Flight.id, id ∈ cache.flights.map Flight.id)
    (hload : load ∈ cache.flights.map Flight.id)
    (hattended : ∀ f ∈ cache.flights, f.attached = true →
      f.id = load ∨ ∃ g ∈ s.cache.flights, g.attached = true ∧ g.id = f.id)
    (htallied : ∀ waiting : Nat → Nat, waiting load = s.waitingFor load + 1 →
      (∀ other, other ≠ load → waiting other = s.waitingFor other) → cache.Tallied waiting) :
    Inv { s with
      callers := s.callers + 1
      waiting := s.waiting ++ [⟨s.callers, load, signal⟩]
      cache := cache } where
  tallied := by
    -- the new caller counts for its load only
    apply htallied
    · simp [State.waitingFor]
    · intro other hother
      simp [State.waitingFor, Ne.symm hother]
  flying := by
    intro w hw
    obtain hw | hw := List.mem_append.mp hw
    · exact hids _ (h.flying w hw)
    · obtain rfl := List.mem_singleton.mp hw
      exact hload
  attended := by
    intro f hf hattached
    obtain hid | ⟨g, hg, hwas, hid⟩ := hattended f hf hattached
    · -- a load that is new is attended by its first caller
      exact ⟨⟨s.callers, load, signal⟩, by simp, hid.symm⟩
    · obtain ⟨w, hw, hload⟩ := h.attended g hg hwas
      exact ⟨w, List.mem_append_left _ hw, hload.trans hid⟩
  distinct := ReadThrough.nodup_map_concat h.distinct fun w hw => Nat.ne_of_lt (h.below w hw)
  below := by
    intro w hw
    dsimp only
    obtain hw | hw := List.mem_append.mp hw
    · exact Nat.lt_succ_of_lt (h.below w hw)
    · obtain rfl := List.mem_singleton.mp hw
      exact Nat.lt_succ_self _
  direct := h.direct

theorem inv_request (h : Inv s) (abortable : Bool) (refresh : Bool) (key : κ) (input : ι)
    (ttl : Option Time) (signal : Option Text) :
    Inv (step (ν := ν) ⟨false, abortable⟩ s (.request refresh key input ttl signal)).2 := by
  have hbelow : ∀ w ∈ s.waiting, w.caller < s.callers + 1 := fun w hw =>
    Nat.lt_succ_of_lt (h.below w hw)
  have htallied : (s.cache.stored refresh key ttl s.now).2.Tallied s.waitingFor :=
    h.tallied.of_flights ReadThrough.stored_flights ReadThrough.stored_started
  obtain ⟨reason, hcase⟩ | ⟨v, -, hcase⟩ | ⟨f, hf, hcase⟩ | ⟨hnone, hcase⟩ :=
    request_spec abortable s refresh key input ttl signal
  · rw [hcase]
    exact ⟨h.tallied, h.flying, h.attended, h.distinct, hbelow, h.direct⟩
  · rw [hcase]
    exact ⟨htallied, h.flying, h.attended, h.distinct, hbelow, h.direct⟩
  · -- the caller joins a load
    rw [hcase]
    obtain ⟨hmem, -, -⟩ := ReadThrough.mem_of_attached? hf
    have hids : ((s.cache.stored refresh key ttl s.now).2.modify f.id fun f =>
        { f with waiters := f.waiters + 1 }).flights.map Flight.id =
        s.cache.flights.map Flight.id := ReadThrough.modify_ids fun _ => rfl
    apply inv_wait h
    · rw [hids]
      exact fun _ hid => hid
    · rw [hids]
      exact List.mem_map_of_mem hmem
    · intro _ hmodified hattached
      obtain ⟨g, hg, rfl⟩ := List.mem_map.mp hmodified
      split at hattached
      · rename_i hid
        rw [if_pos hid]
        exact .inl hid
      · rename_i hid
        rw [if_neg hid]
        exact .inr ⟨g, hg, hattached, rfl⟩
    · intro waiting hone hothers
      exact htallied.join hmem hone hothers
  · -- the caller has a load started
    rw [hcase]
    apply inv_wait h
    · intro id hid
      rw [List.map_append]
      exact List.mem_append_left _ hid
    · simp
    · intro g hg hattached
      obtain hg | hg := List.mem_append.mp hg
      · exact .inr ⟨g, hg, hattached, rfl⟩
      · obtain rfl := List.mem_singleton.mp hg
        exact .inl rfl
    · intro waiting hone hothers
      have hzero : s.waitingFor s.cache.started = 0 := h.tallied.known _ (Nat.le_refl _)
      exact h.tallied.start (by omega) hothers

/-! ## Any event -/

omit [DecidableEq κ] in
/-- Loads may be detached, and the store may change. -/
theorem Inv.of_cache (h : Inv s) {cache : ReadThrough κ ν} (htallied : cache.Tallied s.waitingFor)
    (hids : cache.flights.map Flight.id = s.cache.flights.map Flight.id)
    (hattached : ∀ f ∈ cache.flights, f.attached = true → f ∈ s.cache.flights) (now : Time) :
    Inv { s with now := now, cache := cache } where
  tallied := htallied
  flying := fun w hw => by
    rw [hids]
    exact h.flying w hw
  attended := fun f hf hnow => h.attended f (hattached f hf hnow) hnow
  distinct := h.distinct
  below := h.below
  direct := h.direct

/-- Every event keeps the invariant. -/
theorem inv_step (h : Inv s) (abortable : Bool) (e : Event κ ι ν) :
    Inv (step ⟨false, abortable⟩ s e).2 := by
  cases e with
  | request refresh key input ttl signal => exact inv_request h abortable refresh key input ttl signal
  | resolve load value => exact inv_settle h load (.ok value)
  | reject load message => exact inv_settle h load (.error message)
  | abort signal reason =>
    obtain hcase | ⟨aborted, s', hcase, hspec⟩ := @abort_spec κ ι ν _ s h abortable signal reason
    · rw [step, hcase]
      exact h
    · rw [step, hcase]
      exact hspec.inv
  | invalidate key =>
    exact h.of_cache (h.tallied.invalidate key) ReadThrough.invalidate_ids
      (fun f hf hattached => (ReadThrough.exists_of_mem_invalidate hf hattached).1) s.now
  | invalidateAll =>
    refine h.of_cache h.tallied.invalidateAll ReadThrough.invalidateAll_ids ?_ s.now
    intro f hf hattached
    rw [ReadThrough.not_attached_invalidateAll hf] at hattached
    exact nomatch hattached
  -- the clock and the store matter to nobody who waits
  | advance span =>
    have htallied : (s.cache.advance (s.now + span)).Tallied s.waitingFor :=
      h.tallied.of_flights rfl rfl
    exact h.of_cache htallied rfl (fun _ hf _ => hf) (s.now + span)
  | seed key value ttl =>
    have htallied : ({ s.cache with store := s.cache.store.set key value ttl s.now } :
        ReadThrough κ ν).Tallied s.waitingFor := h.tallied.of_flights rfl rfl
    exact h.of_cache htallied rfl (fun _ hf _ => hf) s.now
  | peek key =>
    have htallied : (s.cache.stored false key none s.now).2.Tallied s.waitingFor :=
      h.tallied.of_flights rfl rfl
    exact h.of_cache htallied rfl (fun _ hf _ => hf) s.now

/-! ## Who is answered, who waits -/

/-- The load that an event ends, with its outcome. -/
def Event.ends? : Event κ ι ν → Option (Nat × Outcome ν)
  | .resolve load value => some (load, .ok value)
  | .reject load message => some (load, .error message)
  | _ => none

/-- Whether an event aborts the signal of a caller that waits. -/
def Event.aborts (e : Event κ ι ν) (w : Waiter) : Prop :=
  ∃ signal reason, e = .abort signal reason ∧ w.signal = some signal

theorem step_of_ends {e : Event κ ι ν} {load : Nat} {outcome : Outcome ν}
    (hend : e.ends? = some (load, outcome)) (mode : Mode) (s : State κ ν) :
    step mode s e = ({ settled := (s.settle load outcome).1 }, (s.settle load outcome).2) := by
  cases e with
  | resolve l v | reject l m =>
    simp only [Event.ends?, Option.some.injEq, Prod.mk.injEq] at hend
    obtain ⟨rfl, rfl⟩ := hend
    rfl
  | _ => exact nomatch hend

/-- A caller gets something as it comes, or by the end of the load that it waits for, or by its own
signal. -/
theorem settled_of_step (h : Inv s) (abortable : Bool) (e : Event κ ι ν) {c : Nat}
    {outcome : Outcome ν} (hsettled : (c, outcome) ∈ (step ⟨false, abortable⟩ s e).1.settled) :
    (c = s.callers ∧ ∃ refresh key input ttl signal, e = .request refresh key input ttl signal ∧
      ∀ v, outcome = .ok v → s.cache.store.Holds key v) ∨
    (∃ w ∈ s.waiting, w.caller = c ∧ e.ends? = some (w.load, outcome)) ∨
    (∃ w ∈ s.waiting, w.caller = c ∧ e.aborts w ∧ ∃ reason, outcome = .error reason) := by
  cases e with
  | request refresh key input ttl signal =>
    -- only the new caller gets something, and a value only if it was held
    refine .inl ?_
    obtain ⟨reason, hcase⟩ | ⟨v, hheld, hcase⟩ | ⟨f, -, hcase⟩ | ⟨-, hcase⟩ :=
      request_spec abortable s refresh key input ttl signal
    · rw [hcase, List.mem_singleton] at hsettled
      obtain ⟨rfl, rfl⟩ := Prod.mk.inj hsettled
      exact ⟨rfl, refresh, key, input, ttl, signal, rfl, fun v hv => nomatch hv⟩
    · rw [hcase, List.mem_singleton] at hsettled
      obtain ⟨rfl, rfl⟩ := Prod.mk.inj hsettled
      refine ⟨rfl, refresh, key, input, ttl, signal, rfl, fun u hu => ?_⟩
      obtain rfl : v = u := Except.ok.inj hu
      exact hheld
    · rw [hcase] at hsettled
      exact nomatch hsettled
    · rw [hcase] at hsettled
      exact nomatch hsettled
  | resolve load v | reject load message =>
    obtain ⟨w, hw, hcaller, rfl, rfl⟩ := settled_of_settle hsettled
    exact .inr (.inl ⟨w, hw, hcaller, rfl⟩)
  | abort signal reason =>
    obtain hcase | ⟨aborted, s', hcase, -⟩ := @abort_spec κ ι ν _ s h abortable signal reason
    · rw [step, hcase] at hsettled
      exact nomatch hsettled
    · rw [step, hcase] at hsettled
      obtain ⟨w, hleaving, heq⟩ := List.mem_map.mp hsettled
      obtain ⟨hw, hsignal⟩ := List.mem_filter.mp hleaving
      obtain ⟨rfl, rfl⟩ := Prod.mk.inj heq
      refine .inr (.inr ⟨w, hw, rfl, ⟨signal, reason, rfl, by simpa using hsignal⟩, reason, rfl⟩)
  | invalidate | invalidateAll | advance | seed | peek => exact nomatch hsettled

/-- Whoever waits has waited before, or comes and joins the load that is attached, or comes and has
a load started. -/
theorem waiting_of_step (h : Inv s) (abortable : Bool) (e : Event κ ι ν)
    (hw : w ∈ (step ⟨false, abortable⟩ s e).2.waiting) :
    w ∈ s.waiting ∨ (w.caller = s.callers ∧ ∃ refresh key input ttl signal,
      e = .request refresh key input ttl signal ∧
        ((∃ f, s.cache.attached? key = some f ∧ w.load = f.id) ∨
          (w.load, key, input) ∈ (step ⟨false, abortable⟩ s e).1.started)) := by
  cases e with
  | request refresh key input ttl signal =>
    obtain ⟨reason, hcase⟩ | ⟨v, hheld, hcase⟩ | ⟨f, hf, hcase⟩ | ⟨-, hcase⟩ :=
      request_spec abortable s refresh key input ttl signal
    · rw [hcase] at hw
      exact .inl hw
    · rw [hcase] at hw
      exact .inl hw
    · rw [hcase] at hw
      obtain hw | hw := List.mem_append.mp hw
      · exact .inl hw
      · obtain rfl := List.mem_singleton.mp hw
        exact .inr ⟨rfl, refresh, key, input, ttl, signal, rfl, .inl ⟨f, hf, rfl⟩⟩
    · rw [hcase] at hw ⊢
      obtain hw | hw := List.mem_append.mp hw
      · exact .inl hw
      · obtain rfl := List.mem_singleton.mp hw
        exact .inr ⟨rfl, refresh, key, input, ttl, signal, rfl, .inr List.mem_cons_self⟩
  -- all other events only send callers away
  | resolve load v | reject load v =>
    rw [step, settle_eq] at hw
    exact .inl (List.mem_filter.mp hw).1
  | abort signal reason =>
    obtain hcase | ⟨aborted, s', hcase, hspec⟩ := @abort_spec κ ι ν _ s h abortable signal reason
    · rw [step, hcase] at hw
      exact .inl hw
    · rw [step, hcase] at hw
      have hmem : w ∈ s'.waiting := hw
      rw [hspec.waiting] at hmem
      exact .inl (List.mem_filter.mp hmem).1
  | invalidate | invalidateAll | advance | seed | peek => exact .inl hw

/-- A caller goes on waiting until its load ends or its signal aborts. -/
theorem stays_of_step (h : Inv s) (abortable : Bool) {e : Event κ ι ν} (hw : w ∈ s.waiting)
    (hend : ∀ outcome, e.ends? ≠ some (w.load, outcome)) (habort : ¬ e.aborts w) :
    w ∈ (step ⟨false, abortable⟩ s e).2.waiting := by
  cases e with
  | request refresh key input ttl signal =>
    obtain ⟨reason, hcase⟩ | ⟨v, hheld, hcase⟩ | ⟨f, hf, hcase⟩ | ⟨-, hcase⟩ :=
      request_spec abortable s refresh key input ttl signal
    · rw [hcase]
      exact hw
    · rw [hcase]
      exact hw
    · rw [hcase]
      exact List.mem_append_left _ hw
    · rw [hcase]
      exact List.mem_append_left _ hw
  | resolve load v | reject load message =>
    apply stays_of_settle hw
    rintro rfl
    exact hend _ rfl
  | abort signal reason =>
    obtain hcase | ⟨aborted, s', hcase, hspec⟩ := @abort_spec κ ι ν _ s h abortable signal reason
    · rw [step, hcase]
      exact hw
    · rw [step, hcase]
      have hmem : w ∈ s'.waiting := by
        rw [hspec.waiting, List.mem_filter, decide_eq_true_eq]
        refine ⟨hw, fun hcaller => ?_⟩
        obtain ⟨v, hv, heq⟩ := List.mem_map.mp hcaller
        obtain ⟨hv, hsignal⟩ := List.mem_filter.mp hv
        -- the caller would carry the signal, but the event does not abort it
        obtain rfl := List.inj_on_of_nodup_map h.distinct hv hw heq
        exact habort ⟨signal, reason, rfl, by simpa using hsignal⟩
      exact hmem
  | invalidate | invalidateAll | advance | seed | peek => exact hw

theorem callers_step (h : Inv s) (abortable : Bool) (e : Event κ ι ν) :
    s.callers ≤ (step ⟨false, abortable⟩ s e).2.callers := by
  cases e with
  | request refresh key input ttl signal =>
    exact Nat.le_of_lt (callers_request abortable s refresh key input ttl signal)
  | abort signal reason =>
    obtain hcase | ⟨aborted, s', hcase, hspec⟩ := @abort_spec κ ι ν _ s h abortable signal reason
    · exact Nat.le_of_eq (congrArg (fun r => r.2.callers) hcase).symm
    · rw [step, hcase]
      exact Nat.le_of_eq hspec.callers.symm
  | _ => exact Nat.le_refl _

/-- The session after a list of events. -/
def after (mode : Mode) (s : State κ ν) (events : List (Event κ ι ν)) : State κ ν :=
  events.foldl (fun s e => (step mode s e).2) s

theorem inv_after (h : Inv s) (abortable : Bool) (events : List (Event κ ι ν)) :
    Inv (after ⟨false, abortable⟩ s events) := by
  induction events generalizing s with
  | nil => exact h
  | cons e rest ih => exact ih (inv_step h abortable e)

end IssueQuery.Session
