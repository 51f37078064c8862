import IssueQuery.Proofs.Cache.Signals

/-!
# Loads that all callers leave

A load has a signal of its own, which aborts when the last of its callers has left. Callers that
stay, with a signal or without one, keep it going; so a load is aborted exactly if all callers that
ever waited for it were turned away while it was under way. From then on it has no effect: nobody
joins it, and its value is not stored.

* `mem_aborted_iff`  which loads an event aborts;
* `Deserted`         the loads that nobody waits for any more;
* `abortsOf_eq`      the reason for which a run aborts a load;
* `abortsOf_ne_nil`  which loads a run aborts: those that all of their callers leave.
-/

namespace IssueQuery.Session

variable {κ ι ν : Type} [DecidableEq κ] {s s' : State κ ν} {w : Waiter} {ws : List Waiter}
  {load : Nat} {k : κ}

/-! ## The loads that an abort leaves alone -/

omit [DecidableEq κ] in
/-- The last of the callers of a load aborts it. -/
theorem mem_aborted_turnAway (h : Inv s) (hw : w ∈ s.waiting) {reason r : Text} :
    (load, r) ∈ (s.turnAway w reason).1 ↔
      r = reason ∧ load = w.load ∧ ∀ v ∈ s.waiting, v.load = load → v.caller = w.caller := by
  have haborted : (s.turnAway w reason).1 =
      if (s.cache.leave w.load).1 then [(w.load, reason)] else [] := rfl
  obtain ⟨f, hf, hid⟩ := List.mem_map.mp (h.flying w hw)
  have hlast : (s.cache.leave w.load).1 = true ↔ s.waitingFor w.load = 1 := by
    rw [← hid]
    exact h.tallied.leave_isLast hf
  have htotal := countP_filter_caller h.distinct hw w.load
  rw [if_pos rfl] at htotal
  have htotal : s.waitingFor w.load =
      (s.waiting.filter (·.caller != w.caller)).countP (·.load == w.load) + 1 := htotal
  -- the caller is the last one if no other caller waits for the load
  have hothers : s.waitingFor w.load = 1 ↔
      ∀ v ∈ s.waiting, v.load = w.load → v.caller = w.caller := by
    rw [htotal, Nat.add_eq_right, List.countP_eq_zero]
    simp only [List.mem_filter, bne_iff_ne, beq_iff_eq, and_imp]
    constructor
    · intro hnone v hv hload
      exact Decidable.byContradiction fun hne => hnone v hv hne hload
    · intro hall v hv hne hload
      exact hne (hall v hv hload)
  rw [haborted]
  split
  · rename_i hleft
    rw [List.mem_singleton, Prod.mk.injEq]
    constructor
    · rintro ⟨rfl, rfl⟩
      exact ⟨rfl, rfl, hothers.mp (hlast.mp hleft)⟩
    · rintro ⟨rfl, rfl, -⟩
      exact ⟨rfl, rfl⟩
  · rename_i hleft
    constructor
    · exact fun hmem => nomatch hmem
    · rintro ⟨-, rfl, hall⟩
      exact absurd (hlast.mpr (hothers.mpr hall)) hleft

omit [DecidableEq κ] in
theorem mem_waiting_turnAway {v : Waiter} {reason : Text} :
    v ∈ (s.turnAway w reason).2.waiting ↔ v ∈ s.waiting ∧ v.caller ≠ w.caller := by
  rw [State.turnAway, List.mem_filter, bne_iff_ne]

omit [DecidableEq κ] in
/-- Callers that are turned away behind another one wait till then. -/
theorem waiting_of_mem_rest {rest : List Waiter} (hws : ∀ v ∈ w :: rest, v ∈ s.waiting)
    (hdistinct : ((w :: rest).map Waiter.caller).Nodup) (reason : Text) :
    ∀ v ∈ rest, v ∈ (s.turnAway w reason).2.waiting := by
  intro v hv
  rw [List.map_cons, List.nodup_cons] at hdistinct
  refine mem_waiting_turnAway.mpr ⟨hws v (List.mem_cons_of_mem w hv), fun heq => ?_⟩
  exact hdistinct.1 (heq ▸ List.mem_map_of_mem hv)

omit [DecidableEq κ] in
/-- Of the loads of callers that are turned away, those that nobody else waits for are aborted. -/
theorem mem_aborted_turnAwayAll (h : Inv s) (hws : ∀ w ∈ ws, w ∈ s.waiting)
    (hdistinct : (ws.map Waiter.caller).Nodup) {reason r : Text} :
    (load, r) ∈ (s.turnAwayAll reason ws).1 ↔
      r = reason ∧ (∃ w ∈ ws, w.load = load) ∧
        ∀ v ∈ s.waiting, v.load = load → v.caller ∈ ws.map Waiter.caller := by
  induction ws generalizing s with
  | nil =>
    refine ⟨fun hmem => absurd hmem List.not_mem_nil, ?_⟩
    rintro ⟨-, ⟨w, hw, -⟩, -⟩
    exact absurd hw List.not_mem_nil
  | cons w rest ih =>
    have hw := hws w List.mem_cons_self
    have hrest := waiting_of_mem_rest hws hdistinct reason
    have hmore := ih (inv_turnAway h hw reason) hrest (List.nodup_cons.mp hdistinct).2
    have hparts : (s.turnAwayAll reason (w :: rest)).1 = (s.turnAway w reason).1 ++
        ((s.turnAway w reason).2.turnAwayAll reason rest).1 := rfl
    rw [hparts, List.mem_append, mem_aborted_turnAway h hw, hmore]
    constructor
    · rintro (⟨rfl, rfl, hall⟩ | ⟨rfl, ⟨v, hv, hload⟩, hall⟩)
      · exact ⟨rfl, ⟨w, List.mem_cons_self, rfl⟩, fun u hu hload =>
          List.mem_map.mpr ⟨w, List.mem_cons_self, (hall u hu hload).symm⟩⟩
      · refine ⟨rfl, ⟨v, List.mem_cons_of_mem w hv, hload⟩, fun u hu hload => ?_⟩
        by_cases hsame : u.caller = w.caller
        · exact List.mem_map.mpr ⟨w, List.mem_cons_self, hsame.symm⟩
        · exact List.mem_cons_of_mem _ (hall u (mem_waiting_turnAway.mpr ⟨hu, hsame⟩) hload)
    · rintro ⟨rfl, ⟨v, hv, hload⟩, hall⟩
      by_cases hlater : ∃ u ∈ rest, u.load = load
      · refine .inr ⟨rfl, hlater, fun u hu hload => ?_⟩
        obtain ⟨hu, hne⟩ := mem_waiting_turnAway.mp hu
        exact (List.mem_cons.mp (hall u hu hload)).resolve_left hne
      · -- whoever waits for the load is the first one to be turned away
        obtain rfl | hv := List.mem_cons.mp hv
        · refine .inl ⟨rfl, hload.symm, fun u hu huload => ?_⟩
          refine (List.mem_cons.mp (hall u hu huload)).resolve_right fun hmem => ?_
          obtain ⟨u', hu', hcaller⟩ := List.mem_map.mp hmem
          obtain rfl := List.inj_on_of_nodup_map h.distinct
            (hws u' (List.mem_cons_of_mem v hu')) hu hcaller
          exact hlater ⟨u', hu', huload⟩
        · exact absurd ⟨v, hv, hload⟩ hlater

omit [DecidableEq κ] in
/-- No load is aborted twice. -/
theorem nodup_aborted_turnAwayAll (h : Inv s) (hws : ∀ w ∈ ws, w ∈ s.waiting)
    (hdistinct : (ws.map Waiter.caller).Nodup) (reason : Text) :
    ((s.turnAwayAll reason ws).1.map Prod.fst).Nodup := by
  induction ws generalizing s with
  | nil => exact List.nodup_nil
  | cons w rest ih =>
    have hw := hws w List.mem_cons_self
    have hinv := inv_turnAway h hw reason
    have hrest := waiting_of_mem_rest hws hdistinct reason
    have hnodup := (List.nodup_cons.mp hdistinct).2
    have hparts : (s.turnAwayAll reason (w :: rest)).1 =
        (if (s.cache.leave w.load).1 then [(w.load, reason)] else []) ++
          ((s.turnAway w reason).2.turnAwayAll reason rest).1 := rfl
    have hfirst : (s.turnAway w reason).1 =
        if (s.cache.leave w.load).1 then [(w.load, reason)] else [] := rfl
    rw [hparts, List.map_append, List.nodup_append]
    refine ⟨by split <;> simp, ih hinv hrest hnodup, ?_⟩
    -- a load that is aborted has no caller left to be turned away
    intro a ha b hb heq
    obtain ⟨⟨a', r⟩, hleft, rfl⟩ := List.mem_map.mp ha
    obtain ⟨⟨b', r'⟩, hlater, rfl⟩ := List.mem_map.mp hb
    obtain rfl : a' = b' := heq
    rw [← hfirst] at hleft
    obtain ⟨-, -, hall⟩ := (mem_aborted_turnAway h hw).mp hleft
    obtain ⟨-, ⟨v, hv, hload⟩, -⟩ := (mem_aborted_turnAwayAll hinv hrest hnodup).mp hlater
    obtain ⟨hold, hne⟩ := mem_waiting_turnAway.mp (hrest v hv)
    exact hne (hall v hold hload)

/-! ## Loads that an event aborts -/

/-- An abort that does anything aborts loads as it turns those away who carry the signal. -/
theorem aborted_of_abort (h : Inv s) (abortable : Bool) {signal : Text}
    (hnew : s.reason? (some signal) = none) (reason : Text) :
    (step ⟨false, abortable⟩ s (.abort signal reason : Event κ ι ν)).1.aborted =
      (State.turnAwayAll { s with signals := s.signals ++ [(signal, reason)] } reason
        (s.carrying signal)).1 := by
  -- a cache that is not disabled has no loads with a signal of a caller
  have hown := (turnAwayAll_spec (h.noted signal reason) (fun w hw => (mem_carrying.mp hw).1)
    (h.nodup_carrying signal) reason).inv.direct
  simp only [State.carrying] at hown ⊢
  simp only [step, State.abort, hnew, Option.isSome_none, Bool.false_eq_true, if_false, hown,
    List.filter_nil, List.map_nil, List.append_nil]

omit [DecidableEq κ] in
/-- Callers are told apart by their numbers, so one that waits carries a signal if its number is
that of one who does. -/
theorem mem_callers_carrying (h : Inv s) (hw : w ∈ s.waiting) {signal : Text} :
    w.caller ∈ (s.carrying signal).map Waiter.caller ↔ w.signal = some signal := by
  constructor
  · intro hcaller
    obtain ⟨v, hv, heq⟩ := List.mem_map.mp hcaller
    obtain ⟨hv, hsignal⟩ := mem_carrying.mp hv
    obtain rfl := List.inj_on_of_nodup_map h.distinct hv hw heq
    exact hsignal
  · intro hsignal
    exact List.mem_map_of_mem (mem_carrying.mpr ⟨hw, hsignal⟩)

/-- The first abort of a signal aborts the loads whose remaining callers all carry it. -/
theorem mem_aborted_of_abort (h : Inv s) (abortable : Bool) {signal : Text}
    (hnew : s.reason? (some signal) = none) {reason r : Text} :
    (load, r) ∈ (step ⟨false, abortable⟩ s (.abort signal reason : Event κ ι ν)).1.aborted ↔
      r = reason ∧ (∃ w ∈ s.waiting, w.load = load ∧ w.signal = some signal) ∧
        ∀ w ∈ s.waiting, w.load = load → w.signal = some signal := by
  have hcarrying : ∀ w ∈ s.carrying signal, w ∈ s.waiting := fun w hw => (mem_carrying.mp hw).1
  rw [aborted_of_abort h abortable hnew,
    mem_aborted_turnAwayAll (h.noted signal reason) hcarrying (h.nodup_carrying signal)]
  refine and_congr_right fun _ => and_congr ?_ ?_
  · constructor
    · rintro ⟨w, hw, hload⟩
      obtain ⟨hw, hsignal⟩ := mem_carrying.mp hw
      exact ⟨w, hw, hload, hsignal⟩
    · rintro ⟨w, hw, hload, hsignal⟩
      exact ⟨w, mem_carrying.mpr ⟨hw, hsignal⟩, hload⟩
  · exact forall₂_congr fun w hw => imp_congr_right fun _ => mem_callers_carrying h hw

/-- Only an abort aborts loads: those whose remaining callers all carry the signal. -/
theorem mem_aborted_iff (h : Inv s) (halive : Unaborted s) (abortable : Bool) (e : Event κ ι ν)
    (load : Nat) (r : Text) :
    (load, r) ∈ (step ⟨false, abortable⟩ s e).1.aborted ↔
      ∃ signal, e = .abort signal r ∧ (∃ w ∈ s.waiting, w.load = load ∧ w.signal = some signal) ∧
        ∀ w ∈ s.waiting, w.load = load → w.signal = some signal := by
  have hnothing (haborted : (step ⟨false, abortable⟩ s e).1.aborted = [])
      (hother : ∀ signal, e = .abort signal r →
        ¬ ∃ w ∈ s.waiting, w.load = load ∧ w.signal = some signal) :
      (load, r) ∈ (step ⟨false, abortable⟩ s e).1.aborted ↔
        ∃ signal, e = .abort signal r ∧
          (∃ w ∈ s.waiting, w.load = load ∧ w.signal = some signal) ∧
          ∀ w ∈ s.waiting, w.load = load → w.signal = some signal := by
    rw [haborted]
    refine ⟨fun hmem => absurd hmem List.not_mem_nil, ?_⟩
    rintro ⟨signal, he, hsome, -⟩
    exact absurd hsome (hother signal he)
  cases e with
  | abort signal reason =>
    cases hreason : s.reason? (some signal) with
    | some earlier =>
      refine hnothing (by rw [step, State.abort, hreason]; rfl) ?_
      -- nobody who waits carries a signal that has aborted
      rintro signal' he ⟨w, hw, -, hsignal⟩
      obtain ⟨rfl, -⟩ := Event.abort.inj he
      rw [← hsignal, halive w hw] at hreason
      cases hreason
    | none =>
      rw [mem_aborted_of_abort h abortable hreason]
      constructor
      · rintro ⟨rfl, hsome⟩
        exact ⟨signal, rfl, hsome⟩
      · rintro ⟨signal', he, hsome⟩
        obtain ⟨rfl, rfl⟩ := Event.abort.inj he
        exact ⟨rfl, hsome⟩
  | request refresh key input ttl signal =>
    refine hnothing ?_ (by simp)
    obtain ⟨reason, hcase⟩ | ⟨v, -, hcase⟩ | ⟨f, -, hcase⟩ | ⟨-, hcase⟩ :=
      request_spec abortable s refresh key input ttl signal <;> rw [hcase]
  | _ => exact hnothing rfl (by simp)

theorem nodup_aborted (h : Inv s) (abortable : Bool) (e : Event κ ι ν) :
    ((step ⟨false, abortable⟩ s e).1.aborted.map Prod.fst).Nodup := by
  cases e with
  | abort signal reason =>
    cases hreason : s.reason? (some signal) with
    | some earlier =>
      rw [step, State.abort, hreason]
      exact List.nodup_nil
    | none =>
      rw [aborted_of_abort h abortable hreason reason]
      exact nodup_aborted_turnAwayAll (h.noted signal reason)
        (fun w hw => (mem_carrying.mp hw).1) (h.nodup_carrying signal) reason
  | request refresh key input ttl signal =>
    obtain ⟨reason, hcase⟩ | ⟨v, -, hcase⟩ | ⟨f, -, hcase⟩ | ⟨-, hcase⟩ :=
      request_spec abortable s refresh key input ttl signal <;> rw [hcase] <;>
      exact List.nodup_nil
  | _ => exact List.nodup_nil

/-! ## Loads that nobody waits for any more -/

/-- The load has started, and nobody waits for it. -/
structure Deserted (load : Nat) (s : State κ ν) : Prop where
  started : load < s.cache.started
  nobody : ∀ w ∈ s.waiting, w.load ≠ load

omit [DecidableEq κ] in
/-- Nobody can join a load that nobody waits for. -/
theorem Deserted.detached (hd : Deserted load s) (h : Inv s) :
    ∀ f ∈ s.cache.flights, f.id = load → f.attached = false := by
  intro f hf hid
  cases hattached : f.attached with
  | false => rfl
  | true =>
    obtain ⟨w, hw, hload⟩ := h.attended f hf hattached
    exact absurd (hload.trans hid) (hd.nobody w hw)

/-- A load starts when somebody asks for its key and there is none to join. It takes the next
number, and the caller waits for it. -/
theorem starts_spec (abortable : Bool) {e : Event κ ι ν} {input : ι}
    (h : (load, k, input) ∈ (step ⟨false, abortable⟩ s e).1.started) :
    load = s.cache.started ∧ s.cache.attached? k = none ∧
      ∃ refresh ttl signal, e = .request refresh k input ttl signal ∧
        (step ⟨false, abortable⟩ s e).2 =
          { s with
            callers := s.callers + 1
            waiting := s.waiting ++ [⟨s.callers, s.cache.started, signal⟩]
            cache :=
              { (s.cache.stored refresh k ttl s.now).2 with
                flights := s.cache.flights ++ [⟨s.cache.started, k, ttl, 1, 0, true⟩]
                started := s.cache.started + 1 } } := by
  cases e with
  | request refresh key input' ttl signal =>
    obtain ⟨reason, hcase⟩ | ⟨v, -, hcase⟩ | ⟨f, -, hcase⟩ | ⟨hnone, hcase⟩ :=
      request_spec abortable s refresh key input' ttl signal
    · rw [hcase] at h
      exact absurd h List.not_mem_nil
    · rw [hcase] at h
      exact absurd h List.not_mem_nil
    · rw [hcase] at h
      exact absurd h List.not_mem_nil
    · -- only a miss of the cache starts a load
      rw [hcase, List.mem_singleton] at h
      obtain ⟨rfl, rfl, rfl⟩ : load = s.cache.started ∧ k = key ∧ input = input' := by simpa using h
      exact ⟨rfl, hnone, refresh, ttl, signal, rfl, by rw [hcase]⟩
  | abort signal reason =>
    rw [step, State.abort] at h
    split at h <;> exact absurd h List.not_mem_nil
  | _ => exact absurd h List.not_mem_nil

theorem started_of_step (abortable : Bool) {e : Event κ ι ν} {input : ι}
    (h : (load, k, input) ∈ (step ⟨false, abortable⟩ s e).1.started) :
    load = s.cache.started ∧
      ∃ refresh ttl signal, e = .request refresh k input ttl signal := by
  obtain ⟨hload, -, refresh, ttl, signal, he, -⟩ := starts_spec abortable h
  exact ⟨hload, refresh, ttl, signal, he⟩

theorem started_step (abortable : Bool) (e : Event κ ι ν) :
    s.cache.started ≤ (step ⟨false, abortable⟩ s e).2.cache.started := by
  cases e with
  | request refresh key input ttl signal =>
    obtain ⟨reason, hcase⟩ | ⟨v, -, hcase⟩ | ⟨f, -, hcase⟩ | ⟨-, hcase⟩ :=
      request_spec abortable s refresh key input ttl signal
    · exact Nat.le_of_eq (congrArg (fun out => out.2.cache.started) hcase).symm
    · exact Nat.le_of_eq (congrArg (fun out => out.2.cache.started) hcase).symm
    · exact Nat.le_of_eq (congrArg (fun out => out.2.cache.started) hcase).symm
    · rw [hcase]
      exact Nat.le_succ _
  | resolve load v | reject load message =>
    rw [step, settle_eq]
    exact Nat.le_of_eq ReadThrough.settle_started.symm
  | abort signal reason =>
    cases hreason : s.reason? (some signal) with
    | some earlier =>
      rw [step, State.abort, hreason]
      exact Nat.le_refl _
    | none => exact Nat.le_of_eq (abort_frame (ι := ι) ⟨false, abortable⟩ hreason reason).2.symm
  | invalidate | invalidateAll | advance | seed | peek => exact Nat.le_refl _

/-- Once nobody waits for a load, nobody ever will. -/
theorem Deserted.step (hd : Deserted load s) (h : Inv s) (abortable : Bool) (e : Event κ ι ν) :
    Deserted load (step ⟨false, abortable⟩ s e).2 := by
  refine ⟨Nat.lt_of_lt_of_le hd.started (started_step abortable e), fun w hw hload => ?_⟩
  obtain hw | ⟨-, refresh, key, input, ttl, signal, -, ⟨f, hf, hjoined⟩ | hstarted⟩ :=
    waiting_of_step h abortable e hw
  · exact hd.nobody w hw hload
  · -- whoever comes joins another load
    obtain ⟨hmem, hattached, -⟩ := ReadThrough.mem_of_attached? hf
    rw [hd.detached h f hmem (hjoined.symm.trans hload)] at hattached
    exact nomatch hattached
  · have hnext := (started_of_step abortable hstarted).1
    have hstarted := hd.started
    omega

theorem Deserted.after (hd : Deserted load s) (h : Inv s) (abortable : Bool)
    (events : List (Event κ ι ν)) : Deserted load (after ⟨false, abortable⟩ s events) := by
  induction events generalizing s with
  | nil => exact hd
  | cons e rest ih => exact ih (hd.step h abortable e) (inv_step h abortable e)

omit [DecidableEq κ] in
/-- A load that somebody waits for has started. -/
theorem started_of_waiting (h : Inv s) (hw : w ∈ s.waiting) : w.load < s.cache.started := by
  obtain ⟨f, hf, hid⟩ := List.mem_map.mp (h.flying w hw)
  rw [← hid]
  exact h.tallied.below f hf

/-- Nobody waits any more for a load that was aborted or has ended. -/
theorem deserted_of_aborted (h : Inv s) (halive : Unaborted s) (abortable : Bool) {e : Event κ ι ν}
    {r : Text} (haborted : (load, r) ∈ (step ⟨false, abortable⟩ s e).1.aborted) :
    Deserted load (step ⟨false, abortable⟩ s e).2 := by
  obtain ⟨signal, rfl, ⟨w, hw, rfl, hsignal⟩, hall⟩ :=
    (mem_aborted_iff h halive abortable e load r).mp haborted
  refine ⟨Nat.lt_of_lt_of_le (started_of_waiting h hw) (started_step abortable _),
    fun v hv hload => ?_⟩
  obtain hold | ⟨-, refresh, key, input, ttl, signal', he, -⟩ := waiting_of_step h abortable _ hv
  · exact gone_of_tells h halive abortable hold
      (.inr ⟨signal, r, rfl, hall v hold hload⟩) v hv rfl
  · exact nomatch he

theorem deserted_of_ends (h : Inv s) (abortable : Bool) (hw : w ∈ s.waiting) {e : Event κ ι ν}
    {outcome : Outcome ν} (hend : e.ends? = some (w.load, outcome)) :
    Deserted w.load (step ⟨false, abortable⟩ s e).2 := by
  refine ⟨Nat.lt_of_lt_of_le (started_of_waiting h hw) (started_step abortable _),
    fun v hv hload => ?_⟩
  rw [step_of_ends hend, settle_eq] at hv
  have hother := (List.mem_filter.mp hv).2
  simp [hload] at hother

/-! ## Loads that a run aborts -/

/-- The reasons for which a load is aborted in the course of a log. -/
def abortsOf (load : Nat) (log : Log κ ι ν) : List Text :=
  log.flatMap fun p => (p.2.aborted.filter (·.1 == load)).map Prod.snd

omit [DecidableEq κ] in
theorem abortsOf_cons (load : Nat) (p : Event κ ι ν × Effects κ ι ν) (rest : Log κ ι ν) :
    abortsOf load (p :: rest) =
      (p.2.aborted.filter (·.1 == load)).map Prod.snd ++ abortsOf load rest := rfl

omit [DecidableEq κ] in
theorem abortsOf_append (load : Nat) (first second : Log κ ι ν) :
    abortsOf load (first ++ second) = abortsOf load first ++ abortsOf load second :=
  List.flatMap_append

/-- A caller waits at some point of a run. -/
def WaitsIn (mode : Mode) (s : State κ ν) (events : List (Event κ ι ν)) (w : Waiter) : Prop :=
  ∃ before rest, events = before ++ rest ∧ w ∈ (after mode s before).waiting

/-- A caller waits at some point of a run, and its signal aborts there. -/
def LeavesIn (mode : Mode) (s : State κ ν) (events : List (Event κ ι ν)) (w : Waiter) : Prop :=
  ∃ before e rest, events = before ++ e :: rest ∧ w ∈ (after mode s before).waiting ∧ e.aborts w

theorem mem_abortsOf {mode : Mode} {events : List (Event κ ι ν)} {r : Text} :
    r ∈ abortsOf load (log mode s events) ↔ ∃ before e rest, events = before ++ e :: rest ∧
      (load, r) ∈ (step mode (after mode s before) e).1.aborted := by
  have hmem (log : Log κ ι ν) : r ∈ abortsOf load log ↔ ∃ p ∈ log, (load, r) ∈ p.2.aborted := by
    simp [abortsOf]
  rw [hmem]
  constructor
  · rintro ⟨p, hp, haborted⟩
    obtain ⟨before, e, rest, rfl, rfl⟩ := mem_log hp
    exact ⟨before, e, rest, rfl, haborted⟩
  · rintro ⟨before, e, rest, rfl, haborted⟩
    rw [log_append, log_cons]
    exact ⟨_, List.mem_append_right _ List.mem_cons_self, haborted⟩

theorem abortsOf_deserted (hd : Deserted load s) (h : Inv s) (halive : Unaborted s)
    (abortable : Bool) (events : List (Event κ ι ν)) :
    abortsOf load (log ⟨false, abortable⟩ s events) = [] := by
  rw [List.eq_nil_iff_forall_not_mem]
  intro r hr
  obtain ⟨before, e, rest, -, haborted⟩ := mem_abortsOf.mp hr
  obtain ⟨signal, -, ⟨w, hw, hload, -⟩, -⟩ := (mem_aborted_iff (inv_after h abortable before)
    (unaborted_after h halive abortable before) abortable e load r).mp haborted
  exact (hd.after h abortable before).nobody w hw hload

/-- A load that somebody still waits for has not been aborted. -/
theorem abortsOf_of_waiting (h : Inv s) (halive : Unaborted s) (abortable : Bool)
    {events : List (Event κ ι ν)} (hw : w ∈ (after ⟨false, abortable⟩ s events).waiting) :
    abortsOf w.load (log ⟨false, abortable⟩ s events) = [] := by
  rw [List.eq_nil_iff_forall_not_mem]
  intro r hr
  obtain ⟨first, e, second, rfl, haborted⟩ := mem_abortsOf.mp hr
  have hinv := inv_after h abortable first
  have hdeserted := deserted_of_aborted hinv (unaborted_after h halive abortable first) abortable
    haborted
  rw [after_append, after_cons] at hw
  exact (hdeserted.after (inv_step hinv abortable e) abortable second).nobody w hw rfl

theorem after_snoc (mode : Mode) (s : State κ ν) (before : List (Event κ ι ν)) (e : Event κ ι ν) :
    after mode s (before ++ [e]) = (step mode (after mode s before) e).2 := by
  rw [after_append]
  rfl

/-- A load is aborted once, for the reason of the abort by which its last callers leave. -/
theorem abortsOf_eq (h : Inv s) (halive : Unaborted s) (abortable : Bool)
    {events : List (Event κ ι ν)} {r : Text}
    (hr : r ∈ abortsOf load (log ⟨false, abortable⟩ s events)) :
    abortsOf load (log ⟨false, abortable⟩ s events) = [r] ∧
      ∃ before signal rest, events = before ++ .abort signal r :: rest ∧
        (∃ w ∈ (after ⟨false, abortable⟩ s before).waiting,
          w.load = load ∧ w.signal = some signal) ∧
        (∀ w ∈ (after ⟨false, abortable⟩ s before).waiting,
          w.load = load → w.signal = some signal) ∧
        Deserted load (after ⟨false, abortable⟩ s (before ++ [.abort signal r])) := by
  obtain ⟨before, e, rest, rfl, haborted⟩ := mem_abortsOf.mp hr
  have hinv := inv_after h abortable before
  have hsignals := unaborted_after h halive abortable before
  have hdeserted := deserted_of_aborted hinv hsignals abortable haborted
  obtain ⟨signal, rfl, ⟨w, hw, hload, hsignal⟩, hall⟩ :=
    (mem_aborted_iff hinv hsignals abortable e load r).mp haborted
  refine ⟨?_, before, signal, rest, rfl, ⟨w, hw, hload, hsignal⟩, hall, ?_⟩
  · -- not before, as somebody waits; once by this event; not later, as nobody does
    have hbefore := hload ▸ abortsOf_of_waiting h halive abortable hw
    have hlater := abortsOf_deserted hdeserted (inv_step hinv abortable _)
      (unaborted_step hinv hsignals abortable _) abortable rest
    have honce := ReadThrough.filter_of_nodup_map (nodup_aborted hinv abortable _) haborted
    rw [log_append, abortsOf_append, hbefore, List.nil_append, log_cons, abortsOf_cons, hlater,
      List.append_nil]
    dsimp only at honce ⊢
    rw [honce]
    rfl
  · rw [after_snoc]
    exact hdeserted

/-- A caller waits on to the end of a run unless an event of the run ends its load or aborts its
signal. -/
theorem waits_until (h : Inv s) (hw : w ∈ s.waiting) (abortable : Bool)
    (events : List (Event κ ι ν)) :
    w ∈ (after ⟨false, abortable⟩ s events).waiting ∨ ∃ before e rest,
      events = before ++ e :: rest ∧ w ∈ (after ⟨false, abortable⟩ s before).waiting ∧
        ((∃ outcome, e.ends? = some (w.load, outcome)) ∨ e.aborts w) := by
  induction events generalizing s with
  | nil => exact .inl hw
  | cons e rest ih =>
    by_cases hconcerns : (∃ outcome, e.ends? = some (w.load, outcome)) ∨ e.aborts w
    · exact .inr ⟨[], e, rest, rfl, hw, hconcerns⟩
    · obtain ⟨hend, habort⟩ := not_or.mp hconcerns
      have hstays := stays_of_step h abortable hw (fun outcome hends => hend ⟨outcome, hends⟩)
        habort
      obtain hlast | ⟨before, e', rest', rfl, hw', hconcerns'⟩ :=
        ih (inv_step h abortable e) hstays
      · exact .inl hlast
      · exact .inr ⟨e :: before, e', rest', rfl, hw', hconcerns'⟩

/-- A caller that waits no longer never waits again. -/
theorem gone_after {c : Nat} (h : Inv s) (hc : c < s.callers)
    (hgone : ∀ w ∈ s.waiting, w.caller ≠ c) (abortable : Bool) (events : List (Event κ ι ν)) :
    ∀ w ∈ (after ⟨false, abortable⟩ s events).waiting, w.caller ≠ c := by
  induction events generalizing s with
  | nil => exact hgone
  | cons e rest ih =>
    refine ih (inv_step h abortable e) (Nat.lt_of_lt_of_le hc (callers_step h abortable e)) ?_
    intro w hw hcaller
    obtain hold | ⟨hnew, -⟩ := waiting_of_step h abortable e hw
    · exact hgone w hold hcaller
    · omega

/-- Nowhere in a run does a caller wait behind the event that ends its load or aborts its signal. -/
theorem before_of_waits (h : Inv s) (halive : Unaborted s) (abortable : Bool)
    {before rest before' rest' : List (Event κ ι ν)} {e : Event κ ι ν}
    (hsame : before ++ e :: rest = before' ++ rest')
    (hw : w ∈ (after ⟨false, abortable⟩ s before).waiting)
    (he : (∃ outcome, e.ends? = some (w.load, outcome)) ∨ e.aborts w)
    (hw' : w ∈ (after ⟨false, abortable⟩ s before').waiting) :
    ∃ more, before = before' ++ more := by
  obtain ⟨between, rfl, hbetween⟩ | ⟨more, hmore, -⟩ := List.append_eq_append_iff.mp hsame
  · cases between with
    | nil => exact ⟨[], by simp⟩
    | cons e' between =>
      obtain ⟨rfl, -⟩ := List.cons.inj hbetween
      have hinv := inv_after h abortable before
      have hgone := gone_of_tells hinv (unaborted_after h halive abortable before) abortable hw he
      have hcallers := Nat.lt_of_lt_of_le (hinv.below w hw) (callers_step hinv abortable e)
      rw [after_append, after_cons] at hw'
      have hgone' := gone_after (inv_step hinv abortable e) hcallers hgone abortable between
      exact absurd rfl (hgone' w hw')
  · exact ⟨more, hmore⟩

/-- One event at most ends the load of a caller that waits or aborts its signal. -/
theorem same_of_waits (h : Inv s) (halive : Unaborted s) (abortable : Bool)
    {before rest before' rest' : List (Event κ ι ν)} {e e' : Event κ ι ν}
    (hsame : before ++ e :: rest = before' ++ e' :: rest')
    (hw : w ∈ (after ⟨false, abortable⟩ s before).waiting)
    (he : (∃ outcome, e.ends? = some (w.load, outcome)) ∨ e.aborts w)
    (hw' : w ∈ (after ⟨false, abortable⟩ s before').waiting)
    (he' : (∃ outcome, e'.ends? = some (w.load, outcome)) ∨ e'.aborts w) :
    before = before' ∧ e = e' := by
  obtain ⟨more, rfl⟩ := before_of_waits h halive abortable hsame hw he hw'
  obtain ⟨more', hmore'⟩ := before_of_waits h halive abortable hsame.symm hw' he' hw
  -- each of the two parts begins with the other one
  obtain rfl : more = [] := by
    have hlength := congrArg List.length hmore'
    simp only [List.length_append] at hlength
    exact List.eq_nil_of_length_eq_zero (by omega)
  rw [List.append_nil] at hsame
  exact ⟨List.append_nil before', (List.cons.inj (List.append_cancel_left hsame)).1⟩

/-- Somebody goes on to wait for a load that an event neither ends nor aborts. -/
theorem somebody_stays (h : Inv s) (halive : Unaborted s) (abortable : Bool) (hw : w ∈ s.waiting)
    {e : Event κ ι ν} (hend : ∀ outcome, e.ends? ≠ some (w.load, outcome))
    (hgoes : ∀ r, (w.load, r) ∉ (step ⟨false, abortable⟩ s e).1.aborted) :
    ∃ v ∈ (step ⟨false, abortable⟩ s e).2.waiting, v.load = w.load := by
  have hstays (v : Waiter) (hv : v ∈ s.waiting) (hload : v.load = w.load) (habort : ¬ e.aborts v) :
      v ∈ (step ⟨false, abortable⟩ s e).2.waiting :=
    stays_of_step h abortable hv (fun outcome hends => hend outcome (hload ▸ hends)) habort
  by_cases haborts : e.aborts w
  · -- the load is not aborted, so one of its callers carries another signal or none
    obtain ⟨signal, reason, rfl, hsignal⟩ := haborts
    obtain ⟨v, hv, hload, hother⟩ :
        ∃ v ∈ s.waiting, v.load = w.load ∧ v.signal ≠ some signal := by
      refine Classical.byContradiction fun hnobody => hgoes reason ?_
      refine (mem_aborted_iff h halive abortable _ _ _).mpr
        ⟨signal, rfl, ⟨w, hw, rfl, hsignal⟩, fun v hv hload => ?_⟩
      exact Classical.byContradiction fun hother => hnobody ⟨v, hv, hload, hother⟩
    refine ⟨v, hstays v hv hload ?_, hload⟩
    rintro ⟨signal', reason', he, hsignal'⟩
    obtain ⟨rfl, rfl⟩ := Event.abort.inj he
    exact hother hsignal'
  · exact ⟨w, hstays w hw rfl haborts, rfl⟩

/-- A load that somebody waits for goes on, or ends with somebody waiting for it, or is aborted. -/
theorem end_of_load (h : Inv s) (halive : Unaborted s) (abortable : Bool)
    (hw : w ∈ s.waiting) (events : List (Event κ ι ν)) :
    (∃ v ∈ (after ⟨false, abortable⟩ s events).waiting, v.load = w.load) ∨
    (∃ before e rest, events = before ++ e :: rest ∧
      ∃ v ∈ (after ⟨false, abortable⟩ s before).waiting, v.load = w.load ∧
        ∃ outcome, e.ends? = some (w.load, outcome)) ∨
    ∃ r, r ∈ abortsOf w.load (log ⟨false, abortable⟩ s events) := by
  -- the caller that is followed changes: whoever still waits for the load takes over from one who
  -- leaves
  induction events generalizing s w with
  | nil => exact .inl ⟨w, hw, rfl⟩
  | cons e rest ih =>
    by_cases hend : ∃ outcome, e.ends? = some (w.load, outcome)
    · exact .inr (.inl ⟨[], e, rest, rfl, w, hw, rfl, hend⟩)
    by_cases hall : ∃ r, (w.load, r) ∈ (step ⟨false, abortable⟩ s e).1.aborted
    · obtain ⟨r, haborted⟩ := hall
      exact .inr (.inr ⟨r, mem_abortsOf.mpr ⟨[], e, rest, rfl, haborted⟩⟩)
    obtain ⟨v, hv, hload⟩ := somebody_stays h halive abortable hw
      (fun outcome hends => hend ⟨outcome, hends⟩) fun r haborted => hall ⟨r, haborted⟩
    rw [← hload]
    obtain hlast | ⟨before, e', rest', rfl, hlater⟩ | ⟨r, hr⟩ :=
      ih (inv_step h abortable e) (unaborted_step h halive abortable e) hv
    · exact .inl hlast
    · exact .inr (.inl ⟨e :: before, e', rest', rfl, hlater⟩)
    · refine .inr (.inr ⟨r, ?_⟩)
      rw [log_cons, abortsOf_cons]
      exact List.mem_append_right _ hr

/-- All who ever wait for a load that is aborted leave it by their signals. -/
theorem leavesIn_of_abortsOf (h : Inv s) (halive : Unaborted s) (abortable : Bool)
    {events : List (Event κ ι ν)} {r : Text}
    (hr : r ∈ abortsOf w.load (log ⟨false, abortable⟩ s events))
    (hwaits : WaitsIn ⟨false, abortable⟩ s events w) : LeavesIn ⟨false, abortable⟩ s events w := by
  obtain ⟨-, before, signal, rest, rfl, ⟨v, hv, hload, -⟩, hall, hdeserted⟩ :=
    abortsOf_eq h halive abortable hr
  obtain ⟨first, second, hsplit, hw⟩ := hwaits
  -- the caller waits before the abort, as nobody waits for the load behind it
  obtain ⟨between, rfl⟩ : ∃ between, before = first ++ between := by
    obtain ⟨between, rfl, hbetween⟩ | ⟨between, hbefore, -⟩ := List.append_eq_append_iff.mp hsplit
    · cases between with
      | nil => exact ⟨[], by simp⟩
      | cons e between =>
        obtain ⟨rfl, -⟩ := List.cons.inj hbetween
        have hinv := inv_after h abortable (before ++ [.abort signal r])
        have hlater := (hdeserted.after hinv abortable between).nobody
        rw [← after_append, List.append_assoc] at hlater
        exact absurd rfl (hlater w hw)
    · exact ⟨between, hbefore⟩
  have hinv := inv_after h abortable first
  obtain hlast | ⟨mid, e, rest', rfl, hmid, ⟨outcome, hend⟩ | habort⟩ :=
    waits_until hinv hw abortable between
  · -- the caller is one of the last ones
    rw [← after_append] at hlast
    exact ⟨first ++ between, .abort signal r, rest, rfl, hlast, signal, r, rfl, hall w hlast rfl⟩
  · -- the load has not ended, as somebody still waits for it
    have hinv' := inv_after hinv abortable mid
    have hdone := (deserted_of_ends hinv' abortable hmid hend).after
      (inv_step hinv' abortable e) abortable rest'
    rw [after_append, after_append, after_cons] at hv
    exact absurd hload (hdone.nobody v hv)
  · rw [← after_append] at hmid
    exact ⟨first ++ mid, e, rest' ++ .abort signal r :: rest, by simp, hmid, habort⟩

/-- A load that all leave who ever wait for it is aborted. -/
theorem abortsOf_of_leavesIn (h : Inv s) (halive : Unaborted s) (abortable : Bool)
    {events : List (Event κ ι ν)} (hwaits : WaitsIn ⟨false, abortable⟩ s events w)
    (hall : ∀ v, WaitsIn ⟨false, abortable⟩ s events v → v.load = w.load →
      LeavesIn ⟨false, abortable⟩ s events v) :
    ∃ r, r ∈ abortsOf w.load (log ⟨false, abortable⟩ s events) := by
  obtain ⟨first, second, rfl, hw⟩ := hwaits
  have hinv := inv_after h abortable first
  have hsignals := unaborted_after h halive abortable first
  obtain ⟨v, hv, hload⟩ | ⟨mid, e, rest, rfl, v, hv, hload, outcome, hend⟩ | ⟨r, hr⟩ :=
    end_of_load hinv hsignals abortable hw second
  · -- somebody still waits, but all have left
    rw [← after_append] at hv
    obtain ⟨before, e, rest, hsplit, hbefore, habort⟩ :=
      hall v ⟨first ++ second, [], by simp, hv⟩ hload
    have hend : before ++ e :: rest = (first ++ second) ++ [] := by
      rw [List.append_nil]
      exact hsplit.symm
    obtain ⟨more, rfl⟩ := before_of_waits h halive abortable hend hbefore (.inr habort) hv
    have hlength := congrArg List.length hsplit
    simp only [List.length_append, List.length_cons] at hlength
    omega
  · -- somebody gets the end of the load, but all leave before
    rw [← after_append] at hv
    obtain ⟨before, e', rest', hsplit, hbefore, habort⟩ :=
      hall v ⟨first ++ mid, e :: rest, by simp, hv⟩ hload
    rw [← List.append_assoc] at hsplit
    obtain ⟨-, rfl⟩ := same_of_waits h halive abortable hsplit hv (.inl ⟨outcome, hload ▸ hend⟩)
      hbefore (.inr habort)
    obtain ⟨signal, reason, rfl, -⟩ := habort
    cases hend
  · refine ⟨r, ?_⟩
    rw [log_append, abortsOf_append]
    exact List.mem_append_right _ hr

/-- A run aborts a load exactly if somebody waits for it in the run, and all who do leave by their
signals while they wait. -/
theorem abortsOf_ne_nil (h : Inv s) (halive : Unaborted s) (abortable : Bool)
    (events : List (Event κ ι ν)) (load : Nat) :
    (∃ r, r ∈ abortsOf load (log ⟨false, abortable⟩ s events)) ↔
      (∃ w, WaitsIn ⟨false, abortable⟩ s events w ∧ w.load = load) ∧
        ∀ w, WaitsIn ⟨false, abortable⟩ s events w → w.load = load →
          LeavesIn ⟨false, abortable⟩ s events w := by
  constructor
  · rintro ⟨r, hr⟩
    obtain ⟨-, before, signal, rest, hsplit, ⟨v, hv, hload, -⟩, -⟩ :=
      abortsOf_eq h halive abortable hr
    refine ⟨⟨v, ⟨before, _, hsplit, hv⟩, hload⟩, ?_⟩
    rintro w hw rfl
    exact leavesIn_of_abortsOf h halive abortable hr hw
  · rintro ⟨⟨w, hw, rfl⟩, hall⟩
    exact abortsOf_of_leavesIn h halive abortable hw hall

end IssueQuery.Session
