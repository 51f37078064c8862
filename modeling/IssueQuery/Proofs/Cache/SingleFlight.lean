import IssueQuery.Proofs.Cache.Isolation

/-!
# One load of a key at a time

A load *runs* from its start until it ends, its key is invalidated, or all of its callers have left.
That is a matter of what has happened; the cache on its part keeps the loads that callers can join.
The two agree at any time, so a key has one load at most that runs, and a value is stored if its
load runs when it ends.

* `origin_step`        every load under way was so before an event, or starts by it;
* `Concerns`           what a load is for stays what its first caller asked for;
* `Detached`           a load that cannot be joined never can be again;
* `attached_iff_runs`  the loads that callers can join are those that run;
* `single_flight`      what follows for runs from the start.
-/

namespace IssueQuery.Session

variable {κ ι ν : Type} [DecidableEq κ] {s s' s'' : State κ ν} {w : Waiter}
  {load : Nat} {k : κ} {ttl : Option Time}

/-! ## Loads under way -/

/-- A load and the same load later on: callers may have joined it or left, and it may have been
detached. -/
structure Continues (g f : Flight κ) : Prop where
  id : g.id = f.id
  key : g.key = f.key
  ttl : g.ttl = f.ttl
  attached : f.attached = true → g.attached = true

omit [DecidableEq κ] in
theorem Continues.refl (f : Flight κ) : Continues f f := ⟨rfl, rfl, rfl, fun h => h⟩

omit [DecidableEq κ] in
theorem Continues.trans {f g g' : Flight κ} (h : Continues g' g) (h' : Continues g f) :
    Continues g' f :=
  ⟨h.id.trans h'.id, h.key.trans h'.key, h.ttl.trans h'.ttl,
    fun hattached => h.attached (h'.attached hattached)⟩

/-- The loads under way in the second state are loads of the first one. -/
def Descends (s s' : State κ ν) : Prop :=
  ∀ f ∈ s'.cache.flights, ∃ g ∈ s.cache.flights, Continues g f

omit [DecidableEq κ] in
theorem Descends.of_subset (h : ∀ f ∈ s'.cache.flights, f ∈ s.cache.flights) : Descends s s' :=
  fun f hf => ⟨f, h f hf, .refl f⟩

omit [DecidableEq κ] in
theorem Descends.trans (h : Descends s s') (h' : Descends s' s'') : Descends s s'' := by
  intro f hf
  obtain ⟨g, hg, hlater⟩ := h' f hf
  obtain ⟨g', hg', hearlier⟩ := h g hg
  exact ⟨g', hg', hearlier.trans hlater⟩

theorem descends_settle (s : State κ ν) (load : Nat) (outcome : Outcome ν) :
    Descends s (s.settle load outcome).2 :=
  .of_subset fun _ hf => (mem_flights_settle.mp hf).1

omit [DecidableEq κ] in
theorem descends_turnAway (s : State κ ν) (w : Waiter) (reason : Text) :
    Descends s (s.turnAway w reason).2 := by
  intro f hf
  have hmem : f ∈ (s.cache.leave w.load).2.flights := hf
  rw [ReadThrough.leave_flights] at hmem
  obtain ⟨g, hg, rfl⟩ := List.mem_map.mp hmem
  refine ⟨g, hg, ?_⟩
  split
  · refine ⟨rfl, rfl, rfl, fun hattached => ?_⟩
    exact (Bool.and_eq_true_iff.mp hattached).1
  · exact .refl g

omit [DecidableEq κ] in
theorem descends_turnAwayAll (s : State κ ν) (reason : Text) (ws : List Waiter) :
    Descends s (s.turnAwayAll reason ws).2 := by
  induction ws generalizing s with
  | nil => exact .of_subset fun _ hf => hf
  | cons w rest ih => exact (descends_turnAway s w reason).trans (ih _)

theorem descends_failAll (s : State κ ν) (reason : Text) (loads : List Nat) :
    Descends s (s.failAll reason loads).2 := by
  induction loads generalizing s with
  | nil => exact .of_subset fun _ hf => hf
  | cons load rest ih => exact (descends_settle s load (.error reason)).trans (ih _)

theorem descends_abort (mode : Mode) (s : State κ ν) (signal reason : Text) :
    Descends s (s.abort mode signal reason : Effects κ ι ν × State κ ν).2 := by
  unfold State.abort
  split
  · exact .of_subset fun _ hf => hf
  · have hleft := descends_turnAwayAll { s with signals := s.signals ++ [(signal, reason)] } reason
      (s.waiting.filter fun w => w.signal = some signal)
    dsimp only
    split
    · exact hleft.trans (descends_failAll _ reason _)
    · exact hleft

/-- A load under way behind an event was so before, or starts by the event. -/
theorem origin_step (abortable : Bool) (e : Event κ ι ν) {f : Flight κ}
    (hf : f ∈ (step ⟨false, abortable⟩ s e).2.cache.flights) :
    (∃ g ∈ s.cache.flights, Continues g f) ∨
      ∃ refresh input signal, e = .request refresh f.key input f.ttl signal ∧
        (f.id, f.key, input) ∈ (step ⟨false, abortable⟩ s e).1.started := by
  cases e with
  | request refresh key input ttl signal =>
    obtain ⟨reason, hcase⟩ | ⟨v, -, hcase⟩ | ⟨g, -, hcase⟩ | ⟨-, hcase⟩ :=
      request_spec abortable s refresh key input ttl signal
    · rw [hcase] at hf
      exact .inl ⟨f, hf, .refl f⟩
    · rw [hcase] at hf
      exact .inl ⟨f, hf, .refl f⟩
    · rw [hcase] at hf
      obtain ⟨g', hg', rfl⟩ := List.mem_map.mp hf
      refine .inl ⟨g', hg', ?_⟩
      split
      · exact ⟨rfl, rfl, rfl, fun h => h⟩
      · exact .refl g'
    · -- a load that the request starts, beside the old ones
      rw [hcase] at hf ⊢
      obtain hf | hf := List.mem_append.mp hf
      · exact .inl ⟨f, hf, .refl f⟩
      · obtain rfl := List.mem_singleton.mp hf
        exact .inr ⟨refresh, input, signal, rfl, List.mem_cons_self⟩
  | resolve load v => exact .inl (descends_settle s load (.ok v) f hf)
  | reject load message => exact .inl (descends_settle s load (.error message) f hf)
  | abort signal reason =>
    exact .inl (descends_abort (ι := ι) ⟨false, abortable⟩ s signal reason f hf)
  | invalidate key =>
    obtain ⟨g, hg, rfl⟩ := List.mem_map.mp hf
    refine .inl ⟨g, hg, ?_⟩
    split
    · exact ⟨rfl, rfl, rfl, fun h => nomatch h⟩
    · exact .refl g
  | invalidateAll =>
    obtain ⟨g, hg, rfl⟩ := List.mem_map.mp hf
    exact .inl ⟨g, hg, rfl, rfl, rfl, fun h => nomatch h⟩
  | advance | seed | peek => exact .inl ⟨f, hf, .refl f⟩

/-- A load has started, and if it is under way it is for a key and a time to live. -/
structure Concerns (load : Nat) (k : κ) (ttl : Option Time) (s : State κ ν) : Prop where
  started : load < s.cache.started
  same : ∀ f ∈ s.cache.flights, f.id = load → f.key = k ∧ f.ttl = ttl

theorem Concerns.step (h : Concerns load k ttl s) (abortable : Bool) (e : Event κ ι ν) :
    Concerns load k ttl (step ⟨false, abortable⟩ s e).2 := by
  refine ⟨Nat.lt_of_lt_of_le h.started (started_step abortable e), fun f hf hid => ?_⟩
  obtain ⟨g, hg, hcontinues⟩ | ⟨refresh, input, signal, -, hstarted⟩ := origin_step abortable e hf
  · rw [← hcontinues.key, ← hcontinues.ttl]
    exact h.same g hg (hcontinues.id.trans hid)
  · -- a load that starts has a number of its own
    have hnext := (started_of_step abortable hstarted).1
    have hold := h.started
    omega

theorem Concerns.after (h : Concerns load k ttl s) (abortable : Bool)
    (events : List (Event κ ι ν)) :
    Concerns load k ttl (after ⟨false, abortable⟩ s events) := by
  induction events generalizing s with
  | nil => exact h
  | cons e rest ih => exact ih (h.step abortable e)

/-- A load is for what its first caller asked for. -/
theorem concerns_of_starts (hinv : Inv s) (abortable : Bool) {refresh : Bool} {input : ι}
    {signal : Option Text}
    (h : (load, k, input) ∈
      (step ⟨false, abortable⟩ s (.request refresh k input ttl signal)).1.started) :
    Concerns load k ttl (step ⟨false, abortable⟩ s
      (.request refresh k input ttl signal : Event κ ι ν)).2 := by
  obtain ⟨rfl, -⟩ := started_of_step abortable h
  have hnext := (joinable_of_starts abortable h).started
  refine ⟨hnext, fun f hf hid => ?_⟩
  obtain ⟨g, hg, hcontinues⟩ | ⟨refresh', input', signal', he, -⟩ := origin_step abortable _ hf
  · have hbelow := hinv.tallied.below g hg
    rw [hcontinues.id, hid] at hbelow
    exact absurd hbelow (Nat.lt_irrefl _)
  · injection he with _ hkey _ httl
    exact ⟨hkey.symm, httl.symm⟩

/-- A load has started, and nobody can join it. -/
structure Detached (load : Nat) (s : State κ ν) : Prop where
  started : load < s.cache.started
  detached : ∀ f ∈ s.cache.flights, f.id = load → f.attached = false

theorem Detached.step (h : Detached load s) (abortable : Bool) (e : Event κ ι ν) :
    Detached load (step ⟨false, abortable⟩ s e).2 := by
  refine ⟨Nat.lt_of_lt_of_le h.started (started_step abortable e), fun f hf hid => ?_⟩
  obtain ⟨g, hg, hcontinues⟩ | ⟨refresh, input, signal, -, hstarted⟩ := origin_step abortable e hf
  · have hwas := h.detached g hg (hcontinues.id.trans hid)
    cases hattached : f.attached with
    | false => rfl
    | true => exact absurd (hcontinues.attached hattached) (by simp [hwas])
  · have hnext := (started_of_step abortable hstarted).1
    have hold := h.started
    omega

theorem Detached.after (h : Detached load s) (abortable : Bool) (events : List (Event κ ι ν)) :
    Detached load (after ⟨false, abortable⟩ s events) := by
  induction events generalizing s with
  | nil => exact h
  | cons e rest ih => exact ih (h.step abortable e)

/-- Nobody joins a load that has ended. -/
theorem detached_of_ends (h : load < s.cache.started) (abortable : Bool) {e : Event κ ι ν}
    {outcome : Outcome ν} (hend : e.ends? = some (load, outcome)) :
    Detached load (step ⟨false, abortable⟩ s e).2 := by
  refine ⟨Nat.lt_of_lt_of_le h (started_step abortable e), fun f hf hid => ?_⟩
  rw [step_of_ends hend] at hf
  exact absurd hid (mem_flights_settle.mp hf).2

/-- Nobody joins a load of a key behind an invalidation of the key. -/
theorem detached_of_invalidates (h : Concerns load k ttl s) (abortable : Bool) {e : Event κ ι ν}
    (he : e.Invalidates k) : Detached load (step ⟨false, abortable⟩ s e).2 := by
  have hconcerns := h.step abortable e
  refine ⟨hconcerns.started, fun f hf hid => ?_⟩
  cases hattached : f.attached with
  | false => rfl
  | true =>
    obtain ⟨p, hp, -⟩ := (fresh_invalidate (ι := ι) he ⟨false, abortable⟩).flights f hf hattached
      (hconcerns.same f hf hid).1
    exact nomatch hp

/-! ## Loads that run -/

/-- All callers who wait for a load in the course of a run leave it by their signals. -/
def AllLeave (mode : Mode) (s : State κ ν) (events : List (Event κ ι ν)) (load : Nat) : Prop :=
  ∀ w, WaitsIn mode s events w → w.load = load → LeavesIn mode s events w

/-- A load of a key has started for a caller that asked for a time to live, and since then it has
not ended, the key was not invalidated, and not all of its callers have left. -/
def Runs (mode : Mode) (s : State κ ν) (events : List (Event κ ι ν)) (load : Nat) (k : κ)
    (ttl : Option Time) : Prop :=
  ∃ first refresh input signal rest, events = first ++ .request refresh k input ttl signal :: rest ∧
    (load, k, input) ∈
      (step mode (after mode s first) (.request refresh k input ttl signal)).1.started ∧
    (∀ e ∈ rest, (∀ outcome, e.ends? ≠ some (load, outcome)) ∧ ¬ e.Invalidates k) ∧
    ¬ AllLeave mode s events load

/-- Who starts a load waits for it. -/
theorem waits_of_starts (abortable : Bool) {e : Event κ ι ν} {input : ι}
    (h : (load, k, input) ∈ (step ⟨false, abortable⟩ s e).1.started) :
    ∃ w ∈ (step ⟨false, abortable⟩ s e).2.waiting, w.load = load := by
  obtain ⟨rfl, -, refresh, ttl, signal, rfl, hnext⟩ := starts_spec abortable h
  rw [hnext]
  exact ⟨_, List.mem_append_right _ List.mem_cons_self, rfl⟩

/-- Somebody waits at the end of a run for a load that runs. -/
theorem waits_of_runs (hinv : Inv s) (halive : Unaborted s) (abortable : Bool)
    {events : List (Event κ ι ν)} (h : Runs ⟨false, abortable⟩ s events load k ttl) :
    ∃ w ∈ (after ⟨false, abortable⟩ s events).waiting, w.load = load := by
  obtain ⟨first, refresh, input, signal, rest, rfl, hstarted, hquiet, hstays⟩ := h
  obtain ⟨w, hw, rfl⟩ := waits_of_starts abortable hstarted
  have hinv' := inv_after hinv abortable first
  have halive' := unaborted_after hinv halive abortable first
  rw [after_append, after_cons]
  obtain hlast | ⟨before, e, more, rfl, -, -, -, outcome, hend⟩ | ⟨r, hr⟩ := end_of_load
    (inv_step hinv' abortable _) (unaborted_step hinv' halive' abortable _) abortable hw rest
  · exact hlast
  · exact absurd hend ((hquiet e (List.mem_append_right _ List.mem_cons_self)).1 outcome)
  · -- the load would have been aborted, and so all of its callers would have left
    refine absurd (fun v hv hload => ?_) hstays
    have hr : r ∈ abortsOf w.load (log ⟨false, abortable⟩ s
        (first ++ .request refresh k input ttl signal :: rest)) := by
      rw [log_append, abortsOf_append, log_cons, abortsOf_cons]
      exact List.mem_append_right _ (List.mem_append_right _ hr)
    rw [← hload] at hr
    exact leavesIn_of_abortsOf hinv halive abortable hr hv

/-- A load that runs can be joined. -/
theorem attached_of_runs (hinv : Inv s) (halive : Unaborted s) (abortable : Bool)
    {events : List (Event κ ι ν)} (h : Runs ⟨false, abortable⟩ s events load k ttl) :
    ∃ f ∈ (after ⟨false, abortable⟩ s events).cache.flights,
      f.attached = true ∧ f.id = load ∧ f.key = k ∧ f.ttl = ttl := by
  obtain ⟨w, hw, hload⟩ := waits_of_runs hinv halive abortable h
  obtain ⟨first, refresh, input, signal, rest, rfl, hstarted, hquiet, -⟩ := h
  have hinv' := inv_after hinv abortable first
  have hjoinable := (joinable_of_starts abortable hstarted).after (inv_step hinv' abortable _)
    abortable fun e he => (hquiet e he).2
  have hconcerns := (concerns_of_starts hinv' abortable hstarted).after abortable rest
  rw [after_append, after_cons] at hw ⊢
  obtain ⟨f, hf, hid, hkey, hattached⟩ := hjoinable.attached w hw hload
  exact ⟨f, hf, hattached, hid, hkey, (hconcerns.same f hf hid).2⟩

/-- A load under way behind a run was so before, or starts in the course of it. -/
theorem origin_after (abortable : Bool) {events : List (Event κ ι ν)} {f : Flight κ}
    (hf : f ∈ (after ⟨false, abortable⟩ s events).cache.flights) :
    (∃ g ∈ s.cache.flights, Continues g f) ∨ ∃ first refresh input signal rest,
      events = first ++ .request refresh f.key input f.ttl signal :: rest ∧
      (f.id, f.key, input) ∈ (step ⟨false, abortable⟩ (after ⟨false, abortable⟩ s first)
        (.request refresh f.key input f.ttl signal)).1.started := by
  induction events generalizing s with
  | nil => exact .inl ⟨f, hf, .refl f⟩
  | cons e rest ih =>
    obtain ⟨g, hg, hcontinues⟩ | ⟨first, refresh, input, signal, more, rfl, hstarted⟩ := ih hf
    · refine (origin_step abortable e hg).imp ?_ ?_
      · rintro ⟨g', hg', hcontinues'⟩
        exact ⟨g', hg', hcontinues'.trans hcontinues⟩
      · rintro ⟨refresh, input, signal, rfl, hstarted⟩
        rw [hcontinues.id, hcontinues.key, hcontinues.ttl] at hstarted
        refine ⟨[], refresh, input, signal, rest, ?_, hstarted⟩
        rw [hcontinues.key, hcontinues.ttl, List.nil_append]
    · exact .inr ⟨e :: first, refresh, input, signal, more, rfl, hstarted⟩

/-- Who waits at the end of a run has not left in the course of it. -/
theorem not_leavesIn_of_waits (hinv : Inv s) (halive : Unaborted s) (abortable : Bool)
    {events : List (Event κ ι ν)} (hw : w ∈ (after ⟨false, abortable⟩ s events).waiting) :
    ¬ LeavesIn ⟨false, abortable⟩ s events w := by
  rintro ⟨before, e, rest, rfl, hbefore, haborts⟩
  have hend : before ++ e :: rest = (before ++ e :: rest) ++ [] := (List.append_nil _).symm
  obtain ⟨more, hmore⟩ := before_of_waits hinv halive abortable hend hbefore (.inr haborts) hw
  have hlength := congrArg List.length hmore
  simp only [List.length_append, List.length_cons] at hlength
  omega

/-- A load that can be joined runs. -/
theorem runs_of_attached (hinv : Inv s) (halive : Unaborted s) (hnone : s.cache.flights = [])
    (abortable : Bool) {events : List (Event κ ι ν)} {f : Flight κ}
    (hf : f ∈ (after ⟨false, abortable⟩ s events).cache.flights) (hattached : f.attached = true) :
    Runs ⟨false, abortable⟩ s events f.id f.key f.ttl := by
  have hstays : ¬ AllLeave ⟨false, abortable⟩ s events f.id := by
    obtain ⟨w, hw, hload⟩ := (inv_after hinv abortable events).attended f hf hattached
    intro hall
    exact not_leavesIn_of_waits hinv halive abortable hw (hall w ⟨events, [], by simp, hw⟩ hload)
  obtain ⟨g, hg, -⟩ | ⟨first, refresh, input, signal, rest, rfl, hstarted⟩ :=
    origin_after abortable hf
  · rw [hnone] at hg
    exact nomatch hg
  refine ⟨first, refresh, input, signal, rest, rfl, hstarted, fun e he => ?_, hstays⟩
  obtain ⟨before, more, rfl⟩ := List.append_of_mem he
  have hconcerns := (concerns_of_starts (inv_after hinv abortable first) abortable hstarted).after
    abortable before
  rw [after_append, after_cons, after_append, after_cons] at hf
  -- the load was joined to the end, so nothing has detached it
  have hnot : ¬ Detached f.id (step ⟨false, abortable⟩ _ e).2 := fun hdetached =>
    absurd ((hdetached.after abortable more).detached f hf rfl) (by simp [hattached])
  exact ⟨fun outcome hend => hnot (detached_of_ends hconcerns.started abortable hend),
    fun hinvalidates => hnot (detached_of_invalidates hconcerns abortable hinvalidates)⟩

/-- The loads that callers can join are those that run. -/
theorem attached_iff_runs (hinv : Inv s) (halive : Unaborted s) (hnone : s.cache.flights = [])
    (abortable : Bool) {events : List (Event κ ι ν)} :
    (∃ f ∈ (after ⟨false, abortable⟩ s events).cache.flights,
      f.attached = true ∧ f.id = load ∧ f.key = k ∧ f.ttl = ttl) ↔
        Runs ⟨false, abortable⟩ s events load k ttl := by
  constructor
  · rintro ⟨f, hf, hattached, rfl, rfl, rfl⟩
    exact runs_of_attached hinv halive hnone abortable hf hattached
  · exact attached_of_runs hinv halive abortable

/-- One load of a key runs at most. -/
theorem Runs.unique (hinv : Inv s) (halive : Unaborted s) (abortable : Bool)
    {events : List (Event κ ι ν)} (hlone : Lone (after ⟨false, abortable⟩ s events))
    {load' : Nat} {ttl' : Option Time} (h : Runs ⟨false, abortable⟩ s events load k ttl)
    (h' : Runs ⟨false, abortable⟩ s events load' k ttl') : load = load' := by
  obtain ⟨f, hf, hattached, rfl, hkey, -⟩ := attached_of_runs hinv halive abortable h
  obtain ⟨g, hg, hattached', rfl, hkey', -⟩ := attached_of_runs hinv halive abortable h'
  exact hlone.single f hf g hg hattached hattached' (hkey.trans hkey'.symm)

/-- As many loads can be joined as run. -/
theorem pending_eq (hinv : Inv s) (halive : Unaborted s) (hnone : s.cache.flights = [])
    (abortable : Bool) (events : List (Event κ ι ν)) :
    ∃ loads : List Nat, loads.Nodup ∧
      loads.length = (after ⟨false, abortable⟩ s events).cache.pending ∧
      ∀ load, load ∈ loads ↔ ∃ k ttl, Runs ⟨false, abortable⟩ s events load k ttl := by
  have hdistinct := (inv_after hinv abortable events).tallied.distinct
  refine ⟨((after ⟨false, abortable⟩ s events).cache.flights.filter (·.attached)).map Flight.id,
    hdistinct.sublist (List.filter_sublist.map _), ?_, fun load => ?_⟩
  · rw [List.length_map, ReadThrough.pending, List.countP_eq_length_filter]
  · rw [List.mem_map]
    simp only [← attached_iff_runs hinv halive hnone abortable]
    constructor
    · rintro ⟨f, hf, rfl⟩
      obtain ⟨hf, hattached⟩ := List.mem_filter.mp hf
      exact ⟨f.key, f.ttl, f, hf, hattached, rfl, rfl, rfl⟩
    · rintro ⟨k, ttl, f, hf, hattached, rfl, -, -⟩
      exact ⟨f, List.mem_filter.mpr ⟨hf, hattached⟩, rfl⟩

/-! ## Starts and ends -/

/-- Between two loads of a key the first one ends, or the key is invalidated, or all leave. -/
theorem stops_between (hinv : Inv s) (halive : Unaborted s) (abortable : Bool)
    {first second : List (Event κ ι ν)} {e e' : Event κ ι ν} {load' : Nat} {input input' : ι}
    (h : (load, k, input) ∈
      (step ⟨false, abortable⟩ (after ⟨false, abortable⟩ s first) e).1.started)
    (h' : (load', k, input') ∈
      (step ⟨false, abortable⟩ (after ⟨false, abortable⟩ s (first ++ e :: second)) e').1.started) :
    (∃ e ∈ second, ∃ outcome, e.ends? = some (load, outcome)) ∨
      (∃ e ∈ second, e.Invalidates k) ∨
      AllLeave ⟨false, abortable⟩ s (first ++ e :: second) load := by
  refine Classical.byContradiction fun hnot => ?_
  obtain ⟨hends, hnot⟩ := not_or.mp hnot
  obtain ⟨hinvalidates, hstays⟩ := not_or.mp hnot
  obtain ⟨-, refresh, ttl, signal, rfl⟩ := started_of_step abortable h
  -- the first load still runs, so whoever asks for the key joins it
  have hruns : Runs ⟨false, abortable⟩ s (first ++ .request refresh k input ttl signal :: second)
      load k ttl :=
    ⟨first, refresh, input, signal, second, rfl, h, fun e he =>
      ⟨fun outcome hend => hends ⟨e, he, outcome, hend⟩, fun hi => hinvalidates ⟨e, he, hi⟩⟩,
      hstays⟩
  obtain ⟨f, hf, hattached, -, hkey, -⟩ := attached_of_runs hinv halive abortable hruns
  exact key_ne_of_attached? (starts_spec abortable h').2.1 hf hattached hkey

/-- The value of a load that can be joined is stored. -/
theorem store_resolve (hinv : Inv s) (mode : Mode) {f : Flight κ} (hf : f ∈ s.cache.flights)
    (hattached : f.attached = true) (v : ν) :
    (step mode s (.resolve f.id v : Event κ ι ν)).2.cache.store =
      s.cache.store.set f.key v f.ttl s.now := by
  rw [step, settle_eq]
  dsimp only [Except.toOption]
  rw [ReadThrough.settle, hinv.tallied.distinct.flight? hf]
  dsimp only
  rw [if_pos hattached]

/-- A load that fails stores nothing. -/
theorem store_reject (mode : Mode) (s : State κ ν) (load : Nat) (message : Text) :
    (step mode s (.reject load message : Event κ ι ν)).2.cache.store = s.cache.store := by
  rw [step, settle_eq]
  exact @ReadThrough.settle_none_store κ ν s.cache load _ s.now

/-- Nothing is left of a key when its load has failed. -/
theorem fresh_of_reject (hlone : Lone s) (mode : Mode) {f : Flight κ} (hf : f ∈ s.cache.flights)
    (hattached : f.attached = true) (message : Text) :
    Fresh f.key ([] : Log κ ι ν) (step mode s (.reject f.id message : Event κ ι ν)).2 := by
  refine ⟨fun v hheld => ?_, fun g hg hattached' hkey => ?_⟩
  · rw [store_reject] at hheld
    exact absurd hheld (hlone.vacant f hf hattached v)
  · obtain ⟨hmem, hother⟩ := mem_flights_settle.mp hg
    exact absurd (hlone.single g hmem f hf hattached' hattached hkey) hother

/-! ## Runs from the start -/

/-- **One load of a key at a time, and none that is lost.** In any run of a cache that is not
disabled, with a store that nobody else writes to, however that is swept:

* between two loads of one key the first one ends, or the key is invalidated, or all callers of the
  first one leave;
* as many loads are pending as have started and neither ended, nor had their key invalidated, nor
  been left by all of their callers; there is one for each key at most;
* the value of a load is stored exactly if the load is one of these when the value comes: at its key
  and with a deadline counted from then, by the time to live that its first caller asked for;
* a load that fails stores nothing, and the next caller of its key has a new one started. -/
theorem single_flight (abortable : Bool) (now : Time) (defaultTtl interval : Option Time)
    {events : List (Event κ ι ν)} (hwrites : ∀ e ∈ events, e.writesBehind = false) :
    let s₀ : State κ ν := .new now defaultTtl interval
    let s : State κ ν := after ⟨false, abortable⟩ s₀ events
    (∀ (first second rest : List (Event κ ι ν)) (e e' : Event κ ι ν) (load load' : Nat) (k : κ)
        (input input' : ι),
      events = first ++ e :: second ++ e' :: rest →
      (load, k, input) ∈
        (step ⟨false, abortable⟩ (after ⟨false, abortable⟩ s₀ first) e).1.started →
      (load', k, input') ∈ (step ⟨false, abortable⟩
        (after ⟨false, abortable⟩ s₀ (first ++ e :: second)) e').1.started →
      (∃ e ∈ second, ∃ outcome, e.ends? = some (load, outcome)) ∨
        (∃ e ∈ second, e.Invalidates k) ∨
        AllLeave ⟨false, abortable⟩ s₀ (first ++ e :: second) load) ∧
    (∃ loads : List Nat, loads.Nodup ∧ loads.length = s.cache.pending ∧ ∀ load, load ∈ loads ↔
      ∃ k ttl, Runs ⟨false, abortable⟩ s₀ events load k ttl) ∧
    (∀ (load load' : Nat) (k : κ) (ttl ttl' : Option Time),
      Runs ⟨false, abortable⟩ s₀ events load k ttl →
      Runs ⟨false, abortable⟩ s₀ events load' k ttl' → load = load') ∧
    (∀ (load : Nat) (v : ν),
      (∀ k ttl, Runs ⟨false, abortable⟩ s₀ events load k ttl →
        (step ⟨false, abortable⟩ s (.resolve load v : Event κ ι ν)).2.cache.store =
          s.cache.store.set k v ttl s.now) ∧
      ((∀ k ttl, ¬ Runs ⟨false, abortable⟩ s₀ events load k ttl) →
        (step ⟨false, abortable⟩ s (.resolve load v : Event κ ι ν)).2.cache.store =
          s.cache.store)) ∧
    (∀ (load : Nat) (message : Text),
      (step ⟨false, abortable⟩ s (.reject load message : Event κ ι ν)).2.cache.store =
        s.cache.store ∧
      ∀ k ttl, Runs ⟨false, abortable⟩ s₀ events load k ttl →
        ∀ (between : List (Event κ ι ν)) (s' : State κ ν) (refresh : Bool) (input : ι)
          (ttl' : Option Time) (signal : Option Text),
          (∀ e ∈ between, e.writesBehind = false ∧ ¬ e.AsksFor k) →
          s' = after ⟨false, abortable⟩
            (step ⟨false, abortable⟩ s (.reject load message : Event κ ι ν)).2 between →
          s'.reason? signal = none →
          (step ⟨false, abortable⟩ s' (.request refresh k input ttl' signal)).1.started =
            [(s'.cache.started, k, input)]) := by
  intro s₀ s
  have hinv : Inv s₀ := inv_new now defaultTtl interval
  have halive : Unaborted s₀ := unaborted_new now defaultTtl interval
  have hinv' := inv_after hinv abortable events
  have hlone := (lone_new now defaultTtl interval).after hinv abortable hwrites
  refine ⟨?_, pending_eq hinv halive rfl abortable events, ?_, ?_, ?_⟩
  · -- a key gets a second load only if the first one stopped to be joined
    rintro first second rest e e' load load' k input input' - hstarted hstarted'
    exact stops_between hinv halive abortable hstarted hstarted'
  · -- at most one load of a key runs
    intro load load' k ttl ttl' hruns hruns'
    exact hruns.unique hinv halive abortable hlone hruns'
  · -- a load that runs stores its value, and no other does
    refine fun load v => ⟨fun k ttl hruns => ?_, fun hnone => ?_⟩
    · obtain ⟨f, hf, hattached, rfl, rfl, rfl⟩ := attached_of_runs hinv halive abortable hruns
      exact store_resolve hinv' _ hf hattached v
    · refine (settle_detached (fun f hf hid => ?_) (.ok v)).1
      cases hattached : f.attached with
      | false => rfl
      | true =>
        obtain rfl := hid
        exact absurd (runs_of_attached hinv halive rfl abortable hf hattached) (hnone f.key f.ttl)
  · -- a failure stores nothing, and the next caller has the key loaded anew
    refine fun load message => ⟨store_reject _ _ load message, fun k ttl hruns => ?_⟩
    intro between s' refresh input ttl' signal hbetween hs' hreason
    obtain ⟨f, hf, hattached, rfl, rfl, -⟩ := attached_of_runs hinv halive abortable hruns
    exact starts_of_vacant (fresh_of_reject hlone _ hf hattached message)
      (inv_step hinv' abortable _) abortable (fun e he => (hbetween e he).1)
      (fun e he => (hbetween e he).2) hs' hreason refresh input ttl'

/-- Behind an invalidation a key is loaded anew while the earlier load is still under way: one load
is pending, and only its value is stored, for as long as its first caller asked for. -/
theorem single_flight_invalidated :
    let events : List (Event Nat Unit Nat) :=
      [.request false 7 () none none, .invalidate 7, .request false 7 () (some 5) (some "a"),
        .request true 7 () none none, .advance 3]
    let s₀ : State Nat Nat := .new 0 (some 4) (some 2)
    let s : State Nat Nat := after ⟨false, true⟩ s₀ events
    s.cache.pending = 1 ∧
      (step ⟨false, true⟩ s (.resolve 0 10 : Event Nat Unit Nat)).2.cache.store = s.cache.store ∧
      (step ⟨false, true⟩ s (.resolve 1 20 : Event Nat Unit Nat)).2.cache.store =
        s.cache.store.set 7 20 (some 5) s.now ∧
      (step ⟨false, true⟩ (step ⟨false, true⟩ s (.reject 1 "down" : Event Nat Unit Nat)).2
        (.request false 7 () none none : Event Nat Unit Nat)).1.started = [(2, 7, ())] := by
  intro events s₀ s
  have hwrites : ∀ e ∈ events, e.writesBehind = false := by simp [events, Event.writesBehind]
  obtain ⟨-, ⟨loads, hnodup, hlength, hloads⟩, -, hresolve, hreject⟩ :=
    @single_flight Nat Unit Nat _ true 0 (some 4) (some 2) events hwrites
  -- a caller without a signal waits for the second load
  have hruns : Runs ⟨false, true⟩ s₀ events 1 7 (some 5) := by
    refine ⟨[.request false 7 () none none, .invalidate 7], false, (), some "a",
      [.request true 7 () none none, .advance 3], rfl, by decide +kernel, ?_, fun hall => ?_⟩
    · simp [Event.ends?, Event.Invalidates]
    · have hwaits : WaitsIn ⟨false, true⟩ s₀ events ⟨2, 1, none⟩ :=
        ⟨events, [], by simp, by decide +kernel⟩
      obtain ⟨before, e, rest, -, -, signal, reason, -, hsignal⟩ := hall _ hwaits rfl
      exact absurd hsignal (by simp)
  have hpending : s.cache.pending = 1 := by decide +kernel
  have hfirst : ∀ k ttl, ¬ Runs ⟨false, true⟩ s₀ events 0 k ttl := by
    intro k ttl hruns'
    obtain ⟨load, rfl⟩ := List.length_eq_one_iff.mp (hlength.trans hpending)
    have hone := List.mem_singleton.mp ((hloads 1).mpr ⟨7, some 5, hruns⟩)
    have hzero := List.mem_singleton.mp ((hloads 0).mpr ⟨k, ttl, hruns'⟩)
    omega
  refine ⟨hpending, (hresolve 0 10).2 hfirst, (hresolve 1 20).1 7 (some 5) hruns, ?_⟩
  exact (hreject 1 "down").2 7 (some 5) hruns [] _ false () none none (by simp) rfl rfl

end IssueQuery.Session
