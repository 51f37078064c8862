import IssueQuery.Proofs.Cache.Departures

/-!
# Aborts concern those who abort

What a signal does to the callers that carry it, it does to nobody else. A caller that comes with a
signal that has aborted is turned away at once; one that waits gets the outcome of its load, or the
reason of its signal if that comes first; a load goes on until all its callers have left, and has no
effect from then on. Whoever asks for the key next has it loaded anew, unless the key was
invalidated in between: then somebody may have done so before.

* `Lone`            no value is held beside a load that can be joined;
* `Joinable`        how long a load can be joined;
* `starts_afresh`   the next caller behind a load that all have left;
* `aborts_isolated` all of this for runs from the start.
-/

namespace IssueQuery.Session

variable {κ ι ν : Type} [DecidableEq κ] {s s' : State κ ν} {w : Waiter} {ws : List Waiter}
  {load : Nat} {k : κ}

/-! ## Loads that can be joined -/

/-- Of a key with a load that can be joined, nothing is held, and no other load can be joined. -/
structure Lone (s : State κ ν) : Prop where
  vacant : ∀ f ∈ s.cache.flights, f.attached = true → ∀ v, ¬ s.cache.store.Holds f.key v
  single : ∀ f ∈ s.cache.flights, ∀ g ∈ s.cache.flights, f.attached = true → g.attached = true →
    f.key = g.key → f.id = g.id

omit [DecidableEq κ] in
theorem lone_new (now : Time) (defaultTtl interval : Option Time) :
    Lone (State.new now defaultTtl interval : State κ ν) :=
  ⟨fun _ hf => (nomatch hf), fun _ hf => (nomatch hf)⟩

omit [DecidableEq κ] in
/-- Nothing new is held, and nothing new can be joined. -/
theorem Lone.keep (h : Lone s)
    (hstore : ∀ k v, s'.cache.store.Holds k v → s.cache.store.Holds k v)
    (hflights : ∀ f ∈ s'.cache.flights, f.attached = true →
      ∃ g ∈ s.cache.flights, g.attached = true ∧ g.id = f.id ∧ g.key = f.key) : Lone s' where
  vacant := by
    intro f hf hattached v hheld
    obtain ⟨g, hg, hwas, -, hkey⟩ := hflights f hf hattached
    rw [← hkey] at hheld
    exact h.vacant g hg hwas v (hstore _ _ hheld)
  single := by
    intro f hf g hg hattached hattached' hkey
    obtain ⟨f', hf', hwas, hid, hkey₁⟩ := hflights f hf hattached
    obtain ⟨g', hg', hwas', hid', hkey₂⟩ := hflights g hg hattached'
    rw [← hid, ← hid']
    exact h.single f' hf' g' hg' hwas hwas' (hkey₁.trans (hkey.trans hkey₂.symm))

/-- Nothing is held of a key when a load of it starts. -/
theorem not_holds_of_starts (abortable : Bool) {refresh : Bool} {input input' : ι}
    {ttl : Option Time} {signal : Option Text}
    (h : (load, k, input') ∈
      (step ⟨false, abortable⟩ s (.request refresh k input ttl signal)).1.started) (v : ν) :
    ¬ (step ⟨false, abortable⟩ s
      (.request refresh k input ttl signal : Event κ ι ν)).2.cache.store.Holds k v := by
  cases hreason : s.reason? signal with
  | some reason =>
    rw [step_request_of_reason _ hreason] at h
    exact nomatch h
  | none =>
    -- a load starts only if the store had nothing, and then it still has nothing
    have hmiss := @ReadThrough.not_holds_stored κ ν s.cache k _ refresh ttl s.now v
    cases hstored : s.cache.stored refresh k ttl s.now with
    | mk found cache =>
      rw [hstored] at hmiss
      cases found with
      | some u => simp [step, State.request, hreason, State.requestShared, ReadThrough.request,
          hstored] at h
      | none =>
        have hnone := hmiss rfl
        cases hattached : cache.attached? k <;>
          simp only [step, State.request, hreason, State.requestShared, ReadThrough.request,
            hstored, ReadThrough.wait, hattached, Bool.false_eq_true, if_false] <;>
          exact hnone

theorem key_ne_of_attached? {c : ReadThrough κ ν} (h : c.attached? k = none) {f : Flight κ}
    (hf : f ∈ c.flights) (hattached : f.attached = true) : f.key ≠ k := by
  have hnot := List.find?_eq_none.mp h f hf
  simpa [hattached] using hnot

theorem Lone.request (h : Lone s) (abortable : Bool) (refresh : Bool) (key : κ) (input : ι)
    (ttl : Option Time) (signal : Option Text) :
    Lone (step ⟨false, abortable⟩ s
      (.request refresh key input ttl signal : Event κ ι ν)).2 := by
  have hvacant (load : Nat) (input' : ι) :=
    @not_holds_of_starts κ ι ν _ s load key abortable refresh input input' ttl signal
  obtain ⟨reason, hcase⟩ | ⟨v, -, hcase⟩ | ⟨f, -, hcase⟩ | ⟨hnone, hcase⟩ :=
    request_spec abortable s refresh key input ttl signal
  · rw [hcase]
    exact h.keep (fun _ _ => id) fun f hf hattached => ⟨f, hf, hattached, rfl, rfl⟩
  · rw [hcase]
    exact h.keep (fun _ _ => ReadThrough.holds_stored)
      fun f hf hattached => ⟨f, hf, hattached, rfl, rfl⟩
  · rw [hcase]
    refine h.keep (fun _ _ => ReadThrough.holds_stored) fun g' hg' hattached => ?_
    obtain ⟨g, hg, hid, hkey, hsame, -⟩ := ReadThrough.exists_of_mem_join hg'
    exact ⟨g, hg, hsame.trans hattached, hid, hkey⟩
  · -- the load that starts is the only one of its key
    rw [hcase] at hvacant ⊢
    have hother {f : Flight κ} (hf : f ∈ s.cache.flights) (hattached : f.attached = true) :
        f.key ≠ key := key_ne_of_attached? hnone hf hattached
    refine ⟨fun f hf hattached v hheld => ?_, fun f hf g hg hattached hattached' hkey => ?_⟩
    · obtain hf | hf := List.mem_append.mp hf
      · exact h.vacant f hf hattached v (ReadThrough.holds_stored hheld)
      · obtain rfl := List.mem_singleton.mp hf
        exact hvacant _ input List.mem_cons_self v hheld
    · obtain hf | hf := List.mem_append.mp hf
      · obtain hg | hg := List.mem_append.mp hg
        · exact h.single f hf g hg hattached hattached' hkey
        · obtain rfl := List.mem_singleton.mp hg
          exact absurd hkey (hother hf hattached)
      · obtain rfl := List.mem_singleton.mp hf
        obtain hg | hg := List.mem_append.mp hg
        · exact absurd hkey.symm (hother hg hattached')
        · obtain rfl := List.mem_singleton.mp hg
          rfl

theorem Lone.settle (h : Lone s) (load : Nat) (outcome : Outcome ν) :
    Lone (s.settle load outcome).2 := by
  have hkept : ∀ f ∈ (s.settle load outcome).2.cache.flights,
      f ∈ s.cache.flights ∧ f.id ≠ load := fun f hf => mem_flights_settle.mp hf
  refine ⟨fun f hf hattached v hheld => ?_, fun f hf g hg => ?_⟩
  · rw [settle_eq] at hheld
    obtain ⟨-, g, hg, hid, hkey, hattached'⟩ | hold := ReadThrough.holds_settle hheld
    · -- the load of the key has ended, and there was no other one
      have hsame := h.single f (hkept f hf).1 g hg hattached hattached' hkey.symm
      exact (hkept f hf).2 (hsame.trans hid)
    · exact h.vacant f (hkept f hf).1 hattached v hold
  · exact h.single f (hkept f hf).1 g (hkept g hg).1

/-- Unless it writes behind the cache, an event leaves no value beside a load that can be joined. -/
theorem Lone.step (h : Lone s) (hinv : Inv s) (abortable : Bool) {e : Event κ ι ν}
    (he : e.writesBehind = false) : Lone (step ⟨false, abortable⟩ s e).2 := by
  cases e with
  | request refresh key input ttl signal => exact h.request abortable refresh key input ttl signal
  | resolve load v => exact h.settle load (.ok v)
  | reject load message => exact h.settle load (.error message)
  | abort signal reason =>
    obtain hcase | ⟨aborted, s', hcase, hspec⟩ := @abort_spec κ ι ν _ s hinv abortable signal reason
    · rw [Session.step, hcase]
      exact h
    · rw [Session.step, hcase]
      refine h.keep (fun k v hheld => ?_) hspec.flights
      rw [← hspec.store]
      exact hheld
  | invalidate key =>
    -- invalidations only take away
    refine h.keep (fun _ _ hheld => (TtlCache.holds_delete hheld).2) fun f hf hattached => ?_
    exact ⟨f, (ReadThrough.exists_of_mem_invalidate hf hattached).1, hattached, rfl, rfl⟩
  | invalidateAll =>
    refine h.keep (fun _ _ hheld => absurd hheld TtlCache.not_holds_flush)
      fun f hf hattached => ?_
    rw [ReadThrough.not_attached_invalidateAll hf] at hattached
    exact absurd hattached Bool.false_ne_true
  | advance span =>
    exact h.keep (fun _ _ => TtlCache.holds_advance)
      fun f hf hattached => ⟨f, hf, hattached, rfl, rfl⟩
  -- excluded: a value that is written behind the loads
  | seed => exact Bool.noConfusion he
  | peek key =>
    exact h.keep (fun _ _ => TtlCache.holds_get) fun f hf hattached => ⟨f, hf, hattached, rfl, rfl⟩

theorem Lone.after (h : Lone s) (hinv : Inv s) (abortable : Bool) {events : List (Event κ ι ν)}
    (hwrites : ∀ e ∈ events, e.writesBehind = false) :
    Lone (after ⟨false, abortable⟩ s events) := by
  induction events generalizing s with
  | nil => exact h
  | cons e rest ih =>
    rw [List.forall_mem_cons] at hwrites
    exact ih (h.step hinv abortable hwrites.1) (inv_step hinv abortable e) hwrites.2

/-! ## How long a load can be joined -/

/-- A load of a key can be joined as long as somebody waits for it. -/
structure Joinable (load : Nat) (k : κ) (s : State κ ν) : Prop where
  started : load < s.cache.started
  attached : ∀ w ∈ s.waiting, w.load = load →
    ∃ f ∈ s.cache.flights, f.id = load ∧ f.key = k ∧ f.attached = true

theorem Joinable.settle (h : Joinable load k s) (other : Nat) (outcome : Outcome ν) :
    Joinable load k (s.settle other outcome).2 := by
  rw [settle_eq]
  refine ⟨Nat.lt_of_lt_of_le h.started (Nat.le_of_eq ReadThrough.settle_started.symm), ?_⟩
  intro w hw hload
  obtain ⟨hw, hother⟩ := List.mem_filter.mp hw
  obtain ⟨f, hf, hid, hkey, hattached⟩ := h.attached w hw hload
  rw [ReadThrough.settle_flights]
  refine ⟨f, List.mem_filter.mpr ⟨hf, ?_⟩, hid, hkey, hattached⟩
  simpa [hload, hid] using hother

omit [DecidableEq κ] in
theorem Joinable.turnAway (h : Joinable load k s) (hinv : Inv s) (hw : w ∈ s.waiting)
    (reason : Text) : Joinable load k (s.turnAway w reason).2 := by
  refine ⟨Nat.lt_of_lt_of_le h.started (Nat.le_of_eq ReadThrough.leave_started.symm), ?_⟩
  intro v hv hload
  obtain ⟨f, hf, hid, hkey, hattached⟩ := h.attached v (List.mem_filter.mp hv).1 hload
  have hflights : (s.turnAway w reason).2.cache.flights = s.cache.flights.map fun f =>
      if f.id = w.load then
        { f with departed := f.departed + 1, attached := f.attached && !(s.cache.leave w.load).1 }
      else f := ReadThrough.leave_flights
  rw [hflights]
  refine ⟨_, List.mem_map_of_mem hf, ?_⟩
  split
  · -- somebody stays, so the one who leaves is not the last one
    rename_i hleft
    have hlast : (s.cache.leave w.load).1 ≠ true := fun hlast =>
      alone_of_isLast hinv hw hlast hv (hload.trans (hid.symm.trans hleft))
    exact ⟨hid, hkey, by simp [hattached, hlast]⟩
  · exact ⟨hid, hkey, hattached⟩

omit [DecidableEq κ] in
theorem Joinable.turnAwayAll (h : Joinable load k s) (hinv : Inv s) (reason : Text)
    (hws : ∀ w ∈ ws, w ∈ s.waiting) (hdistinct : (ws.map Waiter.caller).Nodup) :
    Joinable load k (s.turnAwayAll reason ws).2 := by
  induction ws generalizing s with
  | nil => exact h
  | cons w rest ih =>
    rw [List.map_cons, List.nodup_cons] at hdistinct
    have hw := hws w List.mem_cons_self
    refine ih (h.turnAway hinv hw reason) (inv_turnAway hinv hw reason) (fun v hv => ?_) hdistinct.2
    have hne : v.caller ≠ w.caller := fun heq => hdistinct.1 (heq ▸ List.mem_map_of_mem hv)
    exact List.mem_filter.mpr ⟨hws v (List.mem_cons_of_mem w hv), by simpa using hne⟩

theorem Joinable.failAll (h : Joinable load k s) (reason : Text) (loads : List Nat) :
    Joinable load k (s.failAll reason loads).2 := by
  induction loads generalizing s with
  | nil => exact h
  | cons other rest ih => exact ih (h.settle other (.error reason))

theorem Joinable.abort (h : Joinable load k s) (hinv : Inv s) (abortable : Bool)
    (signal reason : Text) :
    Joinable load k (s.abort ⟨false, abortable⟩ signal reason : Effects κ ι ν × State κ ν).2 := by
  unfold State.abort
  split
  · exact h
  · have hjoinable : Joinable load k { s with signals := s.signals ++ [(signal, reason)] } :=
      ⟨h.started, h.attached⟩
    have hleft := hjoinable.turnAwayAll (hinv.noted signal reason) reason
      (fun w hw => (mem_carrying.mp hw).1) (hinv.nodup_carrying signal)
    simp only [State.carrying] at hleft
    dsimp only
    split
    · exact hleft.failAll reason _
    · exact hleft

/-- Unless it invalidates the key, an event leaves it so. -/
theorem Joinable.step (h : Joinable load k s) (hinv : Inv s) (abortable : Bool) {e : Event κ ι ν}
    (he : ¬ e.Invalidates k) : Joinable load k (step ⟨false, abortable⟩ s e).2 := by
  refine ⟨Nat.lt_of_lt_of_le h.started (started_step abortable e), ?_⟩
  cases e with
  | request refresh key input ttl signal =>
    intro w hw hload
    -- whoever comes joins a load that somebody waits for already, or starts another one
    obtain ⟨v, hv, hvload⟩ : ∃ v ∈ s.waiting, v.load = load := by
      obtain hold | ⟨-, refresh', key', input', ttl', signal', -, ⟨g, hg, hjoined⟩ | hnew⟩ :=
        waiting_of_step hinv abortable _ hw
      · exact ⟨w, hold, hload⟩
      · obtain ⟨hmem, hattached, -⟩ := ReadThrough.mem_of_attached? hg
        obtain ⟨v, hv, hvload⟩ := hinv.attended g hmem hattached
        exact ⟨v, hv, hvload.trans (hjoined.symm.trans hload)⟩
      · have hnext := (started_of_step abortable hnew).1
        have hstarted := h.started
        omega
    obtain ⟨f, hf, hid, hkey, hattached⟩ := h.attached v hv hvload
    obtain ⟨reason, hcase⟩ | ⟨u, -, hcase⟩ | ⟨g, -, hcase⟩ | ⟨-, hcase⟩ :=
      request_spec abortable s refresh key input ttl signal
    · rw [hcase]
      exact ⟨f, hf, hid, hkey, hattached⟩
    · rw [hcase]
      exact ⟨f, hf, hid, hkey, hattached⟩
    · rw [hcase]
      refine ⟨_, List.mem_map_of_mem hf, ?_⟩
      split <;> exact ⟨hid, hkey, hattached⟩
    · rw [hcase]
      exact ⟨f, List.mem_append_left _ hf, hid, hkey, hattached⟩
  | resolve other v => exact (h.settle other (.ok v)).attached
  | reject other message => exact (h.settle other (.error message)).attached
  | abort signal reason => exact (h.abort (ι := ι) hinv abortable signal reason).attached
  | invalidate key =>
    intro w hw hload
    obtain ⟨f, hf, hid, hkey, hattached⟩ := h.attached w hw hload
    refine ⟨f, List.mem_map.mpr ⟨f, hf, if_neg ?_⟩, hid, hkey, hattached⟩
    rintro rfl
    exact he (.inl (by rw [hkey]))
  | invalidateAll => exact absurd (.inr rfl) he
  | advance | seed | peek => exact h.attached

theorem Joinable.after (h : Joinable load k s) (hinv : Inv s) (abortable : Bool)
    {events : List (Event κ ι ν)} (hkeeps : ∀ e ∈ events, ¬ e.Invalidates k) :
    Joinable load k (after ⟨false, abortable⟩ s events) := by
  induction events generalizing s with
  | nil => exact h
  | cons e rest ih =>
    rw [List.forall_mem_cons] at hkeeps
    exact ih (h.step hinv abortable hkeeps.1) (inv_step hinv abortable e) hkeeps.2

/-- A load can be joined from its start. -/
theorem joinable_of_starts (abortable : Bool) {e : Event κ ι ν} {input : ι}
    (h : (load, k, input) ∈ (step ⟨false, abortable⟩ s e).1.started) :
    Joinable load k (step ⟨false, abortable⟩ s e).2 := by
  obtain ⟨rfl, -, refresh, ttl, signal, rfl, hnext⟩ := starts_spec abortable h
  rw [hnext]
  exact ⟨Nat.lt_succ_self _, fun w hw hload =>
    ⟨_, List.mem_append_right _ List.mem_cons_self, rfl, rfl, rfl⟩⟩

/-! ## The next caller -/

/-- Whether an event is a caller that asks for a key. -/
def Event.AsksFor (e : Event κ ι ν) (k : κ) : Prop :=
  ∃ refresh input ttl signal, e = .request refresh k input ttl signal

/-- A load that all have left leaves nothing of its key behind, if it could be joined till then. -/
theorem fresh_of_aborted (hinv : Inv s) (halive : Unaborted s) (hlone : Lone s)
    (hjoinable : Joinable load k s) (abortable : Bool) {e : Event κ ι ν} {r : Text}
    (haborted : (load, r) ∈ (step ⟨false, abortable⟩ s e).1.aborted) :
    Fresh k ([] : Log κ ι ν) (step ⟨false, abortable⟩ s e).2 := by
  have hdeserted := deserted_of_aborted hinv halive abortable haborted
  have hinv' := inv_step hinv abortable e
  obtain ⟨signal, rfl, ⟨w, hw, hload, hsignal⟩, -⟩ :=
    (mem_aborted_iff hinv halive abortable e load r).mp haborted
  obtain ⟨f, hf, hid, rfl, hattached⟩ := hjoinable.attached w hw hload
  have hnew : s.reason? (some signal) = none := by
    rw [← hsignal]
    exact halive w hw
  obtain ⟨aborted, s', hcase, hspec⟩ := @abort_effect κ ι ν _ s hinv abortable signal hnew r
  rw [hcase] at hdeserted hinv' ⊢
  refine ⟨fun v hheld => ?_, fun g hg hattached' hkey => ?_⟩
  · have hheld : s'.cache.store.Holds f.key v := hheld
    rw [hspec.store] at hheld
    exact absurd hheld (hlone.vacant f hf hattached v)
  · -- what can be joined could be joined before, and so is the load itself
    obtain ⟨g', hg', hwas, hgid, hgkey⟩ := hspec.flights g hg hattached'
    have hsame := hlone.single g' hg' f hf hwas hattached (hgkey.trans hkey)
    rw [hdeserted.detached hinv' g hg (hgid.symm.trans (hsame.trans hid))] at hattached'
    exact nomatch hattached'

/-- A caller who asks for a key of which nothing was started has a load started. -/
theorem starts_of_fresh {log : Log κ ι ν} (h : Fresh k log s)
    (hlog : ∀ load, ¬ StartedIn log load k) (abortable : Bool) {signal : Option Text}
    (hreason : s.reason? signal = none) (refresh : Bool) (input : ι) (ttl : Option Time) :
    (step ⟨false, abortable⟩ s (.request refresh k input ttl signal : Event κ ι ν)).1.started =
      [(s.cache.started, k, input)] := by
  obtain ⟨v, hheld, -⟩ | ⟨f, hf, -⟩ | ⟨-, hcase⟩ := s.cache.request_cases refresh k ttl s.now
  · obtain ⟨load, first, effects, second, rfl, hstarted⟩ := h.store v hheld
    exact absurd (hstarted.append _) (hlog load)
  · obtain ⟨hmem, hattached, hkey⟩ := ReadThrough.mem_of_attached? hf
    exact absurd (h.flights f hmem hattached hkey) (hlog f.id)
  · simp [step, State.request, hreason, State.requestShared, hcase]

/-- The next caller who asks for a key of which nothing is left has a load started. -/
theorem starts_of_vacant (h : Fresh k ([] : Log κ ι ν) s) (hinv : Inv s) (abortable : Bool)
    {between : List (Event κ ι ν)} (hwrites : ∀ e ∈ between, e.writesBehind = false)
    (hasks : ∀ e ∈ between, ¬ e.AsksFor k) (hs' : s' = after ⟨false, abortable⟩ s between)
    {signal : Option Text} (hreason : s'.reason? signal = none) (refresh : Bool) (input : ι)
    (ttl : Option Time) :
    (step ⟨false, abortable⟩ s' (.request refresh k input ttl signal : Event κ ι ν)).1.started =
      [(s'.cache.started, k, input)] := by
  have hfresh := h.after hinv abortable hwrites
  rw [← hs', List.nil_append] at hfresh
  refine starts_of_fresh hfresh (fun other hstarted => ?_) abortable hreason refresh input ttl
  -- a load of the key starts only if somebody asks for it
  obtain ⟨p, hp, input', hstarted⟩ := hstarted
  obtain ⟨before, e', rest, rfl, rfl⟩ := mem_log hp
  obtain ⟨-, refresh', ttl', signal', rfl⟩ := started_of_step abortable hstarted
  exact hasks _ (List.mem_append_right _ List.mem_cons_self) ⟨refresh', input', ttl', signal', rfl⟩

/-- A load that could be joined until its last caller left makes way for the next caller of its key,
who has a new load started. -/
theorem starts_afresh (hinv : Inv s) (halive : Unaborted s) (hlone : Lone s)
    (hjoinable : Joinable load k s) (abortable : Bool) {e : Event κ ι ν} {r : Text}
    (haborted : (load, r) ∈ (step ⟨false, abortable⟩ s e).1.aborted)
    {between : List (Event κ ι ν)} (hwrites : ∀ e ∈ between, e.writesBehind = false)
    (hasks : ∀ e ∈ between, ¬ e.AsksFor k)
    (hs' : s' = after ⟨false, abortable⟩ (step ⟨false, abortable⟩ s e).2 between)
    {signal : Option Text} (hreason : s'.reason? signal = none) (refresh : Bool) (input : ι)
    (ttl : Option Time) :
    (step ⟨false, abortable⟩ s' (.request refresh k input ttl signal : Event κ ι ν)).1.started =
      [(s'.cache.started, k, input)] :=
  starts_of_vacant (fresh_of_aborted hinv halive hlone hjoinable abortable haborted)
    (inv_step hinv abortable e) abortable hwrites hasks hs' hreason refresh input ttl

/-- A caller that comes to wait gets nothing at first. -/
theorem settled_of_waits (abortable : Bool) {refresh : Bool} {input : ι} {ttl : Option Time}
    {signal : Option Text}
    (hw : w ∈ (step ⟨false, abortable⟩ s (.request refresh k input ttl signal)).2.waiting)
    (hnew : w ∉ s.waiting) :
    (step ⟨false, abortable⟩ s
      (.request refresh k input ttl signal : Event κ ι ν)).1.settled = [] := by
  obtain ⟨reason, hcase⟩ | ⟨u, -, hcase⟩ | ⟨g, -, hcase⟩ | ⟨-, hcase⟩ :=
    request_spec abortable s refresh k input ttl signal
  · rw [hcase] at hw
    exact absurd hw hnew
  · rw [hcase] at hw
    exact absurd hw hnew
  · rw [hcase]
  · rw [hcase]

/-- From its coming on, a caller that waits gets what the events behind it tell. -/
theorem outcomes_of_comer (h : Inv s) (halive : Unaborted s) (abortable : Bool) {refresh : Bool}
    {input : ι} {ttl : Option Time} {signal : Option Text}
    (hw : w ∈ (step ⟨false, abortable⟩ s (.request refresh k input ttl signal)).2.waiting)
    (hcaller : w.caller = s.callers) (rest : List (Event κ ι ν)) :
    w.signal = signal ∧
      outcomesOf w.caller (log ⟨false, abortable⟩ s
        (.request refresh k input ttl signal :: rest)) =
          (rest.findSome? (Event.tells? w)).toList := by
  have hnew : w ∉ s.waiting := by
    intro hold
    have hbelow := h.below w hold
    omega
  have hown := (signal_of_newcomer abortable hw).resolve_left hnew
  have hcomes := settled_of_waits abortable hw hnew
  have hrest := outcomes_of_carrier (inv_step h abortable (.request refresh k input ttl signal))
    (unaborted_step h halive abortable (.request refresh k input ttl signal)) hw abortable rest
  rw [log_cons, outcomesOf, List.flatMap_cons, hcomes]
  exact ⟨hown.2.1, hrest⟩

/-- A load that nobody waits for any more has no effect. -/
theorem Deserted.idle (hd : Deserted load s) (h : Inv s) :
    (∀ w ∈ s.waiting, w.load ≠ load) ∧
      (∀ k f, s.cache.attached? k = some f → f.id ≠ load) ∧
      ∀ outcome, (s.settle load outcome).2.cache.store = s.cache.store := by
  have hdetached := hd.detached h
  refine ⟨hd.nobody, fun k f hf hid => ?_, fun outcome => (settle_detached hdetached outcome).1⟩
  obtain ⟨hmem, hattached, -⟩ := ReadThrough.mem_of_attached? hf
  rw [hdetached f hmem hid] at hattached
  exact Bool.false_ne_true hattached

/-! ## Runs from the start -/

/-- Aborts concern those who abort, in any run of a cache that is not disabled, however its store is
swept.

* A caller whose signal has aborted when it comes is turned away with the reason: no load starts,
  the cache is left as it is, and the caller gets nothing more.
* A caller that waits gets the outcome of its load or, if that comes first, the reason of its own
  signal; it gets one of the two once, and nothing else.
* A load is aborted exactly if somebody waits for it and all who ever do leave by their signals
  while they wait. It is aborted once, by the abort by which the last of them leave and for its
  reason. From then on nobody waits for the load, nobody can join it, and its end leaves the store
  as it is.
* The next caller of its key has the key loaded anew, unless the key was invalidated after the load
  started. (An invalidation gives way to newer loads; see `joins_newer_load`.) -/
theorem aborts_isolated (abortable : Bool) (now : Time)
    (defaultTtl interval : Option Time) :
    let s₀ : State κ ν := .new now defaultTtl interval
    (∀ (before rest : List (Event κ ι ν)) (refresh : Bool) (k : κ) (input : ι) (ttl : Option Time)
        (name reason : Text) (s : State κ ν),
      s = after ⟨false, abortable⟩ s₀ before →
      firstReason? name before = some reason →
      step ⟨false, abortable⟩ s (.request refresh k input ttl (some name)) =
          ({ settled := [(s.callers, .error reason)] }, { s with callers := s.callers + 1 }) ∧
        outcomesOf s.callers (log ⟨false, abortable⟩ s₀
          (before ++ .request refresh k input ttl (some name) :: rest)) = [.error reason]) ∧
    (∀ (before rest : List (Event κ ι ν)) (refresh : Bool) (k : κ) (input : ι) (ttl : Option Time)
        (signal : Option Text) (s : State κ ν) (w : Waiter),
      s = after ⟨false, abortable⟩ s₀ before →
      w ∈ (step ⟨false, abortable⟩ s (.request refresh k input ttl signal)).2.waiting →
      w.caller = s.callers →
      w.signal = signal ∧
        outcomesOf w.caller (log ⟨false, abortable⟩ s₀
          (before ++ .request refresh k input ttl signal :: rest)) =
            (rest.findSome? (Event.tells? w)).toList) ∧
    (∀ (events : List (Event κ ι ν)) (load : Nat),
      ((∃ r, r ∈ abortsOf load (log ⟨false, abortable⟩ s₀ events)) ↔
        (∃ w, WaitsIn ⟨false, abortable⟩ s₀ events w ∧ w.load = load) ∧
          ∀ w, WaitsIn ⟨false, abortable⟩ s₀ events w → w.load = load →
            LeavesIn ⟨false, abortable⟩ s₀ events w) ∧
      ∀ r, r ∈ abortsOf load (log ⟨false, abortable⟩ s₀ events) →
        abortsOf load (log ⟨false, abortable⟩ s₀ events) = [r] ∧
        ∃ before signal rest, events = before ++ .abort signal r :: rest ∧
          (∃ w ∈ (after ⟨false, abortable⟩ s₀ before).waiting,
            w.load = load ∧ w.signal = some signal) ∧
          (∀ w ∈ (after ⟨false, abortable⟩ s₀ before).waiting,
            w.load = load → w.signal = some signal) ∧
          ∀ (later more : List (Event κ ι ν)) (s : State κ ν), rest = later ++ more →
            s = after ⟨false, abortable⟩ s₀ (before ++ .abort signal r :: later) →
            (∀ w ∈ s.waiting, w.load ≠ load) ∧
              (∀ k f, s.cache.attached? k = some f → f.id ≠ load) ∧
              ∀ outcome, (s.settle load outcome).2.cache.store = s.cache.store) ∧
    (∀ (first second between : List (Event κ ι ν)) (e₀ e : Event κ ι ν) (load : Nat) (k : κ)
        (input₀ input : ι) (r : Text) (refresh : Bool) (ttl : Option Time) (signal : Option Text)
        (s s' : State κ ν),
      (load, k, input₀) ∈
        (step ⟨false, abortable⟩ (after ⟨false, abortable⟩ s₀ first) e₀).1.started →
      (∀ e ∈ second, ¬ e.Invalidates k) →
      s = after ⟨false, abortable⟩ s₀ (first ++ e₀ :: second) →
      (load, r) ∈ (step ⟨false, abortable⟩ s e).1.aborted →
      (∀ e ∈ first ++ e₀ :: second, e.writesBehind = false) →
      (∀ e ∈ between, e.writesBehind = false ∧ ¬ e.AsksFor k) →
      s' = after ⟨false, abortable⟩ (step ⟨false, abortable⟩ s e).2 between →
      s'.reason? signal = none →
      (step ⟨false, abortable⟩ s' (.request refresh k input ttl signal)).1.started =
        [(s'.cache.started, k, input)]) := by
  intro s₀
  have hinv₀ : Inv s₀ := inv_new now defaultTtl interval
  have halive₀ : Unaborted s₀ := unaborted_new now defaultTtl interval
  have hinv (before : List (Event κ ι ν)) : Inv (after ⟨false, abortable⟩ s₀ before) :=
    inv_after hinv₀ abortable before
  have halive (before : List (Event κ ι ν)) : Unaborted (after ⟨false, abortable⟩ s₀ before) :=
    unaborted_after hinv₀ halive₀ abortable before
  refine ⟨?_, ?_, ?_, ?_⟩
  · -- a caller whose signal has aborted before it comes
    rintro before rest refresh k input ttl name reason s rfl hreason
    have hknown : (after ⟨false, abortable⟩ s₀ before).reason? (some name) =
        some reason := by
      rw [reason?_after, hreason]
      rfl
    refine ⟨step_request_of_reason _ hknown refresh k input ttl, ?_⟩
    rw [log_append, outcomesOf_append,
      outcomes_of_newcomer hinv₀ abortable (Nat.le_refl _),
      outcomes_of_late (hinv before) abortable hknown, List.nil_append]
  · -- a caller that waits
    rintro before rest refresh k input ttl signal s w rfl hw hcaller
    obtain ⟨hown, hgets⟩ :=
      outcomes_of_comer (hinv before) (halive before) abortable hw hcaller rest
    refine ⟨hown, ?_⟩
    rw [log_append, outcomesOf_append,
      outcomes_of_newcomer hinv₀ abortable (Nat.le_of_eq hcaller.symm),
      List.nil_append, hgets]
  · -- a load, and the abort by which it is left
    intro events load
    refine ⟨abortsOf_ne_nil hinv₀ halive₀ abortable events load,
      fun r hr => ?_⟩
    obtain ⟨honce, before, signal, rest, rfl, hsome, hall, hdeserted⟩ :=
      abortsOf_eq hinv₀ halive₀ abortable hr
    refine ⟨honce, before, signal, rest, rfl, hsome, hall, ?_⟩
    rintro later more s rfl rfl
    have hidle := (hdeserted.after (hinv _) abortable later).idle
      (inv_after (hinv _) abortable later)
    rw [← after_append, List.append_assoc] at hidle
    exact hidle
  · -- the next caller of the key: the load that was aborted was the only one, and nothing has been
    -- stored since
    rintro first second between e₀ e load k input₀ input r refresh ttl signal s s' hstarted hkeeps
      rfl haborted hwrites hbetween hs' hreason
    have hlone := Lone.after (lone_new now defaultTtl interval) hinv₀ abortable hwrites
    have hjoinable := (joinable_of_starts abortable hstarted).after
      (inv_step (hinv first) abortable e₀) abortable hkeeps
    rw [← after_cons, ← after_append] at hjoinable
    exact starts_afresh (hinv _) (halive _) hlone hjoinable abortable haborted
      (fun e he => (hbetween e he).1) (fun e he => (hbetween e he).2) hs' hreason refresh input ttl

/-- Behind a load that all have left, the next caller may join a newer load of the key: one that
somebody had started after an invalidation. -/
theorem joins_newer_load :
    ¬ ∀ (first second : List (Event Nat Unit Nat)) (e₀ e : Event Nat Unit Nat) (load k : Nat)
      (r : Text) (s : State Nat Nat),
      (load, k, ()) ∈ (step ⟨false, false⟩ (after ⟨false, false⟩ (.initial 0) first) e₀).1.started →
      s = after ⟨false, false⟩ (.initial 0) (first ++ e₀ :: second) →
      (load, r) ∈ (step ⟨false, false⟩ s e).1.aborted →
      (step ⟨false, false⟩ (step ⟨false, false⟩ s e).2
        (.request false k () none none : Event Nat Unit Nat)).1.started ≠ [] := by
  intro hafresh
  refine hafresh [] [.invalidate 7, .request false 7 () none none]
    (.request false 7 () none (some "a")) (.abort "a" "gone") 0 7 "gone" _ ?_ rfl ?_ ?_
  · decide +kernel
  · decide +kernel
  · rfl

/-- Two callers share a load and leave it by signals of their own: the load is aborted by the second
one, and the next caller has a new one started. -/
theorem aborts_isolated_two_signals :
    outcomesOf 2 (log ⟨false, true⟩ (.initial 0 : State Nat Nat)
      ([.request false 7 () none (some "a"), .request false 7 () none (some "b"), .abort "a" "gone"] ++
        .request false 7 () none (some "a") :: [.resolve 0 10])) = [.error "gone"] ∧
    outcomesOf 1 (log ⟨false, true⟩ (.initial 0 : State Nat Nat)
      ([.request false 7 () none (some "a")] ++ .request false 7 () none (some "b") ::
        [.abort "a" "gone", .resolve 0 10])) = [.ok 10] ∧
    abortsOf 0 (log ⟨false, true⟩ (.initial 0 : State Nat Nat)
        ([.request false 7 () none (some "a"), .request false 7 () none (some "b"),
          .abort "a" "gone", .abort "b" "bored"] : List (Event Nat Unit Nat))) =
      [Text.ofString "bored"] ∧
    (step ⟨false, true⟩ (after ⟨false, true⟩ (.initial 0 : State Nat Nat)
        ([.request false 7 () none (some "a"), .abort "a" "gone"] : List (Event Nat Unit Nat)))
      (.request false 7 () none none)).1.started = [(1, 7, ())] := by
  obtain ⟨hlate, hwaits, hloads, hnext⟩ := @aborts_isolated Nat Unit Nat _ true 0 none (some 0)
  refine ⟨?_, ?_, ?_, ?_⟩
  · refine (hlate [.request false 7 () none (some "a"), .request false 7 () none (some "b"),
      .abort "a" "gone"] [.resolve 0 10] false 7 () none "a" "gone" _ rfl ?_).2
    decide +kernel
  · refine (hwaits [.request false 7 () none (some "a")] [.abort "a" "gone", .resolve 0 10] false 7
      () none (some "b") _ ⟨1, 0, some "b"⟩ rfl ?_ rfl).2
    decide +kernel
  · refine ((hloads [.request false 7 () none (some "a"), .request false 7 () none (some "b"),
      .abort "a" "gone", .abort "b" "bored"] 0).2 "bored" ?_).1
    decide +kernel
  · refine hnext [] [] [] (.request false 7 () none (some "a")) (.abort "a" "gone") 0 7 () () "gone"
      false none none _ _ ?_ (by simp) rfl ?_ (by simp [Event.writesBehind]) (by simp) rfl rfl
    · decide +kernel
    · decide +kernel

end IssueQuery.Session
