import IssueQuery.Proofs.Cache.Callers

/-!
# Invalidated values do not come back

Once a key is invalidated, no caller that asks for it later gets the value of a load that started
before. What the cache holds at the key, and what callers of the key can join, comes from loads that
started since: `Fresh` says so, and every event that does not write behind the cache keeps it.
Callers who joined an earlier load are not forgotten: they wait on and get its outcome. The earlier
load itself has no further effect on the cache.

* `answered_fresh`     the callers that come later;
* `outcomes_of_waiting` the callers that came before;
* `settle_detached`, `abort_detached` the loads that nobody can join any more;
* `invalidation_fresh` all of this for runs from the start.
-/

namespace IssueQuery.Session

variable {κ ι ν : Type} [DecidableEq κ] {s s' : State κ ν} {k : κ} {w : Waiter}

/-- Events, each with what it made happen. -/
abbrev Log (κ ι ν : Type) := List (Event κ ι ν × Effects κ ι ν)

/-- The log of a run. -/
def log (mode : Mode) (s : State κ ν) (events : List (Event κ ι ν)) : Log κ ι ν :=
  events.zip ((run mode s events).map Prod.fst)

@[simp] theorem log_nil (mode : Mode) (s : State κ ν) :
    log mode s ([] : List (Event κ ι ν)) = [] := rfl

@[simp] theorem log_cons (mode : Mode) (s : State κ ν) (e : Event κ ι ν)
    (rest : List (Event κ ι ν)) :
    log mode s (e :: rest) = (e, (step mode s e).1) :: log mode (step mode s e).2 rest := rfl

/-- What a caller got in the course of a log. -/
def outcomesOf (c : Nat) (log : Log κ ι ν) : List (Outcome ν) :=
  log.flatMap fun p => (p.2.settled.filter (·.1 == c)).map Prod.snd

/-- A load of a key started in the course of a log. -/
def StartedIn (log : Log κ ι ν) (load : Nat) (k : κ) : Prop :=
  ∃ p ∈ log, ∃ input, (load, k, input) ∈ p.2.started

/-- A load of a key started in the course of a log, and later ended with a value. -/
def LoadedIn (log : Log κ ι ν) (k : κ) (load : Nat) (v : ν) : Prop :=
  ∃ first effects second, log = first ++ (.resolve load v, effects) :: second ∧
    StartedIn first load k

omit [DecidableEq κ] in
theorem StartedIn.append {log : Log κ ι ν} {load : Nat} (h : StartedIn log load k)
    (more : Log κ ι ν) : StartedIn (log ++ more) load k := by
  obtain ⟨p, hp, hstarted⟩ := h
  exact ⟨p, List.mem_append_left _ hp, hstarted⟩

omit [DecidableEq κ] in
theorem LoadedIn.append {log : Log κ ι ν} {load : Nat} {v : ν} (h : LoadedIn log k load v)
    (more : Log κ ι ν) : LoadedIn (log ++ more) k load v := by
  obtain ⟨first, effects, second, rfl, hstarted⟩ := h
  exact ⟨first, effects, second ++ more, by simp, hstarted⟩

/-- Whether an event writes to the store behind the cache. -/
def Event.writesBehind : Event κ ι ν → Bool
  | .seed .. => true
  | _ => false

/-- Whether an event invalidates a key. -/
def Event.Invalidates (e : Event κ ι ν) (k : κ) : Prop := e = .invalidate k ∨ e = .invalidateAll

/-! ## Callers that come later -/

/-- Of a key, only values of loads in the log are held, and only loads in the log can be joined. -/
structure Fresh (k : κ) (log : Log κ ι ν) (s : State κ ν) : Prop where
  store : ∀ v, s.cache.store.Holds k v → ∃ load, LoadedIn log k load v
  flights : ∀ f ∈ s.cache.flights, f.attached = true → f.key = k → StartedIn log f.id k

/-- Behind an invalidation nothing is held of the key, and nothing can be joined. -/
theorem fresh_invalidate {e : Event κ ι ν} (he : e.Invalidates k) (mode : Mode) :
    Fresh k ([] : Log κ ι ν) (step mode s e).2 := by
  obtain rfl | rfl := he
  · refine ⟨fun v hheld => ?_, fun f hf hattached hkey => ?_⟩
    · exact absurd rfl (TtlCache.holds_delete hheld).1
    · exact absurd hkey (ReadThrough.exists_of_mem_invalidate hf hattached).2
  · refine ⟨fun v hheld => ?_, fun f hf hattached _ => ?_⟩
    · exact absurd hheld TtlCache.not_holds_flush
    · rw [ReadThrough.not_attached_invalidateAll hf] at hattached
      cases hattached

omit [DecidableEq κ] in
/-- A key stays fresh if nothing new is held and nothing new can be joined. -/
theorem Fresh.keep {log : Log κ ι ν} (h : Fresh k log s) {p : Event κ ι ν × Effects κ ι ν}
    (hstore : ∀ v, s'.cache.store.Holds k v → s.cache.store.Holds k v)
    (hflights : ∀ f ∈ s'.cache.flights, f.attached = true → f.key = k →
      ∃ g ∈ s.cache.flights, g.attached = true ∧ g.id = f.id ∧ g.key = f.key) :
    Fresh k (log ++ [p]) s' where
  store := by
    intro v hheld
    obtain ⟨load, hloaded⟩ := h.store v (hstore v hheld)
    exact ⟨load, hloaded.append _⟩
  flights := by
    intro f hf hattached hkey
    obtain ⟨g, hg, hwas, hid, hsame⟩ := hflights f hf hattached hkey
    rw [← hid]
    exact (h.flights g hg hwas (hsame.trans hkey)).append _

theorem Fresh.request {log : Log κ ι ν} (h : Fresh k log s) (abortable : Bool) (refresh : Bool)
    (key : κ) (input : ι) (ttl : Option Time) (signal : Option Text) :
    Fresh k (log ++ [(.request refresh key input ttl signal,
        (step ⟨false, abortable⟩ s (.request refresh key input ttl signal)).1)])
      (step ⟨false, abortable⟩ s (.request refresh key input ttl signal : Event κ ι ν)).2 := by
  obtain ⟨reason, hcase⟩ | ⟨v, -, hcase⟩ | ⟨f, -, hcase⟩ | ⟨-, hcase⟩ :=
    request_spec abortable s refresh key input ttl signal
  · rw [hcase]
    exact h.keep (fun _ => id) fun f hf hattached _ => ⟨f, hf, hattached, rfl, rfl⟩
  · rw [hcase]
    exact h.keep (fun _ => ReadThrough.holds_stored)
      fun f hf hattached _ => ⟨f, hf, hattached, rfl, rfl⟩
  · rw [hcase]
    refine h.keep (fun _ => ReadThrough.holds_stored) fun g' hg' hattached _ => ?_
    obtain ⟨g, hg, rfl⟩ := List.mem_map.mp hg'
    refine ⟨g, hg, ?_⟩
    split at hattached <;> rename_i hid
    · rw [if_pos hid]
      exact ⟨hattached, rfl, rfl⟩
    · rw [if_neg hid]
      exact ⟨hattached, rfl, rfl⟩
  · -- the only load that is new is in the log
    rw [hcase]
    refine ⟨fun v hheld => ?_, fun f hf hattached hkey => ?_⟩
    · obtain ⟨load, hloaded⟩ := h.store v (ReadThrough.holds_stored hheld)
      exact ⟨load, hloaded.append _⟩
    · obtain hf | hf := List.mem_append.mp hf
      · exact (h.flights f hf hattached hkey).append _
      · obtain rfl := List.mem_singleton.mp hf
        obtain rfl : key = k := hkey
        exact ⟨_, List.mem_append_right _ List.mem_cons_self, input, List.mem_cons_self⟩

theorem Fresh.resolve {log : Log κ ι ν} (h : Fresh k log s) (mode : Mode) (load : Nat) (v : ν) :
    Fresh k (log ++ [(.resolve load v, (step mode s (.resolve load v)).1)])
      (step mode s (.resolve load v : Event κ ι ν)).2 := by
  refine ⟨fun u hheld => ?_, fun f hf hattached hkey => ?_⟩
  · rw [Session.step, settle_eq] at hheld
    obtain ⟨hv, f, hf, hid, hkey, hattached⟩ | hold := ReadThrough.holds_settle hheld
    · -- what is new in the store comes from a load that could be joined
      obtain rfl : v = u := Option.some.inj hv
      have hstarted := h.flights f hf hattached hkey
      rw [hid] at hstarted
      exact ⟨load, log, _, [], rfl, hstarted⟩
    · obtain ⟨load, hloaded⟩ := h.store u hold
      exact ⟨load, hloaded.append _⟩
  · exact (h.flights f (mem_flights_settle.mp hf).1 hattached hkey).append _

/-- Unless it writes behind the cache, an event keeps a key fresh. -/
theorem Fresh.step {log : Log κ ι ν} (h : Fresh k log s) (hinv : Inv s) (abortable : Bool)
    {e : Event κ ι ν} (he : e.writesBehind = false) :
    Fresh k (log ++ [(e, (step ⟨false, abortable⟩ s e).1)]) (step ⟨false, abortable⟩ s e).2 := by
  cases e with
  | request refresh key input ttl signal => exact h.request abortable refresh key input ttl signal
  | resolve load v => exact h.resolve ⟨false, abortable⟩ load v
  | reject load message =>
    -- a load that fails stores nothing
    refine h.keep (fun u hheld => ?_) fun f hf hattached _ => ?_
    · rw [Session.step, settle_eq] at hheld
      obtain ⟨hv, -⟩ | hold := ReadThrough.holds_settle hheld
      · cases hv
      · exact hold
    · exact ⟨f, (mem_flights_settle.mp hf).1, hattached, rfl, rfl⟩
  | abort signal reason =>
    obtain hcase | ⟨aborted, s', hcase, hspec⟩ := @abort_spec κ ι ν _ s hinv abortable signal reason
    · rw [Session.step, hcase]
      exact h.keep (fun _ => id) fun f hf hattached _ => ⟨f, hf, hattached, rfl, rfl⟩
    · rw [Session.step, hcase]
      refine h.keep (fun v hheld => ?_) fun f hf hattached _ => hspec.flights f hf hattached
      rw [← hspec.store]
      exact hheld
  | invalidate key =>
    -- another invalidation only takes away
    refine h.keep (fun v hheld => (TtlCache.holds_delete hheld).2) fun f hf hattached _ => ?_
    exact ⟨f, (ReadThrough.exists_of_mem_invalidate hf hattached).1, hattached, rfl, rfl⟩
  | invalidateAll =>
    refine h.keep (fun v hheld => absurd hheld TtlCache.not_holds_flush) fun f hf hattached _ => ?_
    rw [ReadThrough.not_attached_invalidateAll hf] at hattached
    cases hattached
  | advance span =>
    exact h.keep (fun _ => TtlCache.holds_advance)
      fun f hf hattached _ => ⟨f, hf, hattached, rfl, rfl⟩
  | seed => cases he
  | peek key =>
    exact h.keep (fun _ => TtlCache.holds_get) fun f hf hattached _ => ⟨f, hf, hattached, rfl, rfl⟩

/-- Events that do not write behind the cache keep a key fresh. -/
theorem Fresh.after {past : Log κ ι ν} (h : Fresh k past s) (hinv : Inv s) (abortable : Bool)
    {events : List (Event κ ι ν)} (hwrites : ∀ e ∈ events, e.writesBehind = false) :
    Fresh k (past ++ log ⟨false, abortable⟩ s events) (after ⟨false, abortable⟩ s events) := by
  induction events generalizing past s with
  | nil =>
    rw [log_nil, List.append_nil]
    exact h
  | cons e rest ih =>
    rw [List.forall_mem_cons] at hwrites
    have hstep := h.step hinv abortable hwrites.1
    have hrest := ih hstep (inv_step hinv abortable e) hwrites.2
    rw [List.append_assoc] at hrest
    exact hrest

/-- A caller waits for no load but one of a key that started in the course of a log. -/
def AwaitsIn (c : Nat) (k : κ) (log : Log κ ι ν) (s : State κ ν) : Prop :=
  ∀ w ∈ s.waiting, w.caller = c → StartedIn log w.load k

/-- What a caller gets that waits for a load in the log is the value of a load in the log. -/
theorem answered_step {past : Log κ ι ν} {c : Nat} (hawaits : AwaitsIn c k past s) (hinv : Inv s)
    (hc : c < s.callers) (abortable : Bool) (e : Event κ ι ν) :
    AwaitsIn c k (past ++ [(e, (step ⟨false, abortable⟩ s e).1)])
        (step ⟨false, abortable⟩ s e).2 ∧
      ∀ v, (c, .ok v) ∈ (step ⟨false, abortable⟩ s e).1.settled →
        ∃ load, LoadedIn (past ++ [(e, (step ⟨false, abortable⟩ s e).1)]) k load v := by
  refine ⟨fun w hw hcaller => ?_, fun v hsettled => ?_⟩
  · obtain hw | ⟨hnew, -⟩ := waiting_of_step hinv abortable e hw
    · exact (hawaits w hw hcaller).append _
    · omega
  · obtain ⟨hnew, -⟩ | ⟨w, hw, hcaller, hend⟩ | ⟨w, hw, hcaller, -, reason, herror⟩ :=
      settled_of_step hinv abortable e hsettled
    · omega
    · -- the load that the caller waits for is in the log, and now ends
      cases e with
      | resolve load u =>
        simp only [Event.ends?, Option.some.injEq, Prod.mk.injEq, Except.ok.injEq] at hend
        obtain ⟨rfl, rfl⟩ := hend
        exact ⟨w.load, past, _, [], rfl, hawaits w hw hcaller⟩
      | reject load message => simp [Event.ends?] at hend
      | _ => cases hend
    · cases herror

theorem answered_run {past : Log κ ι ν} {c : Nat} (hawaits : AwaitsIn c k past s) (hinv : Inv s)
    (hc : c < s.callers) (abortable : Bool) {events : List (Event κ ι ν)}
    {first second : Log κ ι ν} {p : Event κ ι ν × Effects κ ι ν} {v : ν}
    (hlog : log ⟨false, abortable⟩ s events = first ++ p :: second)
    (hsettled : (c, .ok v) ∈ p.2.settled) :
    ∃ load, LoadedIn (past ++ first ++ [p]) k load v := by
  -- event by event, until the one by which the caller is answered
  induction events generalizing past s first with
  | nil => simp at hlog
  | cons e rest ih =>
    obtain ⟨hnext, hanswer⟩ := answered_step hawaits hinv hc abortable e
    rw [log_cons] at hlog
    cases first with
    | nil =>
      obtain ⟨rfl, -⟩ := List.cons.inj hlog
      rw [List.append_nil]
      exact hanswer v hsettled
    | cons q first =>
      obtain ⟨rfl, hrest⟩ := List.cons.inj hlog
      have hlater := ih hnext (inv_step hinv abortable e)
        (Nat.lt_of_lt_of_le hc (callers_step hinv abortable e)) hrest
      simpa using hlater

/-- A caller who asks for a fresh key at most waits for a load of the key in the log. -/
theorem awaits_request {past : Log κ ι ν} (h : Fresh k past s) (hinv : Inv s) (abortable : Bool)
    (refresh : Bool) (input : ι) (ttl : Option Time) (signal : Option Text) :
    AwaitsIn s.callers k
      (past ++ [(.request refresh k input ttl signal,
        (step ⟨false, abortable⟩ s (.request refresh k input ttl signal)).1)])
      (step ⟨false, abortable⟩ s (.request refresh k input ttl signal : Event κ ι ν)).2 := by
  intro w hw hcaller
  obtain hw | ⟨-, refresh, key, input, ttl, signal, hrequest, hjoined | hstarted⟩ :=
    waiting_of_step hinv abortable _ hw
  · have hbelow := hinv.below w hw
    omega
  · -- the load that can be joined is in the log
    injection hrequest with _ hkey
    subst hkey
    obtain ⟨f, hf, hload⟩ := hjoined
    obtain ⟨hmem, hattached, hkey⟩ := ReadThrough.mem_of_attached? hf
    rw [hload]
    exact (h.flights f hmem hattached hkey).append _
  · -- the load starts by the request itself
    rw [hrequest] at hstarted ⊢
    injection hrequest with _ hkey
    subst hkey
    exact ⟨_, List.mem_append_right _ List.mem_cons_self, input, hstarted⟩

/-- A caller who asks for a fresh key and is answered at once gets the value of a load in the log. -/
theorem answered_request {past : Log κ ι ν} (h : Fresh k past s) (hinv : Inv s) (abortable : Bool)
    {refresh : Bool} {input : ι} {ttl : Option Time} {signal : Option Text} {v : ν}
    (hsettled : (s.callers, .ok v) ∈
      (step ⟨false, abortable⟩ s (.request refresh k input ttl signal)).1.settled) :
    ∃ load, LoadedIn past k load v := by
  obtain ⟨-, refresh, key, input, ttl, signal, hrequest, hheld⟩ | ⟨w, hw, hcaller, -⟩ |
    ⟨w, hw, hcaller, -⟩ := settled_of_step hinv abortable _ hsettled
  · injection hrequest with _ hkey
    subst hkey
    exact h.store v (hheld v rfl)
  · have hbelow := hinv.below w hw
    omega
  · have hbelow := hinv.below w hw
    omega

/-- A caller who asks for a fresh key never gets any value but that of a load in the log. -/
theorem answered_fresh {past : Log κ ι ν} (h : Fresh k past s) (hinv : Inv s) (abortable : Bool)
    {refresh : Bool} {input : ι} {ttl : Option Time} {signal : Option Text}
    {rest : List (Event κ ι ν)} {first second : Log κ ι ν} {p : Event κ ι ν × Effects κ ι ν} {v : ν}
    (hlog : log ⟨false, abortable⟩ s (.request refresh k input ttl signal :: rest) =
      first ++ p :: second)
    (hsettled : (s.callers, .ok v) ∈ p.2.settled) :
    ∃ load, LoadedIn (past ++ first ++ [p]) k load v := by
  rw [log_cons] at hlog
  -- the caller is answered at once, or waits and is answered later
  cases first with
  | nil =>
    obtain ⟨rfl, -⟩ := List.cons.inj hlog
    obtain ⟨load, hloaded⟩ := answered_request h hinv abortable hsettled
    rw [List.append_nil]
    exact ⟨load, hloaded.append _⟩
  | cons q first =>
    obtain ⟨rfl, hrest⟩ := List.cons.inj hlog
    have hawaits := awaits_request h hinv abortable refresh input ttl signal
    have hcallers := callers_request abortable s refresh k input ttl signal
    have hlater := answered_run hawaits (inv_step hinv abortable _) hcallers abortable hrest hsettled
    simpa using hlater

/-! ## Callers that came before -/

/-- A caller that has been answered gets nothing more. -/
theorem outcomes_of_gone {c : Nat} (hinv : Inv s) (hc : c < s.callers)
    (hgone : ∀ w ∈ s.waiting, w.caller ≠ c) (abortable : Bool) (events : List (Event κ ι ν)) :
    outcomesOf c (log ⟨false, abortable⟩ s events) = [] := by
  induction events generalizing s with
  | nil => rfl
  | cons e rest ih =>
    -- the caller is neither new nor among those who wait
    have hnothing : (step ⟨false, abortable⟩ s e).1.settled.filter (·.1 == c) = [] := by
      rw [List.filter_eq_nil_iff]
      rintro ⟨c', outcome⟩ hsettled hsame
      obtain rfl : c' = c := by simpa using hsame
      obtain ⟨hnew, -⟩ | ⟨w, hw, hcaller, -⟩ | ⟨w, hw, hcaller, -⟩ :=
        settled_of_step hinv abortable e hsettled
      · omega
      · exact hgone w hw hcaller
      · exact hgone w hw hcaller
    have hrest := ih (inv_step hinv abortable e)
      (Nat.lt_of_lt_of_le hc (callers_step hinv abortable e)) fun w hw hcaller => by
        obtain hw | ⟨hnew, -⟩ := waiting_of_step hinv abortable e hw
        · exact hgone w hw hcaller
        · omega
    rw [log_cons, outcomesOf, List.flatMap_cons, hnothing]
    exact hrest

/-- Of all callers that waited for a load, each gets the outcome once. -/
theorem filter_settle (hinv : Inv s) (hw : w ∈ s.waiting) (outcome : Outcome ν) :
    (s.settle w.load outcome).1.filter (·.1 == w.caller) = [(w.caller, outcome)] := by
  have hone : (s.waiting.filter (·.load == w.load)).filter (·.caller == w.caller) = [w] :=
    ReadThrough.filter_of_nodup_map (hinv.distinct.sublist (List.filter_sublist.map _))
      (List.mem_filter.mpr ⟨hw, by simp⟩)
  rw [settle_eq, List.filter_map]
  have hcomp : ((fun p : Nat × Outcome ν => p.1 == w.caller) ∘ fun v : Waiter =>
      (v.caller, outcome)) = fun v : Waiter => v.caller == w.caller := rfl
  rw [hcomp, hone]
  rfl

/-- A caller that waits for a load gets the outcome of this load and nothing else, unless its signal
aborts before. -/
theorem outcomes_of_waiting (hinv : Inv s) (hw : w ∈ s.waiting) (abortable : Bool)
    {quiet rest : List (Event κ ι ν)} {e : Event κ ι ν} {outcome : Outcome ν}
    (hquiet : ∀ e ∈ quiet, (∀ outcome, e.ends? ≠ some (w.load, outcome)) ∧ ¬ e.aborts w)
    (hend : e.ends? = some (w.load, outcome)) :
    outcomesOf w.caller (log ⟨false, abortable⟩ s (quiet ++ e :: rest)) = [outcome] := by
  induction quiet generalizing s with
  | nil =>
    have hsettled := filter_settle hinv hw outcome
    have hstep := step_of_ends hend ⟨false, abortable⟩ s
    -- the caller does not wait on, so nothing more is told
    have hgone : ∀ v ∈ (s.settle w.load outcome).2.waiting, v.caller ≠ w.caller := by
      intro v hv heq
      rw [settle_eq] at hv
      obtain ⟨hv, hload⟩ := List.mem_filter.mp hv
      obtain rfl := List.inj_on_of_nodup_map hinv.distinct hv hw heq
      simp at hload
    have hcallers : w.caller < (s.settle w.load outcome).2.callers := by
      rw [settle_eq]
      exact hinv.below w hw
    have hnothing := outcomes_of_gone (inv_settle hinv w.load outcome) hcallers hgone abortable rest
    rw [List.nil_append, log_cons, hstep, outcomesOf, List.flatMap_cons]
    dsimp only
    rw [hsettled, List.map_singleton, List.singleton_append, List.cons.injEq]
    exact ⟨rfl, hnothing⟩
  | cons e' quiet ih =>
    rw [List.forall_mem_cons] at hquiet
    obtain ⟨⟨hother, habort⟩, hquiet⟩ := hquiet
    have hnothing : (step ⟨false, abortable⟩ s e').1.settled.filter (·.1 == w.caller) = [] := by
      rw [List.filter_eq_nil_iff]
      rintro ⟨c, outcome'⟩ hsettled hsame
      obtain rfl : c = w.caller := by simpa using hsame
      have hbelow := hinv.below w hw
      obtain ⟨hnew, -⟩ | ⟨v, hv, hcaller, hend'⟩ | ⟨v, hv, hcaller, habort', -⟩ :=
        settled_of_step hinv abortable e' hsettled
      · omega
      · obtain rfl := List.inj_on_of_nodup_map hinv.distinct hv hw hcaller
        exact hother outcome' hend'
      · obtain rfl := List.inj_on_of_nodup_map hinv.distinct hv hw hcaller
        exact habort habort'
    have hrest := ih (inv_step hinv abortable e') (stays_of_step hinv abortable hw hother habort) hquiet
    rw [List.cons_append, log_cons, outcomesOf, List.flatMap_cons, hnothing]
    exact hrest

/-! ## Detached loads -/

/-- The end of a load that nobody can join changes nothing that later callers see. -/
theorem settle_detached {load : Nat}
    (hdetached : ∀ f ∈ s.cache.flights, f.id = load → f.attached = false) (outcome : Outcome ν) :
    (s.settle load outcome).2.cache.store = s.cache.store ∧
      ∀ k, (s.settle load outcome).2.cache.attached? k = s.cache.attached? k := by
  rw [settle_eq]
  refine ⟨ReadThrough.settle_store hdetached, fun k => ReadThrough.attached?_settle fun f hf hid => ?_⟩
  obtain ⟨hmem, hattached, -⟩ := ReadThrough.mem_of_attached? hf
  rw [hdetached f hmem hid] at hattached
  cases hattached

/-- An abort leaves what is stored, and the load that can be joined unless somebody leaves it. -/
theorem abort_detached (hinv : Inv s) (abortable : Bool) (signal reason : Text) :
    (step ⟨false, abortable⟩ s (.abort signal reason : Event κ ι ν)).2.cache.store =
        s.cache.store ∧
      ∀ k, (∀ f, s.cache.attached? k = some f →
          ∀ w ∈ s.waiting, w.signal = some signal → w.load ≠ f.id) →
        (step ⟨false, abortable⟩ s (.abort signal reason : Event κ ι ν)).2.cache.attached? k =
          s.cache.attached? k := by
  obtain hcase | ⟨aborted, s', hcase, hspec⟩ := @abort_spec κ ι ν _ s hinv abortable signal reason
  · rw [step, hcase]
    exact ⟨rfl, fun _ _ => rfl⟩
  · rw [step, hcase]
    refine ⟨hspec.store, fun k hother => hspec.others k fun f hf w hw => ?_⟩
    obtain ⟨hw, hsignal⟩ := List.mem_filter.mp hw
    exact hother f hf w hw (by simpa using hsignal)

/-! ## Runs from the start -/

/-- Invalidations are final, whatever the order of events, whoever is in the way, and however the store
is swept.

* A caller who asks for a key after it was invalidated never gets any value but that of a load of
  the key that started after the invalidation and ended before the answer.
* A caller who waits for a load gets the outcome of this load and nothing else, whatever is
  invalidated before it ends, unless the caller's signal aborts before.
* Nobody can join a load of a key that was invalidated, or that all of its callers have left.
* The end of a load that nobody can join changes neither what is stored nor which load can be joined
  for any key; and no abort does, unless a caller leaves the load that could be joined. -/
theorem invalidation_fresh (abortable : Bool) (now : Time)
    (defaultTtl interval : Option Time) :
    let s₀ : State κ ν := .new now defaultTtl interval
    (∀ (before between rest : List (Event κ ι ν)) (e : Event κ ι ν) (k : κ) (refresh : Bool)
        (input : ι) (ttl : Option Time) (signal : Option Text) (s s' : State κ ν)
        (first second : Log κ ι ν) (p : Event κ ι ν × Effects κ ι ν) (v : ν),
      e.Invalidates k → (∀ e ∈ between, e.writesBehind = false) →
      s = after ⟨false, abortable⟩ s₀ (before ++ [e]) →
      s' = after ⟨false, abortable⟩ s between →
      log ⟨false, abortable⟩ s' (.request refresh k input ttl signal :: rest) =
        first ++ p :: second →
      (s'.callers, .ok v) ∈ p.2.settled →
      ∃ load, LoadedIn (log ⟨false, abortable⟩ s between ++ first ++ [p]) k load v) ∧
    (∀ (before quiet rest : List (Event κ ι ν)) (e : Event κ ι ν) (s : State κ ν) (w : Waiter)
        (outcome : Outcome ν),
      s = after ⟨false, abortable⟩ s₀ before → w ∈ s.waiting →
      (∀ e ∈ quiet, (∀ outcome, e.ends? ≠ some (w.load, outcome)) ∧ ¬ e.aborts w) →
      e.ends? = some (w.load, outcome) →
      outcomesOf w.caller (log ⟨false, abortable⟩ s (quiet ++ e :: rest)) = [outcome]) ∧
    (∀ (before : List (Event κ ι ν)) (s : State κ ν),
      s = after ⟨false, abortable⟩ s₀ before →
      (∀ (e : Event κ ι ν) (k : κ), e.Invalidates k →
        ∀ f ∈ (step ⟨false, abortable⟩ s e).2.cache.flights, f.key = k → f.attached = false) ∧
      (∀ f ∈ s.cache.flights, (∀ w ∈ s.waiting, w.load ≠ f.id) → f.attached = false)) ∧
    (∀ (before : List (Event κ ι ν)) (s : State κ ν),
      s = after ⟨false, abortable⟩ s₀ before →
      (∀ (e : Event κ ι ν) (load : Nat) (outcome : Outcome ν), e.ends? = some (load, outcome) →
        (∀ f ∈ s.cache.flights, f.id = load → f.attached = false) →
        (step ⟨false, abortable⟩ s e).2.cache.store = s.cache.store ∧
          ∀ k, (step ⟨false, abortable⟩ s e).2.cache.attached? k = s.cache.attached? k) ∧
      (∀ signal reason : Text,
        (step ⟨false, abortable⟩ s (.abort signal reason : Event κ ι ν)).2.cache.store =
            s.cache.store ∧
          ∀ k, (∀ f, s.cache.attached? k = some f →
              ∀ w ∈ s.waiting, w.signal = some signal → w.load ≠ f.id) →
            (step ⟨false, abortable⟩ s (.abort signal reason : Event κ ι ν)).2.cache.attached? k =
              s.cache.attached? k)) := by
  intro s₀
  have hinv (before : List (Event κ ι ν)) : Inv (after ⟨false, abortable⟩ s₀ before) :=
    inv_after (inv_new now defaultTtl interval) abortable before
  refine ⟨?_, ?_, ?_, ?_⟩
  · -- a caller that comes later: what it gets was loaded behind the invalidation
    intro before between rest e k refresh input ttl signal s s' first second p v he hwrites hs hs' hlog
      hsettled
    have hsinv : Inv s := hs ▸ hinv _
    have hfresh : Fresh k ([] : Log κ ι ν) s := by
      rw [hs, after, List.foldl_append]
      exact fresh_invalidate he ⟨false, abortable⟩
    have hfresh' := hfresh.after hsinv abortable hwrites
    have hsinv' := inv_after hsinv abortable between
    rw [← hs'] at hfresh' hsinv'
    exact answered_fresh hfresh' hsinv' abortable hlog hsettled
  · -- a caller that waited already: it still gets what its load gives
    rintro before quiet rest e s w outcome rfl hw hquiet hend
    exact outcomes_of_waiting (hinv before) hw abortable hquiet hend
  · rintro before s rfl
    -- nothing is attached behind an invalidation, nor without a caller
    refine ⟨fun e k he f hf hkey => ?_, fun f hf hnobody => ?_⟩
    · cases hattached : f.attached with
      | false => rfl
      | true =>
        obtain ⟨p, hp, -⟩ :=
          (fresh_invalidate (ι := ι) he ⟨false, abortable⟩).flights f hf hattached hkey
        cases hp
    · cases hattached : f.attached with
      | false => rfl
      | true =>
        obtain ⟨w, hw, hload⟩ := (hinv before).attended f hf hattached
        exact absurd hload (hnobody w hw)
  · rintro before s rfl
    -- the end of a detached load, or its abort, is not seen by the cache
    refine ⟨fun e load outcome hend hdetached => ?_, abort_detached (hinv before) abortable⟩
    rw [step_of_ends hend]
    exact settle_detached hdetached outcome

/-- Two callers ask for one key, and the key is invalidated in between: the load of the first one
ends last, and is for the first one only. -/
theorem invalidation_fresh_two_loads :
    (∃ load, LoadedIn
      ([(.request true 7 () none none, { started := [(1, 7, ())] }),
        (.resolve 1 20, { settled := [(1, .ok 20)] })] : Log Nat Unit Nat) 7 load 20) ∧
    outcomesOf 0 (log ⟨false, true⟩
      (after ⟨false, true⟩ (.initial 0) [(.request true 7 () none none : Event Nat Unit Nat)])
      [.invalidate 7, .request true 7 () none none, .resolve 1 20, .resolve 0 10]) = [.ok 10] ∧
    (∀ f ∈ (step ⟨false, true⟩ (after ⟨false, true⟩ (.initial 0)
        [(.request true 7 () none none : Event Nat Unit Nat)]) (.invalidate 7 :
          Event Nat Unit Nat)).2.cache.flights, f.key = 7 → f.attached = false) ∧
    (step ⟨false, true⟩ (after ⟨false, true⟩ (.initial 0)
        [(.request true 7 () none none : Event Nat Unit Nat), .invalidate 7,
          .request true 7 () none none])
      (.resolve 0 10 : Event Nat Unit Nat)).2.cache.attached? 7 =
        some ⟨1, 7, none, 1, 0, true⟩ := by
  obtain ⟨hlater, hearlier, hjoin, hdetached⟩ := @invalidation_fresh Nat Unit Nat _ true 0 none (some 0)
  refine ⟨?_, ?_, ?_, ?_⟩
  · exact hlater [.request true 7 () none none] [] [.resolve 1 20] (.invalidate 7) 7 true () none none
      _ _ [(.request true 7 () none none, { started := [(1, 7, ())] })] []
      (.resolve 1 20, { settled := [(1, .ok 20)] }) 20 (.inl rfl) (by simp) rfl rfl rfl
      List.mem_cons_self
  · refine hearlier [.request true 7 () none none]
      [.invalidate 7, .request true 7 () none none, .resolve 1 20] [] (.resolve 0 10) _ ⟨0, 0, none⟩
      (.ok 10) rfl List.mem_cons_self ?_ rfl
    simp [Event.ends?, Event.aborts]
  · exact (hjoin [.request true 7 () none none] _ rfl).1 (.invalidate 7) 7 (.inl rfl)
  · refine ((hdetached [.request true 7 () none none, .invalidate 7, .request true 7 () none none] _
      rfl).1 (.resolve 0 10) 0 (.ok 10) rfl ?_).2 7
    decide +kernel

end IssueQuery.Session
