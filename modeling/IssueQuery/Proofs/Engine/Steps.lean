import IssueQuery.Proofs.Engine.Sharing

/-!
# What an event does to calls and loads

An event of an engine that shares its loads is of one of four kinds. Either signals abort, if they
do, and nothing else happens to calls and loads of results; or no signal aborts, and calls are made
or get results while kept results are dropped; or a load ends; or a call starts a load, for which
the store is asked, and joins it behind that.

* `Aborting`, `Quiet`, `Opens` what changes at an event of a kind;
* `Shape`, `step_shape`        every event is of one of the kinds;
* `Shape.continues`, …         what becomes of a call, of the counters of loads and of texts;
* `Tidy`, `Reachable.tidy`     what holds in every state that such an engine gets into.
-/

namespace IssueQuery

/-! ## A load that starts -/

/-- A load of the key has started, as there was nothing of the key. -/
structure ReadThrough.Starts {κ ν : Type} [DecidableEq κ] (c c' : ReadThrough κ ν) (k : κ) :
    Prop where
  lacked : c.attached? k = none
  started : c'.started = c.started + 1
  flights : ∃ ttl, c'.flights = c.flights ++ [⟨c.started, k, ttl, 1, 0, true⟩]
  holds : ∀ j v, c'.store.Holds j v → c.store.Holds j v ∧ j ≠ k

/-- The loads that callers can join are of other keys. -/
theorem ReadThrough.Starts.other {κ ν : Type} [DecidableEq κ] {c c' : ReadThrough κ ν} {k : κ}
    (h : c.Starts c' k) : ∀ f ∈ c.flights, f.attached = true → f.key ≠ k := by
  intro f hf hattached hkey
  have hfound := h.lacked
  unfold attached? at hfound
  rw [List.find?_eq_none] at hfound
  exact hfound f hf (by simp [hattached, hkey])

/-- Loads have ended or been detached, and nobody has joined or left. -/
structure ReadThrough.Thins {κ ν : Type} (c c' : ReadThrough κ ν) : Prop where
  distinct : c.Distinct → c'.Distinct
  flights : ∀ f ∈ c'.flights, ∃ g ∈ c.flights, g.id = f.id ∧ g.waiters = f.waiters ∧ g.key = f.key

namespace ReadThrough.Thins

variable {κ ν : Type} {c c' c'' : ReadThrough κ ν}

theorem of_flights (h : c'.flights = c.flights) : c.Thins c' where
  distinct := by
    rw [Distinct, Distinct, h]
    exact id
  flights := fun f hf => ⟨f, h ▸ hf, rfl, rfl, rfl⟩

theorem trans (h : c.Thins c') (h' : c'.Thins c'') : c.Thins c'' where
  distinct := fun hdistinct => h'.distinct (h.distinct hdistinct)
  flights := by
    intro f hf
    obtain ⟨g, hg, hid, hwaiters, hkey⟩ := h'.flights f hf
    obtain ⟨g', hg', hid', hwaiters', hkey'⟩ := h.flights g hg
    exact ⟨g', hg', hid'.trans hid, hwaiters'.trans hwaiters, hkey'.trans hkey⟩

theorem of_map {change : Flight κ → Flight κ} (h : c'.flights = c.flights.map change)
    (hchange : ∀ f, (change f).id = f.id ∧ (change f).waiters = f.waiters ∧
      (change f).key = f.key) : c.Thins c' where
  distinct := by
    have hids : c'.flights.map Flight.id = c.flights.map Flight.id := by
      rw [h, List.map_map]
      exact List.map_congr_left fun f _ => (hchange f).1
    rw [Distinct, Distinct, hids]
    exact id
  flights := by
    intro f hf
    rw [h] at hf
    obtain ⟨g, hg, rfl⟩ := List.mem_map.mp hf
    obtain ⟨hid, hwaiters, hkey⟩ := hchange g
    exact ⟨g, hg, hid.symm, hwaiters.symm, hkey.symm⟩

theorem settle [DecidableEq κ] (c : ReadThrough κ ν) (load : Nat) (value : Option ν) (now : Time) :
    c.Thins (c.settle load value now) where
  distinct := by
    intro hdistinct
    rw [Distinct, settle_flights]
    exact List.Nodup.sublist (List.filter_sublist.map _) hdistinct
  flights := by
    exact fun f hf => ⟨f, (mem_settle_flights.mp hf).1, rfl, rfl, rfl⟩

theorem invalidate [DecidableEq κ] (c : ReadThrough κ ν) (k : κ) : c.Thins (c.invalidate k) := by
  refine .of_map rfl fun f => ?_
  split <;> exact ⟨rfl, rfl, rfl⟩

theorem invalidateEach [DecidableEq κ] (c : ReadThrough κ ν) (keys : List κ) :
    c.Thins (keys.foldl ReadThrough.invalidate c) := by
  induction keys generalizing c with
  | nil => exact .of_flights rfl
  | cons key rest ih => exact (Thins.invalidate c key).trans (ih _)

end ReadThrough.Thins

/-- A request that starts a load has found nothing in the store. -/
theorem ReadThrough.not_holds_of_starts {κ ν : Type} [DecidableEq κ] {c : ReadThrough κ ν}
    {refresh : Bool} {k : κ} {ttl : Option Time} {now : Time} {load : Nat}
    (h : (c.request refresh k ttl now).1 = .starts load) (v : ν) :
    ¬ (c.stored refresh k ttl now).2.store.Holds k v := by
  apply not_holds_stored
  unfold request at h
  split at h
  · exact nomatch h
  · rename_i heq
    rw [heq]

namespace Engine

variable {s s' s'' : State} {c c' : Call} {i load : Nat} {text : Text} {store : Store}
  {cfg : Settings} {event : Event} {queries queries' : ReadThrough Text Outcome}
  {calls calls' : List Call}

/-! ## Calls that go on -/

/-- If the signal of the call has aborted, the call has its reason. -/
def Call.Heeds (s : State) (c : Call) : Prop :=
  ∀ reason, s.reason? c.signal = some reason → c.settled = some (.error (.aborted reason))

/-- What the call is for stays. If it gets anything, then it heeds its signal unless the store
fails. -/
structure Call.Continues (store : Store) (s : State) (c c' : Call) : Prop where
  text : c'.text = c.text
  signal : c'.signal = c.signal
  load : c'.load = c.load
  settled : c'.settled = c.settled ∨ (Unfailing store → c'.Heeds s)

/-- The text of the call cannot be read, or the call heeds its signal if it gets anything. -/
def Call.Fresh (s : State) (c : Call) : Prop :=
  ∀ q, readQuery c.text = .ok q → c.settled = none ∨ c.Heeds s

theorem Call.Continues.refl (store : Store) (s : State) (c : Call) : c.Continues store s c :=
  ⟨rfl, rfl, rfl, .inl rfl⟩

theorem Call.Weathers.continues (h : c.Weathers s c') : c.Continues store s c' where
  text := h.text
  signal := h.signal
  load := h.load
  settled := by
    refine h.settled.imp_right ?_
    rintro ⟨reason, hreason, hsettled⟩ - reason' hreason'
    obtain rfl := Option.some.inj (hreason.symm.trans hreason')
    exact hsettled

/-! ## Counting the calls of a load -/

theorem sameClaims_append (hfree : c.load = none) : SameClaims calls (calls ++ [c]) where
  claims := fun load => by simp [claims, hfree]
  calls := by
    intro c' hc' load hload
    obtain hold | hnew := List.mem_append.mp hc'
    · exact ⟨c', hold, hload, rfl⟩
    · obtain rfl := List.mem_singleton.mp hnew
      rw [hfree] at hload
      exact nomatch hload

/-- Each load counts the calls that have it. -/
abbrev Tally (queries : ReadThrough Text Outcome) (calls : List Call) : Prop :=
  Tallied queries calls fun _ => 0

/-- A call joins the load that counts it already. -/
theorem Tallied.join (h : Tallied queries calls fun id => if id = load then 1 else 0)
    {change : Call → Call} (hc : calls[i]? = some c) (hfree : c.load = none)
    (hload : ∀ c, (change c).load = some load) (htext : ∀ c, (change c).text = c.text)
    (hkey : ∀ f ∈ queries.flights, f.id = load → c.text = f.key) :
    Tally queries (calls.modify i change) where
  distinct := h.distinct
  count := by
    intro f hf
    have hcount := claims_modify hc change f.id
    have hold := h.count f hf
    rw [hfree, hload] at hcount
    -- the flight that was one claim ahead gets its claim, the others keep theirs
    by_cases hsame : f.id = load
    · simp only [hsame, if_true, beq_self_eq_true, reduceCtorEq, beq_iff_eq, if_false] at hold hcount ⊢
      omega
    · simp only [hsame, Ne.symm hsame, if_false, reduceCtorEq, beq_iff_eq, Option.some.injEq]
        at hold hcount
      omega
  keyed := by
    intro f hf c' hc' hclaims
    obtain ⟨c₀, hc₀, rfl | ⟨hi, rfl⟩⟩ := mem_modify hc'
    · exact h.keyed f hf c' hc₀ hclaims
    · obtain rfl := Option.some.inj (hc.symm.trans hi)
      rw [hload] at hclaims
      rw [htext]
      exact hkey f hf (Option.some.inj hclaims).symm

/-! ## The kinds of events -/

/-- No signal aborts, and calls go on. A call that is made may join a load of its text. -/
structure Quiet (store : Store) (s s' : State) : Prop where
  signals : s'.signals = s.signals
  calls : ∀ (i : Nat) (c : Call), s.calls[i]? = some c →
    ∃ c', s'.calls[i]? = some c' ∧ c.Continues store s' c'
  made : ∀ (i : Nat) (c : Call), s'.calls[i]? = some c → s.calls[i]? = none → c.Fresh s'
  joined : ∀ (i : Nat) (c : Call), s'.calls[i]? = some c → s.calls[i]? = none →
    ∀ load, c.load = some load →
      ∃ f ∈ s.queries.flights, f.attached = true ∧ f.id = load ∧ f.key = c.text
  tally : Tally s.queries s.calls → Tally s'.queries s'.calls

/-- A load of the text starts; signals may abort while the store is asked for it; and then the call
that has started it joins it. -/
structure Opens (s s' : State) (text : Text) (middle last : State) : Prop where
  signals : middle.signals = s.signals
  calls : ∃ c, c.text = text ∧ c.load = none ∧ c.settled = none ∧ middle.calls = s.calls ++ [c]
  starts : s.queries.Starts middle.queries text
  aborting : Aborting middle last
  joins : s' = join last s.calls.length s.queries.started

/-- What an event may be. -/
inductive Shape (store : Store) (s : State) (event : Event) : State → Prop
  | aborting {s' : State} (h : Aborting s s') : Shape store s event s'
  | quiet {s' : State} (h : Quiet store s s') (hqueries : s.queries.Subsides s'.queries) :
    Shape store s event s'
  | settles {s' : State} (h : Quiet store s s') {load : Nat} {outcome : Except LoadFailure Outcome}
    {rest : List (Nat × Job)} (htick : event = .tick)
    (hagenda : s.agenda = (0, .settle load outcome) :: rest)
    (hqueries : s'.queries = s.queries.settle load outcome.toOption s.now) : Shape store s event s'
  | opens {s' : State} {text : Text} {signal : Option Text} {middle last : State}
    (hcall : event = .call text signal) (h : Opens s s' text middle last) : Shape store s event s'

theorem Quiet.refl (store : Store) (s : State) : Quiet store s s where
  signals := rfl
  calls := fun _ c hc => ⟨c, hc, .refl store s c⟩
  made := fun _ _ hc hnew => nomatch hc.symm.trans hnew
  joined := fun _ _ hc hnew => nomatch hc.symm.trans hnew
  tally := id

/-- Behind the calls that there were stands the one that was made. -/
theorem getElem?_of_append (hc : (calls ++ [c])[i]? = some c') (hnew : calls[i]? = none) :
    c' = c := by
  obtain hold | ⟨-, hsame⟩ := getElem?_concat_cases hc
  · exact nomatch hnew.symm.trans hold
  · exact hsame

/-- At most one call changes. -/
theorem quiet_modify {change : Call → Call} (hcalls : s'.calls = s.calls.modify i change)
    (hsignals : s'.signals = s.signals) (hflights : s'.queries.flights = s.queries.flights)
    (hchange : ∀ c, (change c).load = c.load ∧ (change c).text = c.text)
    (hcontinues : ∀ c, s.calls[i]? = some c → c.Continues store s' (change c)) :
    Quiet store s s' where
  signals := hsignals
  calls := by
    intro j c hc
    rw [hcalls]
    obtain ⟨c', hc', ⟨rfl, rfl⟩ | ⟨-, rfl⟩⟩ := exists_getElem?_modify hc i change
    · exact ⟨_, hc', hcontinues c hc⟩
    · exact ⟨c', hc', .refl store s' c'⟩
  made := by
    intro j c hc hnew
    obtain ⟨c₀, hc₀, -⟩ := getElem?_modify_cases (hcalls ▸ hc)
    exact nomatch hnew.symm.trans hc₀
  joined := by
    intro j c hc hnew
    obtain ⟨c₀, hc₀, -⟩ := getElem?_modify_cases (hcalls ▸ hc)
    exact nomatch hnew.symm.trans hc₀
  tally := by
    intro htally
    have hthins := ReadThrough.Thins.of_flights hflights
    rw [hcalls]
    exact htally.mono (hthins.distinct htally.distinct) hthins.flights
      (sameClaims_modify (fun c => (hchange c).1) fun c => (hchange c).2)

/-- A call is made that gets its result at once, or later. -/
theorem quiet_append (hcalls : ∃ c, s'.calls = s.calls ++ [c] ∧ c.load = none ∧ c.Fresh s')
    (hsignals : s'.signals = s.signals) (hflights : s'.queries.flights = s.queries.flights) :
    Quiet store s s' := by
  obtain ⟨c, hcalls, hfree, hfresh⟩ := hcalls
  constructor
  · exact hsignals
  · exact fun j c' hc' => ⟨c', hcalls ▸ getElem?_concat hc' c, .refl store s' c'⟩
  · intro j c' hc' hnew
    rw [hcalls] at hc'
    obtain rfl := getElem?_of_append hc' hnew
    exact hfresh
  · intro j c' hc' hnew load hload
    rw [hcalls] at hc'
    obtain rfl := getElem?_of_append hc' hnew
    exact nomatch hfree.symm.trans hload
  · intro htally
    have hthins := ReadThrough.Thins.of_flights hflights
    rw [hcalls]
    exact htally.mono (hthins.distinct htally.distinct) hthins.flights (sameClaims_append hfree)

/-- No call changes, and no caller joins a load. -/
theorem quiet_thins (hcalls : s'.calls = s.calls) (hsignals : s'.signals = s.signals)
    (hthins : s.queries.Thins s'.queries) : Quiet store s s' where
  signals := hsignals
  calls := fun _ c hc => ⟨c, hcalls ▸ hc, .refl store s' c⟩
  made := fun _ _ hc hnew => nomatch (hcalls ▸ hc).symm.trans hnew
  joined := fun _ _ hc hnew => nomatch (hcalls ▸ hc).symm.trans hnew
  tally := fun htally => htally.mono (hthins.distinct htally.distinct) hthins.flights
    (hcalls ▸ .refl _)

/-! ## Turns -/

/-- A call that is told an outcome heeds its signal. -/
theorem resultOf_of_ok {outcome : Except LoadFailure Outcome} (hok : outcome.isOk)
    {reason : Text} (hreason : s.reason? c.signal = some reason) :
    resultOf s c outcome = .error (.aborted reason) := by
  cases outcome with
  | error e => exact nomatch hok
  | ok out =>
    unfold resultOf
    rw [hreason]

theorem Frame.queriesSubside (h : Frame s s') : s.queries.Subsides s'.queries :=
  ⟨h.queriesHold, fun f hf hattached => ⟨f, h.queryFlights ▸ hf, hattached, rfl, rfl⟩,
    h.queriesStarted⟩

/-- A call whose text cannot be read gets its result, and the log a line. -/
theorem quiet_finishWith {result : Except Rejection Result} (hfree : c.load = none)
    (hunread : ∀ q, readQuery c.text ≠ .ok q) (hcalls : s.calls = s'.calls ++ [c])
    (hlength : i = s'.calls.length)
    (hsignals : s.signals = s'.signals) (hqueries : s.queries = s'.queries) :
    Quiet store s' (finishWith cfg s i result) := by
  have hframe := frame_finishWith cfg s i result
  apply quiet_append
  · refine ⟨{ c with settled := some result, listening := false }, ?_, hfree,
      fun q hq => absurd hq (hunread q)⟩
    rw [hframe.calls, State.settleCall, State.modifyCall, hcalls, hlength, modify_length_append]
  · exact hframe.signals.trans hsignals
  · exact hframe.queryFlights.trans (congrArg ReadThrough.flights hqueries)

/-- What stands on the agenda does not matter to calls. -/
theorem Quiet.of_agenda {agenda : List (Nat × Job)}
    (h : Quiet store { s with agenda := agenda } s') :
    Quiet store s s' :=
  ⟨h.signals, h.calls, h.made, h.joined, h.tally⟩

theorem quiet_finish {outcome : Except LoadFailure Outcome}
    (hs : Performed cfg store s (.finish i outcome) s')
    (hjob : (Job.finish i outcome).Orderly store s) :
    Quiet store s s' ∧ s.queries.Subsides s'.queries := by
  obtain ⟨c, hc, hok⟩ := hjob
  cases hs with
  | finishedLate => exact ⟨.refl store s, .refl s.queries⟩
  | finished _ hc₀ hunsettled =>
    obtain rfl := Option.some.inj (hc.symm.trans hc₀)
    have hframe := frame_finishWith cfg s i (resultOf s c outcome)
    refine ⟨?_, hframe.queriesSubside⟩
    apply quiet_modify hframe.calls hframe.signals hframe.queryFlights fun _ => ⟨rfl, rfl⟩
    intro c' hc'
    obtain rfl := Option.some.inj (hc.symm.trans hc')
    refine ⟨rfl, rfl, rfl, .inr fun hstore reason hreason => ?_⟩
    rw [reason?_congr hframe.signals] at hreason
    exact congrArg some (resultOf_of_ok (hok hunsettled hstore) hreason)

theorem quiet_deliver {outcome : Except LoadFailure Outcome}
    (hs : Performed cfg store s (.deliver i outcome) s') :
    Quiet store s s' ∧ s.queries.Subsides s'.queries := by
  cases hs with
  | deliveredLate => exact ⟨.refl store s, .refl s.queries⟩
  | delivered =>
    refine ⟨?_, .refl s.queries⟩
    exact quiet_modify rfl rfl rfl (fun _ => ⟨rfl, rfl⟩) fun c _ => ⟨rfl, rfl, rfl, .inl rfl⟩

/-- A turn ends a load, or calls get results, or signals abort, or nothing happens to them. -/
theorem Ticked.shape (hs : Ticked cfg store s s') (h : Alert store s s.Pending) :
    Shape store s .tick s' := by
  cases hs with
  | idle => exact .aborting (.refl s)
  | @due job rest _ hagenda hs =>
    have hrest : Aborting s { s with agenda := rest } := .of_eq rfl rfl rfl
    have hjob : job.Orderly store s := h.attentive.jobs job (pending_head hagenda)
    cases job with
    | settle load outcome =>
      cases hs with
      | settled =>
        exact .settles (quiet_thins rfl rfl (.settle s.queries load _ _)) rfl hagenda rfl
    | deliver call outcome =>
      obtain ⟨hquiet, hqueries⟩ := quiet_deliver hs
      exact .quiet hquiet.of_agenda hqueries
    | finish call outcome =>
      obtain ⟨hquiet, hqueries⟩ := quiet_finish hs hjob
      exact .quiet hquiet.of_agenda hqueries
    | subscribe _ | settleGraph _ _ | deliverGraph _ _ | resume _ _ =>
      exact .aborting (hrest.trans (hs.aborting rfl))
  | putOff => exact .aborting (.of_eq rfl rfl rfl)

/-! ## Calls -/

/-- A call is made, and joins a load of its text that is under way. -/
theorem quiet_join {made : State} {f : Flight Text} (hf : f ∈ s.queries.flights)
    (hattached : f.attached = true)
    (hcalls : ∃ c, made.calls = s.calls ++ [c] ∧ c.load = none ∧ c.text = f.key ∧
      c.settled = none)
    (hlength : i = s.calls.length) (hsignals : made.signals = s.signals)
    (hflights : made.queries.flights = (s.queries.modify f.id fun f =>
      { f with waiters := f.waiters + 1 }).flights) : Quiet store s (join made i f.id) := by
  obtain ⟨c, hcalls, hfree, htext, hunsettled⟩ := hcalls
  subst hlength
  have hc : made.calls[s.calls.length]? = some c := by
    rw [hcalls]
    exact List.getElem?_concat_length
  constructor
  · rw [join_signals]
    exact hsignals
  · intro j c' hc'
    obtain ⟨hj, -⟩ := List.getElem?_eq_some_iff.mp hc'
    refine ⟨c', ?_, .refl _ _ c'⟩
    rw [join_calls, List.getElem?_modify_ne _ _ (Nat.ne_of_gt hj), hcalls]
    exact getElem?_concat hc' c
  · intro j c' hc' hnew
    rw [join_calls, List.getElem?_modify, hcalls] at hc'
    obtain ⟨c₀, hc₀, rfl⟩ := Option.map_eq_some_iff.mp hc'
    obtain rfl := getElem?_of_append hc₀ hnew
    refine fun _ _ => .inl ?_
    split <;> exact hunsettled
  · intro j c' hc' hnew load hload
    rw [join_calls, List.getElem?_modify, hcalls] at hc'
    obtain ⟨c₀, hc₀, rfl⟩ := Option.map_eq_some_iff.mp hc'
    obtain rfl := getElem?_of_append hc₀ hnew
    by_cases hj : s.calls.length = j
    · rw [if_pos hj] at hload ⊢
      exact ⟨f, hf, hattached, Option.some.inj hload, htext.symm⟩
    · rw [if_neg hj] at hload
      exact nomatch hfree.symm.trans hload
  · intro htally
    rw [join_queries, join_calls]
    -- the load counts one caller more than there are calls, until the call has it
    have hcounted : Tallied made.queries made.calls fun id => if id = f.id then 1 else 0 := by
      constructor
      · have hids : (s.queries.modify f.id fun f =>
            { f with waiters := f.waiters + 1 }).flights.map Flight.id =
            s.queries.flights.map Flight.id := ReadThrough.modify_ids fun _ => rfl
        rw [ReadThrough.Distinct, hflights, hids]
        exact htally.distinct
      · intro g hg
        rw [hflights] at hg
        obtain ⟨g₀, hg₀, hid, -, -, -, hwaiters⟩ := ReadThrough.exists_of_mem_join hg
        rw [hcalls, (sameClaims_append hfree).claims, hwaiters, htally.count g₀ hg₀, hid,
          Nat.add_zero]
      · intro g hg c' hc' hload
        rw [hflights] at hg
        rw [hcalls] at hc'
        obtain ⟨g₀, hg₀, hid, hkey, -⟩ := ReadThrough.exists_of_mem_join hg
        obtain ⟨c₀, hc₀, hload₀, htext₀⟩ := (sameClaims_append hfree).calls c' hc' g.id hload
        rw [← htext₀, ← hkey]
        exact htally.keyed g₀ hg₀ c₀ hc₀ (hid ▸ hload₀)
    refine hcounted.join hc hfree (fun _ => rfl) (fun _ => rfl) fun g hg hid => ?_
    rw [hflights] at hg
    obtain ⟨g₀, hg₀, hid₀, hkey, -⟩ := ReadThrough.exists_of_mem_join hg
    rw [← hkey, htally.distinct.eq hg₀ hf (hid₀.trans hid)]
    exact htext

theorem shape_call (hon : cfg.disabled = false) (text : Text) (signal : Option Text) :
    Shape store s (.call text signal) (call cfg store s text signal) := by
  let c : Call := ⟨text, signal, s.now, none, false, none⟩
  obtain ⟨texts, hcases⟩ := call_cases hon store s text signal
  -- turned down, aborted before, kept, joined, or a load of its own to share
  obtain ⟨failure, hfailure, hcall⟩ | ⟨q, hquery, ⟨reason, hreason, hcall⟩ | ⟨-, hcall⟩⟩ := hcases
  · rw [hcall]
    let made : State := { s with calls := s.calls ++ [c], expanding := texts }
    have hframe := frame_finishWith cfg made s.calls.length (.error (.failed text failure))
    refine .quiet (quiet_finishWith (c := c) rfl ?_ rfl rfl rfl rfl) hframe.queriesSubside
    exact fun q hq => nomatch hq.symm.trans hfailure
  · rw [hcall]
    let c' : Call := { c with settled := some (.error (.aborted reason)), listening := false }
    have hcalls : (s.calls ++ [c]).modify s.calls.length (fun c =>
        { c with settled := some (.error (.aborted reason)), listening := false }) =
        s.calls ++ [c'] := modify_length_append s.calls c _
    refine .quiet (quiet_append ⟨c', hcalls, rfl, fun _ _ => .inr ?_⟩ rfl rfl) (.refl s.queries)
    intro reason' hreason'
    obtain rfl := Option.some.inj (hreason.symm.trans hreason')
    rfl
  · rw [hcall]
    have hstored := ReadThrough.Subsides.stored s.queries true text (some cfg.ttl) s.now
    unfold requestShared
    dsimp only
    obtain ⟨out, -, hrequest⟩ | ⟨f, hfound, hrequest⟩ | ⟨hlacked, hrequest⟩ :=
      s.queries.request_cases true text (some cfg.ttl) s.now
    · rw [hrequest]
      exact .quiet (quiet_append ⟨c, rfl, rfl, fun _ _ => .inl rfl⟩ rfl rfl) hstored
    · rw [hrequest]
      obtain ⟨hmem, hattached, hkey⟩ := ReadThrough.mem_of_attached? hfound
      refine .quiet (quiet_join hmem hattached ⟨c, rfl, rfl, hkey.symm, rfl⟩ rfl rfl rfl) ?_
      rw [join_queries]
      exact hstored.trans (.join _ f.id)
    · have hstarts : (s.queries.request true text (some cfg.ttl) s.now).1 =
          .starts s.queries.started := by rw [hrequest]
      rw [hrequest]
      obtain ⟨selection, hselect⟩ := Query.select_of_check (check_of_readQuery hquery)
      have haborting : ∀ made : State, Aborting made (startLoad cfg store made
          ⟨s.queries.started, q, .shared none, [], none, [], none⟩) :=
        fun made => aborting_startLoad hselect made
      refine .opens rfl ⟨?_, ⟨c, rfl, rfl, rfl, ?_⟩, ⟨hlacked, ?_, ⟨some cfg.ttl, ?_⟩, ?_⟩,
        haborting _, rfl⟩
      · rfl
      · rfl
      · rfl
      · rfl
      · intro j v hholds
        refine ⟨hstored.holds j v hholds, ?_⟩
        rintro rfl
        exact ReadThrough.not_holds_of_starts hstarts v hholds

/-- Every event is of one of the kinds. -/
theorem step_shape (hon : cfg.disabled = false) (h : Alert store s s.Pending) (event : Event) :
    Shape store s event (step cfg store s event) := by
  cases event with
  | call text signal => exact shape_call hon text signal
  | tick => exact (ticked cfg store s).shape h
  | abort signal reason => exact .aborting ((Aborting.refl s).abort signal reason)
  | invalidate =>
    exact .quiet (quiet_thins rfl rfl (.of_map rfl fun _ => ⟨rfl, rfl, rfl⟩))
      (.invalidateAll s.queries)
  | invalidateGraph =>
    exact .quiet (quiet_thins rfl rfl (.invalidateEach s.queries s.expanding))
      (subsides_invalidateEach s.queries s.expanding)
  | advance span =>
    exact .aborting ((Aborting.refl s).apart ⟨rfl, rfl, rfl, rfl, fun _ _ => TtlCache.holds_advance⟩)
  | close => exact .aborting ((Aborting.refl s).apart ⟨rfl, rfl, rfl, rfl, fun _ _ => id⟩)

/-! ## What the kinds have in common -/

theorem remembers_of_signals (h : s'.signals = s.signals) : s.Remembers s' := by
  intro name reason hreason
  rw [reason?_congr h]
  exact hreason

/-- The call that starts a load is as it was made until it joins the load. -/
theorem Opens.made {middle last : State} (h : Opens s s' text middle last) :
    ∃ c, c.text = text ∧ c.load = none ∧ c.settled = none ∧ middle.calls = s.calls ++ [c] ∧
      last.calls[s.calls.length]? = some c := by
  obtain ⟨c, htext, hfree, hunsettled, hcalls⟩ := h.calls
  refine ⟨c, htext, hfree, hunsettled, hcalls, h.aborting.free ?_ hfree⟩
  rw [hcalls]
  exact List.getElem?_concat_length

/-- No call has the load that starts. -/
theorem Opens.nobody {middle last : State} (h : Opens s s' text middle last)
    (halert : Alert store s s.Pending) :
    ∀ (i : Nat) (c : Call), middle.calls[i]? = some c → c.load ≠ some s.queries.started := by
  obtain ⟨c, -, hfree, -, hcalls⟩ := h.calls
  rw [hcalls]
  intro i c' hc' hload
  obtain ⟨c₀, hc₀, hload₀, -⟩ :=
    (sameClaims_append hfree).calls c' (List.mem_of_getElem? hc') _ hload
  obtain ⟨j, hj⟩ := List.mem_iff_getElem?.mp hc₀
  obtain ⟨l, hl, hid, -⟩ := (halert.attentive.calls j c₀ hj).loaded _ hload₀
  exact absurd hid (Nat.ne_of_lt (halert.attentive.loads l hl).below)

/-- The load that starts is under way until the call joins it, and nobody else has it. -/
theorem Opens.unclaimed {middle last : State} (h : Opens s s' text middle last)
    (halert : Alert store s s.Pending) :
    ∃ ttl, Unclaimed last ⟨s.queries.started, text, ttl, 1, 0, true⟩ := by
  obtain ⟨ttl, hflights⟩ := h.starts.flights
  refine ⟨ttl, h.aborting.unclaimed ⟨h.nobody halert, ?_, ?_⟩⟩
  · rw [hflights]
    exact List.mem_append_right _ (List.mem_singleton_self _)
  · intro g hg hid
    rw [hflights] at hg
    obtain hold | hsame := List.mem_append.mp hg
    · exact absurd hid (Nat.ne_of_lt (halert.counted.below g hold))
    · exact List.mem_singleton.mp hsame

/-- The load that starts counts the call before it joins. -/
theorem Opens.tallied {middle last : State} (h : Opens s s' text middle last)
    (halert : Alert store s s.Pending) (htally : Tally s.queries s.calls) :
    Tallied middle.queries middle.calls
      fun load => if load = s.queries.started then 1 else 0 := by
  obtain ⟨c, -, hfree, -, hcalls⟩ := h.calls
  obtain ⟨ttl, hflights⟩ := h.starts.flights
  -- the new flight has a number that no flight and no call had
  have hfresh : ∀ f ∈ s.queries.flights, f.id ≠ s.queries.started :=
    fun f hf => Nat.ne_of_lt (halert.counted.below f hf)
  constructor
  · rw [ReadThrough.Distinct, hflights]
    exact ReadThrough.nodup_map_concat htally.distinct hfresh
  all_goals
    intro f hf
    rw [hflights] at hf
    obtain hold | hnew := List.mem_append.mp hf
  · rw [hcalls, (sameClaims_append hfree).claims, if_neg (hfresh f hold)]
    exact htally.count f hold
  · obtain rfl := List.mem_singleton.mp hnew
    rw [claims_eq_zero.mpr (h.nobody halert), if_pos rfl]
  · rw [hcalls]
    intro c' hc' hload
    obtain ⟨c₀, hc₀, hload₀, htext₀⟩ := (sameClaims_append hfree).calls c' hc' f.id hload
    rw [← htext₀]
    exact htally.keyed f hold c₀ hc₀ hload₀
  · obtain rfl := List.mem_singleton.mp hnew
    intro c' hc' hload
    obtain ⟨j, hj⟩ := List.mem_iff_getElem?.mp hc'
    exact absurd hload (h.nobody halert j c' hj)

namespace Shape

/-- Signals that have aborted keep their reasons. -/
theorem remembers (h : Shape store s event s') : s.Remembers s' := by
  cases h with
  | aborting h => exact h.remembers
  | quiet h => exact remembers_of_signals h.signals
  | settles h => exact remembers_of_signals h.signals
  | @opens _ _ middle last _ h =>
    intro name reason hreason
    rw [h.joins, reason?_congr (join_signals _ _ _)]
    exact h.aborting.remembers name reason (remembers_of_signals h.signals name reason hreason)

/-- Every call goes on. -/
theorem continues (h : Shape store s event s') (hc : s.calls[i]? = some c) :
    ∃ c', s'.calls[i]? = some c' ∧ c.Continues store s' c' := by
  cases h with
  | aborting h =>
    obtain ⟨c', hc', hweathers⟩ := h.call hc
    exact ⟨c', hc', hweathers.continues⟩
  | quiet h => exact h.calls i c hc
  | settles h => exact h.calls i c hc
  | @opens _ _ middle last _ h =>
    obtain ⟨made, -, -, -, hcalls, -⟩ := h.made
    obtain ⟨hi, -⟩ := List.getElem?_eq_some_iff.mp hc
    have hmiddle : middle.calls[i]? = some c := hcalls ▸ getElem?_concat hc _
    obtain ⟨c', hc', hweathers⟩ := h.aborting.call hmiddle
    refine ⟨c', ?_, ?_⟩
    · rw [h.joins, join_calls, List.getElem?_modify_ne _ _ (Nat.ne_of_gt hi)]
      exact hc'
    · rw [h.joins]
      exact (hweathers.mono (remembers_of_signals (join_signals _ _ _))).continues

/-- A call that is made gets nothing at once but the reason of its signal, if its text can be
read. -/
theorem made (h : Shape store s event s') (hc : s'.calls[i]? = some c) (hnew : s.calls[i]? = none) :
    c.Fresh s' := by
  cases h with
  | aborting h =>
    rw [h.none_made hnew] at hc
    exact nomatch hc
  | quiet h => exact h.made i c hc hnew
  | settles h => exact h.made i c hc hnew
  | @opens _ _ middle last _ h =>
    obtain ⟨made, -, hfree, hunsettled, hcalls, -⟩ := h.made
    rw [h.joins, join_calls, List.getElem?_modify] at hc
    obtain ⟨c', hc', rfl⟩ := Option.map_eq_some_iff.mp hc
    have hc'' : c' = made := by
      cases hmiddle : middle.calls[i]? with
      | none => exact nomatch (h.aborting.none_made hmiddle).symm.trans hc'
      | some c₀ =>
        -- the call that was made is still as it was
        obtain rfl := getElem?_of_append (hcalls ▸ hmiddle) hnew
        exact Option.some.inj (hc'.symm.trans (h.aborting.free hmiddle hfree))
    subst hc''
    refine fun _ _ => .inl ?_
    split <;> exact hunsettled

/-- Each load counts the calls that have it. -/
theorem tally (h : Shape store s event s') (halert : Alert store s s.Pending)
    (htally : Tally s.queries s.calls) : Tally s'.queries s'.calls := by
  cases h with
  | aborting h => exact h.tallied htally
  | quiet h => exact h.tally htally
  | settles h => exact h.tally htally
  | @opens text _ middle last _ h =>
    obtain ⟨c, htext, hfree, -, -, hc⟩ := h.made
    obtain ⟨ttl, hunclaimed⟩ := h.unclaimed halert
    rw [h.joins, join_queries, join_calls]
    refine (h.aborting.tallied (h.tallied halert htally)).join hc hfree (fun _ => rfl)
      (fun _ => rfl) fun f hf hid => ?_
    rw [hunclaimed.only f hf hid]
    exact htext

end Shape

/-! ## What there is of a text -/

/-- Of no text there is more than one load that may be joined, or one and a kept result. -/
structure Exclusive (queries : ReadThrough Text Outcome) : Prop where
  unique : ∀ f ∈ queries.flights, ∀ g ∈ queries.flights, f.attached = true → g.attached = true →
    f.key = g.key → f.id = g.id
  absent : ∀ f ∈ queries.flights, f.attached = true → ∀ outcome,
    ¬ queries.store.Holds f.key outcome

namespace Exclusive

theorem subsides (h : Exclusive queries) (hs : queries.Subsides queries') :
    Exclusive queries' where
  unique := by
    intro f hf g hg hfa hga hkey
    obtain ⟨f', hf', hfa', hfid, hfkey⟩ := hs.flights f hf hfa
    obtain ⟨g', hg', hga', hgid, hgkey⟩ := hs.flights g hg hga
    rw [← hfid, ← hgid]
    exact h.unique f' hf' g' hg' hfa' hga' (hfkey.trans (hkey.trans hgkey.symm))
  absent := by
    intro f hf hfa outcome hholds
    obtain ⟨f', hf', hfa', -, hkey⟩ := hs.flights f hf hfa
    rw [← hkey] at hholds
    exact h.absent f' hf' hfa' outcome (hs.holds _ _ hholds)

theorem starts (h : Exclusive queries) (hs : queries.Starts queries' text) :
    Exclusive queries' := by
  obtain ⟨ttl, hflights⟩ := hs.flights
  constructor
  · intro f hf g hg hfa hga hkey
    rw [hflights] at hf hg
    obtain hfold | hfnew := List.mem_append.mp hf <;> obtain hgold | hgnew := List.mem_append.mp hg
    · exact h.unique f hfold g hgold hfa hga hkey
    · obtain rfl := List.mem_singleton.mp hgnew
      exact absurd hkey (hs.other f hfold hfa)
    · obtain rfl := List.mem_singleton.mp hfnew
      exact absurd hkey.symm (hs.other g hgold hga)
    · obtain rfl := List.mem_singleton.mp hfnew
      obtain rfl := List.mem_singleton.mp hgnew
      rfl
  · intro f hf hfa outcome hholds
    obtain ⟨hheld, hne⟩ := hs.holds _ _ hholds
    rw [hflights] at hf
    obtain hold | hnew := List.mem_append.mp hf
    · exact h.absent f hold hfa outcome hheld
    · obtain rfl := List.mem_singleton.mp hnew
      exact hne rfl

theorem settle (h : Exclusive queries) (value : Option Outcome) (now : Time) :
    Exclusive (queries.settle load value now) where
  unique := by
    intro f hf g hg
    exact h.unique f (ReadThrough.mem_settle_flights.mp hf).1 g
      (ReadThrough.mem_settle_flights.mp hg).1
  absent := by
    intro f hf hfa outcome hholds
    obtain ⟨hmem, hother⟩ := ReadThrough.mem_settle_flights.mp hf
    obtain ⟨-, g, hg, hid, hkey, hga⟩ | hheld := ReadThrough.holds_settle hholds
    · -- the load that ends was the only one of its text
      exact hother ((h.unique f hmem g hg hfa hga hkey.symm).trans hid)
    · exact h.absent f hmem hfa outcome hheld

end Exclusive

theorem Shape.exclusive (h : Shape store s event s') (hexclusive : Exclusive s.queries) :
    Exclusive s'.queries := by
  cases h with
  | aborting h => exact hexclusive.subsides h.queries
  | quiet _ hqueries => exact hexclusive.subsides hqueries
  | settles _ _ _ hqueries =>
    rw [hqueries]
    exact hexclusive.settle _ _
  | @opens _ _ middle last _ h =>
    rw [h.joins, join_queries]
    exact (hexclusive.starts h.starts).subsides h.aborting.queries

/-- Nothing of a text comes up unless it is called. -/
theorem Shape.not_has (h : Shape store s event s') (hnot : ¬ Has s.queries text)
    (hother : ∀ signal, event ≠ .call text signal) : ¬ Has s'.queries text := by
  intro hhas
  cases h with
  | aborting h => exact hnot (hhas.of_subsides h.queries)
  | quiet _ hqueries => exact hnot (hhas.of_subsides hqueries)
  | settles _ _ _ hqueries =>
    rw [hqueries] at hhas
    exact hnot hhas.of_settle
  | @opens text' _ middle last hcall h =>
    rw [h.joins, join_queries] at hhas
    obtain ⟨ttl, hflights⟩ := h.starts.flights
    -- what comes up by a load that starts is its own text, which was called
    obtain ⟨outcome, hholds⟩ | ⟨f, hf, hattached, hkey⟩ := hhas.of_subsides h.aborting.queries
    · exact hnot (.inl ⟨outcome, (h.starts.holds _ _ hholds).1⟩)
    · rw [hflights] at hf
      obtain hold | hnew := List.mem_append.mp hf
      · exact hnot (.inr ⟨f, hold, hattached, hkey⟩)
      · obtain rfl := List.mem_singleton.mp hnew
        obtain rfl : text' = text := hkey
        exact hother _ hcall

/-! ## Runs -/

/-- Everybody who waits is seen to, each load counts the calls that have it, and there is at most
one load or result of a text for further callers. -/
structure Tidy (store : Store) (s : State) : Prop where
  alert : Alert store s s.Pending
  tally : Tally s.queries s.calls
  exclusive : Exclusive s.queries

namespace Tidy

theorem shape (hon : cfg.disabled = false) (h : Tidy store s) (event : Event) :
    Shape store s event (step cfg store s event) :=
  step_shape hon h.alert event

/-- Every event keeps an engine tidy. -/
theorem step (hon : cfg.disabled = false) (h : Tidy store s)
    (event : Event) : Tidy store (step cfg store s event) where
  alert := h.alert.step hon event
  tally := (h.shape hon event).tally h.alert h.tally
  exclusive := (h.shape hon event).exclusive h.exclusive

/-- What every event keeps, whichever kind it is of, a run keeps. -/
theorem run_keeps {P : State → Prop} (hon : cfg.disabled = false)
    (h : Tidy store s) (hP : P s)
    (hstep : ∀ s event s', Tidy store s → Shape store s event s' → P s → P s')
    (events : List Event) :
    P (run cfg store s events) := by
  induction events generalizing s with
  | nil => exact hP
  | cons event rest ih => exact ih (h.step hon event) (hstep s event _ h (h.shape hon event) hP)

theorem run (hon : cfg.disabled = false) (h : Tidy store s)
    (events : List Event) : Tidy store (run cfg store s events) := by
  induction events generalizing s with
  | nil => exact h
  | cons event rest ih => exact ih (h.step hon event)

end Tidy

/-- An engine that shares its loads is tidy in every state that it gets into. -/
theorem Reachable.tidy (hon : cfg.disabled = false)
    (h : Reachable cfg store s) : Tidy store s := by
  obtain ⟨now, ttl, interval, ttl', interval', events, rfl⟩ := h
  apply Tidy.run hon
  exact
    { alert := alert_new now ttl interval ttl' interval'
      tally := ⟨List.nodup_nil, fun _ hf => (nomatch hf), fun _ hf => (nomatch hf)⟩
      exclusive := ⟨fun _ hf => (nomatch hf), fun _ hf => (nomatch hf)⟩ }

end Engine

end IssueQuery
