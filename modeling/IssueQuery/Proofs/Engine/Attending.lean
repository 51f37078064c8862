import IssueQuery.Proofs.Engine.Attentive

/-!
# Aborts and jobs keep an engine attentive

Signals may abort at any time, also while the store is asked. A call that is turned away has its
result; and its load is called off only if no other call waits for it, which the counters tell.

* `Alert`            attentive, with the right counters;
* `Alert.meanwhile`  whatever happens while the store is asked;
* `Alert.perform`    every job;
* `Alert.tick`       a turn.
-/

namespace IssueQuery.Engine

variable {s s' : State} {l : Load} {c : Call} {J : Job → Prop} {job : Job} {i id g : Nat}
  {signal reason : Text} {outcome : Except LoadFailure Outcome} {graph : Except LoadFailure Graph}
  {store : Store} {cfg : Settings}

theorem Call.load_of_isWaiting {load : Nat} (hwaits : c.isWaiting load = true) :
    c.load = some load := by
  simp only [Call.isWaiting, Bool.and_eq_true, beq_iff_eq] at hwaits
  exact hwaits.1

/-- An engine that sees to everybody and knows which callers are the last ones. -/
structure Alert (store : Store) (s : State) (J : Job → Prop) : Prop where
  attentive : Attentive store s J
  counted : Counted s.queries s.calls

namespace Attentive

/-- A load keeps its number, so the one that is found is the one that is there. -/
theorem eq_of_id (h : Attentive store s J) {l' : Load} (hl : l ∈ s.loads) (hl' : l' ∈ s.loads)
    (hid : l'.id = l.id) : l' = l :=
  List.inj_on_of_nodup_map h.distinct hl' hl hid

/-! ## Aborts -/

/-- A load is called off that no call waits for and that nobody can join. -/
theorem callOff (h : Attentive store s J) (hl : l ∈ s.loads)
    (hnobody : ∀ (i : Nat) (c : Call), s.calls[i]? = some c → c.settled = none →
      c.load ≠ some l.id)
    (hdetached : ∀ f ∈ s.queries.flights, f.id = l.id → f.attached = false) :
    Attentive store (s.callOff l.id signal reason) J := by
  have horderly := h.loads l hl
  -- whichever graph the load waited for, the load itself changes in the same way
  have hoff : ∀ waiters : List (Nat × Nat), (∀ w ∈ s.graphWaiters, w.2 ≠ l.id → w ∈ waiters) →
      Attentive store { s.modifyLoad l.id fun l => { l with
        control := .shared (some (signal, reason)), graphLoad := none } with
        graphWaiters := waiters } J := by
    intro waiters hwaiters
    apply h.modifyLoad hl waiters rfl
    · exact ⟨horderly.below, ⟨_, rfl⟩, fun _ _ hon => (nomatch hon), horderly.subscribers⟩
    · exact List.Subset.refl _
    · exact fun hended => hended
    · exact fun hon => nomatch hon
    · rintro ⟨i, c, hc, hunsettled, hload⟩
      exact absurd hload (hnobody i c hc hunsettled)
    · intro f hf hid
      obtain ⟨l', hl', hid', hunended, -⟩ := h.flights f hf
      obtain rfl := h.eq_of_id hl hl' (hid'.trans hid)
      refine ⟨hunended, fun hattached => ?_⟩
      rw [hdetached f hf hid] at hattached
      exact nomatch hattached
    · exact fun _ _ hunended => .inr hunended
    · exact fun hon => nomatch hon
    · exact hwaiters
  obtain ⟨graphs, waiters, hcallOff, hgraphs, -, hwaiters⟩ := callOff_eq s l.id signal reason
  rw [hcallOff]
  obtain rfl | ⟨g, rfl⟩ := hgraphs
  · exact hoff waiters hwaiters
  · -- the load also leaves the graph, which does not keep others from it
    apply (hoff waiters hwaiters).setGraphs (s.graphs.leave g).2
    intro f hf hattached
    obtain ⟨f', hf', hid, -, hattached', -⟩ := ReadThrough.exists_of_mem_leave hf
    rw [← hid]
    exact h.underWay f' hf' (hattached' hattached)

/-- A call is turned away from the load that it waits for. -/
theorem turnAway (h : Attentive store s J) (hcounted : Counted s.queries s.calls)
    (hc : s.calls[i]? = some c) {load : Nat} (hwaits : c.isWaiting load = true) :
    Attentive store (s.turnAway signal reason i) J := by
  have hload := Call.load_of_isWaiting hwaits
  obtain ⟨l, hl, rfl, -⟩ := (h.calls i c hc).loaded load hload
  have hleft : Attentive store { s with queries := (s.queries.leave l.id).2 } J := by
    apply h.setQueries
    · exact Nat.le_of_eq ReadThrough.leave_started.symm
    · intro f hf
      obtain ⟨f', hf', hid, -, hattached, -⟩ := ReadThrough.exists_of_mem_leave hf
      obtain ⟨l', hl', hid', hunended, hon⟩ := h.flights f' hf'
      exact ⟨l', hl', hid'.trans hid, hunended, fun hattached' => hon (hattached hattached')⟩
  have hsettled : Attentive store (s.departed i l.id reason) J := hleft.settleCall i _
  rw [turnAway_of_load signal reason hc hload]
  by_cases hlast : (s.queries.leave l.id).1 = true
  · rw [if_pos hlast]
    have hone : waiting s.calls l.id ≤ 1 := hcounted.of_isLast hlast
    refine hsettled.callOff hl ?_ fun f hf hid => ReadThrough.not_attached_of_isLast hlast hf hid
    -- a second call that waits would not be covered by the counters
    intro j c' hc' hunsettled hload'
    obtain ⟨c₀, hc₀, ⟨-, rfl⟩ | ⟨hother, rfl⟩⟩ := getElem?_modify_cases hc'
    · cases hunsettled
    · have htwo : 2 ≤ waiting s.calls l.id := by
        apply two_le_waiting hc hc₀ hother.symm hwaits
        have hload₀ : c'.load = some l.id := hload'
        simp [Call.isWaiting, hload₀, hunsettled]
      omega
  · rw [if_neg hlast]
    exact hsettled

end Attentive

namespace Alert

/-- Calls are turned away one after the other. -/
theorem foldl_turnAway (signal reason : Text) {leaving : List Nat} (h : Alert store s J)
    (hdistinct : leaving.Nodup)
    (hleaving : ∀ i ∈ leaving, ∃ c load, s.calls[i]? = some c ∧ c.isWaiting load = true) :
    Alert store (leaving.foldl (fun s i => s.turnAway signal reason i) s) J := by
  induction leaving generalizing s with
  | nil => exact h
  | cons i rest ih =>
    obtain ⟨c, load, hc, hwaits⟩ := hleaving i List.mem_cons_self
    obtain ⟨hqueries, hcalls⟩ := turnAway_left signal reason hc (Call.load_of_isWaiting hwaits)
    have hnext : Alert store (s.turnAway signal reason i) J :=
      { attentive := h.attentive.turnAway h.counted hc hwaits
        counted := by
          rw [hqueries, hcalls]
          exact h.counted.leave hc hwaits rfl }
    obtain ⟨hnew, hrest⟩ := List.nodup_cons.mp hdistinct
    apply ih hnext hrest
    intro j hj
    obtain ⟨c', load', hc', hwaits'⟩ := hleaving j (List.mem_cons_of_mem i hj)
    have hne : i ≠ j := fun hsame => hnew (hsame ▸ hj)
    refine ⟨c', load', ?_, hwaits'⟩
    rw [hcalls, List.getElem?_modify, hc']
    exact congrArg some (if_neg hne)

/-- A signal aborts. -/
theorem abort (h : Alert store s J) (signal reason : Text) :
    Alert store (s.abort signal reason) J := by
  by_cases hquiet : s.reason? (some signal) = none
  · rw [abort_eq hquiet]
    have hsignaled : Alert store { s with signals := s.signals ++ [(signal, reason)] } J :=
      ⟨h.attentive.signal signal reason, h.counted⟩
    apply hsignaled.foldl_turnAway signal reason (List.nodup_range.filter _)
    -- whoever listens has a load and has not got its result
    intro i hi
    obtain ⟨c, hc, hlistens, -⟩ := mem_leaving.mp hi
    obtain ⟨hunsettled, hsome⟩ := (h.attentive.calls i c hc).listens hlistens
    obtain ⟨load, hload⟩ := Option.isSome_iff_exists.mp hsome
    exact ⟨c, load, hc, by simp [Call.isWaiting, hload, hunsettled]⟩
  · rw [abort_again hquiet]
    exact h

/-- Whatever happens while the store is asked. -/
theorem meanwhile (h : Alert store s J) (hmeanwhile : Meanwhile s s') : Alert store s' J := by
  induction hmeanwhile with
  | refl => exact h
  | notes _ journal asked lines ih =>
    exact ⟨ih.attentive.notes rfl rfl rfl rfl rfl rfl rfl, ih.counted⟩
  | advance _ span ih =>
    exact ⟨ih.attentive.notes rfl rfl rfl rfl rfl rfl rfl, ih.counted.frame (frame_advance _ span)⟩
  | abort _ signal reason ih => exact ih.abort signal reason

end Alert

namespace Attentive

/-! ## Calls are told -/

/-- Nobody depends on the job that finishes a call which has its result. -/
theorem doneFinish (h : Attentive store s fun j => j = .finish i outcome ∨ J j)
    (hsettled : ∀ c, s.calls[i]? = some c → c.settled ≠ none) : Attentive store s J := by
  apply h.doneServing rfl
  rintro _ c hc hunsettled rfl
  exact absurd hunsettled (hsettled c hc)

/-- The job that finishes a call is done with the call's result. -/
theorem settleFinish (h : Attentive store s fun j => j = .finish i outcome ∨ J j)
    (result : Except Rejection Result) : Attentive store (s.settleCall i result) J := by
  apply (h.settleCall i result).doneFinish
  intro c hc
  rw [State.settleCall, State.modifyCall, List.getElem?_modify] at hc
  obtain ⟨c₀, -, rfl⟩ := Option.map_eq_some_iff.mp hc
  rw [if_pos rfl]
  exact Option.some_ne_none _

/-- The clock, the log and the like do not matter. -/
theorem frame (h : Attentive store s J) (hframe : Frame s s') : Attentive store s' J :=
  h.notes hframe.loads hframe.calls hframe.graphWaiters hframe.signals hframe.queriesStarted
    hframe.queryFlights hframe.graphFlights

theorem finish (h : Attentive store s fun j => j = .finish i outcome ∨ J j)
    (hs : Performed cfg store s (.finish i outcome) s') : Attentive store s' J := by
  cases hs with
  | finishedLate _ hsettled => exact h.doneFinish hsettled
  | @finished _ c => exact (h.settleFinish (resultOf s c outcome)).frame (frame_finishWith ..)

/-- A job under way is put on the agenda. -/
theorem scheduleLast (h : Attentive store s fun j => j = job ∨ s.Pending j) (turns : Nat) :
    Attentive store (s.schedule turns job) (s.schedule turns job).Pending := by
  have hamong : Attentive store s fun j => j = job ∨ False ∨ s.Pending j :=
    h.congr fun j => by rw [false_or]
  exact (Attentive.schedule (J := fun _ => False) hamong turns).congr fun j =>
    (false_or _).symm.to_iff

/-- Jobs that were announced are put on the agenda. -/
theorem scheduleAll {items : List (Nat × Job)}
    (h : Attentive store s fun j => (∃ p ∈ items, p.2 = j) ∨ s.Pending j) :
    Attentive store { s with agenda := s.agenda ++ items }
      ({ s with agenda := s.agenda ++ items } : State).Pending := by
  have hnoted : Attentive store { s with agenda := s.agenda ++ items } _ :=
    h.notes rfl rfl rfl rfl rfl rfl rfl
  exact hnoted.congr fun _ => pending_append items

theorem deliver (h : Attentive store s fun j => j = .deliver i outcome ∨ s.Pending j)
    (hs : Performed cfg store s (.deliver i outcome) s') : Attentive store s' s'.Pending := by
  obtain ⟨c, hc, hok, l, hl, hload, hended⟩ := h.jobs _ (.inl rfl)
  cases hs with
  | deliveredLate _ hc₀ hsettled =>
    apply h.doneServing rfl
    rintro _ c' hc' hunsettled rfl
    obtain rfl := Option.some.inj (hc₀.symm.trans hc')
    cases hsettled.symm.trans hunsettled
  | delivered =>
    -- the load has ended, so the call need not listen any more
    have hdeaf : Attentive store (s.modifyCall i fun c => { c with listening := false })
        fun j => j = .deliver i outcome ∨ s.Pending j := by
      apply h.modifyCall
      intro c' hc'
      obtain rfl := Option.some.inj (hc.symm.trans hc')
      refine ⟨⟨rfl, rfl, fun _ => id, id⟩, (h.calls i c hc).loaded, fun hlistens => ?_,
        fun id hid _ _ _ => .inr ⟨l, hl, ?_, hended⟩⟩
      · cases hlistens
      · exact Option.some.inj (hload.symm.trans hid)
    have hnext := hdeaf.replace (.finish i outcome) ⟨{ c with listening := false }, by
      rw [State.modifyCall, List.getElem?_modify, hc]
      exact congrArg some (if_pos rfl), hok⟩ (fun _ hbrings => hbrings)
      (fun _ _ hfurthers => hfurthers) rfl
    exact hnext.scheduleLast 1

/-- A call that has not got its result may be told what its load gave. -/
theorem succeeds_of_load (h : Attentive store s J) (hc : s.calls[i]? = some c) (hl : l ∈ s.loads)
    (hload : c.load = some l.id) (hok : l.control = .shared none → Succeeds store outcome)
    (hunsettled : c.settled = none) : Succeeds store outcome := by
  obtain ⟨l', hl', hid, hon⟩ := (h.calls i c hc).loaded l.id hload
  obtain rfl := h.eq_of_id hl hl' hid
  exact hok (hon hunsettled)

theorem subscribe (h : Attentive store s fun j => j = .subscribe i ∨ s.Pending j)
    (hs : Performed cfg store s (.subscribe i) s') : Attentive store s' s'.Pending := by
  cases hs with
  | unserved hnone =>
    -- the call has a load, which has not gone
    obtain ⟨c, hc, hsome⟩ := h.jobs _ (.inl rfl)
    obtain ⟨id, hid⟩ := Option.isSome_iff_exists.mp hsome
    obtain ⟨l, hl, rfl, -⟩ := (h.calls i c hc).loaded id hid
    rw [hc, Option.bind_some, hid, Option.bind_some, load?_eq_some h.distinct hl] at hnone
    cases hnone
  | @toldLate _ c l outcome hc hid hl hended =>
    have hnext := h.replace (.finish i outcome)
      ⟨c, hc, h.succeeds_of_load hc hl hid ((h.loads l hl).ended outcome hended)⟩
      (fun _ hbrings => hbrings) (fun _ _ hfurthers => hfurthers) rfl
    exact hnext.scheduleLast 1
  | subscribed hc hid hl hended =>
    -- the load itself will tell the call
    apply (h.addSubscriber hl hc hid).doneServing rfl
    rintro _ _ _ _ rfl
    exact .inr (Faithful.told_addSubscriber hl hended)

/-! ## Loads end -/

theorem notice_brings (s s' : State) : (notice s outcome i).2.Brings s' i := by
  unfold notice
  split <;> rfl

/-- A load has ended, and the calls that it is to tell are told. -/
theorem endLoad (h : Attentive store s fun j => j = .settle l.id outcome ∨ J j) (hl : l ∈ s.loads)
    (hdetached : ∀ f ∈ s.queries.flights, f.id ≠ l.id) :
    let s' := s.modifyLoad l.id fun l => { l with ended := some outcome }
    Attentive store s' fun j => (∃ p ∈ l.subscribers.map (notice s outcome), p.2 = j) ∨ J j := by
  obtain ⟨l', hl', hid', hok⟩ := h.jobs _ (.inl rfl)
  obtain rfl := h.eq_of_id hl hl' hid'
  have horderly := h.loads l' hl
  -- the job in hand still stands for the calls that the load was to tell
  have hended : Attentive store (s.modifyLoad l'.id fun l => { l with ended := some outcome })
      fun j => j = .settle l'.id outcome ∨ J j := by
    apply h.modifyLoad hl s.graphWaiters rfl
    · refine ⟨horderly.below, horderly.shared, ?_, horderly.subscribers⟩
      intro outcome' houtcome hon
      obtain rfl : outcome = outcome' := Option.some.inj houtcome
      exact hok hon
    · exact List.Subset.refl _
    · exact fun _ => rfl
    · exact fun hon => hon
    · exact fun _ => rfl
    · exact fun f hf hid => absurd hid (hdetached f hf)
    · exact fun i hi _ => .inl ⟨_, .inl rfl, l', hl, rfl, hi⟩
    · exact fun _ hnone => nomatch hnone
    · exact fun w hw _ => hw
  have hmem : { l' with ended := some outcome } ∈
      (s.modifyLoad l'.id fun l => { l with ended := some outcome }).loads :=
    List.mem_map.mpr ⟨l', hl, if_pos rfl⟩
  have hnotices : ∀ i ∈ l'.subscribers, (notice s outcome i).2.Orderly store
      (s.modifyLoad l'.id fun l => { l with ended := some outcome }) := by
    intro i hi
    obtain ⟨c, hc, hload⟩ := horderly.subscribers i hi
    have hright := h.succeeds_of_load hc hl hload hok
    unfold notice
    split
    · exact ⟨c, hc, hright, _, hmem, hload, rfl⟩
    · exact ⟨c, hc, hright⟩
  have hannounced := hended.announce
    (fun j => ∃ p ∈ l'.subscribers.map (notice s outcome), p.2 = j) <| by
    rintro _ ⟨_, hp, rfl⟩
    obtain ⟨i, hi, rfl⟩ := List.mem_map.mp hp
    exact hnotices i hi
  apply hannounced.done
  · rintro i c - - ⟨l₀, hl₀, hid₀, hi⟩
    obtain rfl := hannounced.eq_of_id hmem hl₀ hid₀
    exact .inl ⟨_, .inl ⟨_, List.mem_map_of_mem hi, rfl⟩, notice_brings _ _⟩
  · intro l₀ hl₀ _ hunended hid
    obtain rfl := hannounced.eq_of_id hmem hl₀ (Eq.symm hid)
    exact nomatch hunended
  · exact fun _ _ _ _ hsame => nomatch hsame

theorem settle (h : Attentive store s fun j => j = .settle id outcome ∨ s.Pending j)
    (hs : Performed cfg store s (.settle id outcome) s') : Attentive store s' s'.Pending := by
  obtain ⟨l, hl, rfl, -⟩ := h.jobs _ (.inl rfl)
  have hkept : Attentive store { s with queries := s.queries.settle l.id outcome.toOption s.now }
      fun j => j = .settle l.id outcome ∨ s.Pending j := by
    apply h.setQueries
    · exact Nat.le_of_eq ReadThrough.settle_started.symm
    · exact fun f hf => h.flights f (ReadThrough.mem_settle_flights.mp hf).1
  have hended := hkept.endLoad hl fun _ hf => (ReadThrough.mem_settle_flights.mp hf).2
  cases hs with
  | settled =>
    rw [load?_eq_some h.distinct hl]
    exact hended.scheduleAll

/-! ## The graph -/

theorem settleGraph (h : Attentive store s fun j => j = .settleGraph g graph ∨ s.Pending j)
    (hs : Performed cfg store s (.settleGraph g graph) s') : Attentive store s' s'.Pending := by
  have hok : Succeeds store graph := h.jobs _ (.inl rfl)
  let told := s.graphWaiters.filter fun w => w.1 == g
  let items := told.map fun w => (0, Job.deliverGraph w.2 graph)
  have hannounced := h.announce (fun j => ∃ p ∈ items, p.2 = j) <| by
    rintro _ ⟨_, hp, rfl⟩
    obtain ⟨w, -, rfl⟩ := List.mem_map.mp hp
    exact hok
  have hkept : Attentive store { s with graphs := s.graphs.settle g graph.toOption s.now }
      fun j => j = .settleGraph g graph ∨ (∃ p ∈ items, p.2 = j) ∨ s.Pending j := by
    apply hannounced.setGraphs
    exact fun f hf => hannounced.underWay f (ReadThrough.mem_settle_flights.mp hf).1
  have hdone : Attentive store { s with graphs := s.graphs.settle g graph.toOption s.now }
      fun j => (∃ p ∈ items, p.2 = j) ∨ s.Pending j := by
    apply hkept.done
    · exact fun _ _ _ _ hbrings => False.elim hbrings
    · -- a load that waited for this graph is told by a job of its own
      rintro l - - - ⟨hload, hwaits⟩
      have hmem : (g, l.id) ∈ told := List.mem_filter.mpr ⟨hwaits, beq_self_eq_true g⟩
      exact ⟨_, .inl ⟨_, List.mem_map_of_mem hmem, rfl⟩, rfl, by rw [hload]; rfl⟩
    · intro f hf _ graph' hsame
      have hother : f.id ≠ g := (ReadThrough.mem_settle_flights.mp hf).2
      exact absurd (Job.settleGraph.inj hsame).1.symm hother
  cases hs with
  | settledGraph => exact hdone.scheduleAll

theorem deliverGraph (h : Attentive store s fun j => j = .deliverGraph id graph ∨ s.Pending j)
    (hs : Performed cfg store s (.deliverGraph id graph) s') : Attentive store s' s'.Pending := by
  have hok : Succeeds store graph := h.jobs _ (.inl rfl)
  cases hs with
  | @deliveredGraph _ _ l _ hfound =>
    obtain ⟨hl, rfl⟩ := mem_of_load? hfound
    -- the load goes on before it stops waiting, so that it is furthered all the time
    have hnext := h.replace (.resume l.id graph) ⟨l, hl, rfl, fun _ => hok⟩
      (fun _ hbrings => hbrings) (fun _ _ hfurthers => hfurthers.1) rfl
    have hfree : Attentive store
        { s.modifyLoad l.id fun l => { l with graphLoad := none } with
          graphWaiters := s.graphWaiters.filter fun w => w.2 != l.id }
        fun j => j = .resume l.id graph ∨ s.Pending j := by
      apply hnext.adjustLoad hl _ rfl rfl rfl
      · exact List.Subset.refl _
      · exact fun i hi => .inl hi
      · exact fun _ _ => ⟨_, .inl rfl, rfl⟩
      · intro w hw hother
        exact List.mem_filter.mpr ⟨hw, by simpa using hother⟩
    exact hfree.scheduleLast 1
  | unawaited _ hnone =>
    apply h.done
    · exact fun _ _ _ _ hbrings => False.elim hbrings
    · -- the load that is to be told does not wait any more
      rintro l hl - - ⟨rfl, hwaits⟩
      rw [load?_eq_some h.distinct hl, Option.bind_some] at hnone
      rw [hnone] at hwaits
      cases hwaits
    · exact fun _ _ _ _ hsame => nomatch hsame

/-- The load that a job goes on with ends. -/
theorem conclude (h : Attentive store s fun j => j = .resume l.id graph ∨ s.Pending j)
    (hl : l ∈ s.loads)
    (hok : l.control = .shared none → Succeeds store outcome) {l' : Load} (hid : l'.id = l.id)
    (hshared : ∃ aborted, l'.control = .shared aborted) :
    Attentive store (conclude s l' outcome) (conclude s l' outcome).Pending := by
  obtain ⟨aborted, hcontrol⟩ := hshared
  have hnext := h.replace (.settle l.id outcome) ⟨l, hl, rfl, hok⟩
    (fun _ hbrings => False.elim hbrings) (fun _ _ hfurthers => hfurthers) rfl
  unfold Engine.conclude
  rw [hcontrol, hid]
  exact hnext.scheduleLast 1

/-- A load that is there and on was not called off. -/
theorem calledOff?_eq_none (h : Attentive store s J) (hl : l ∈ s.loads)
    (hon : l.control = .shared none) :
    s.calledOff? l.id = none := by
  unfold State.calledOff?
  rw [load?_eq_some h.distinct hl]
  simp only [hon]

end Attentive

namespace Alert

/-- A load that goes on ends, whether or not it was called off while the store was asked. -/
theorem resume (h : Alert store s fun j => j = .resume id graph ∨ s.Pending j)
    (hs : Performed cfg store s (.resume id graph) s') : Alert store s' s'.Pending := by
  obtain ⟨l, hl, rfl, hok⟩ := h.attentive.jobs _ (.inl rfl)
  have hshared := (h.attentive.loads l hl).shared
  have hconclude : ∀ s' outcome,
      Attentive store (conclude s' l outcome) (conclude s' l outcome).Pending →
      Counted s'.queries s'.calls →
      Alert store (conclude s' l outcome) (conclude s' l outcome).Pending := by
    intro s' outcome hattentive hcounted
    obtain ⟨turns, hconclude⟩ := conclude_eq s' l outcome
    refine ⟨hattentive, ?_⟩
    rw [hconclude]
    exact hcounted
  have hfound := load?_eq_some h.attentive.distinct hl
  cases hs with
  | unknown _ hnone => cases hnone.symm.trans hfound
  | graphless e hfound' =>
    obtain rfl := Option.some.inj (hfound.symm.trans hfound')
    exact hconclude _ _ (h.attentive.conclude hl hok rfl hshared) h.counted
  | plain graph hfound' =>
    obtain rfl := Option.some.inj (hfound.symm.trans hfound')
    exact hconclude _ _ (h.attentive.conclude hl (fun _ => succeeds_ok store _) rfl hshared)
      h.counted
  | @expanded _ _ e found hfound' =>
    -- the issues that the expansion finds are asked for
    obtain rfl := Option.some.inj (hfound.symm.trans hfound')
    have hproceeds : Proceeds store l.id (expand cfg store l.id l.base e found) :=
      proceeds_expand cfg l.base e found
    obtain ⟨hmeanwhile, houtcome⟩ := hproceeds s
    generalize expand cfg store l.id l.base e found s = asked at hmeanwhile houtcome ⊢
    have hasked := h.meanwhile hmeanwhile
    rw [← pending_congr hmeanwhile.agenda] at hasked
    apply hconclude _ _ _ hasked.counted
    obtain ⟨l', hl', hid, -⟩ := hasked.attentive.jobs _ (.inl rfl)
    have hgoes := hasked.attentive
    rw [← hid] at hgoes houtcome
    refine hgoes.conclude hl' (fun hon hstore => ?_) hid.symm hshared
    exact houtcome hstore (hgoes.calledOff?_eq_none hl' hon)

/-! ## Turns -/

/-- Every job keeps an engine alert. -/
theorem perform (h : Alert store s fun j => j = job ∨ s.Pending j)
    (hs : Performed cfg store s job s') : Alert store s' s'.Pending := by
  have hcounted (hidle : ∀ id graph, job ≠ .resume id graph) : Counted s'.queries s'.calls :=
    h.counted.effect (hs.effect_of_idle hidle)
  cases job with
  | subscribe call => exact ⟨h.attentive.subscribe hs, hcounted nofun⟩
  | settle id outcome => exact ⟨h.attentive.settle hs, hcounted nofun⟩
  | settleGraph g graph => exact ⟨h.attentive.settleGraph hs, hcounted nofun⟩
  | deliverGraph id graph => exact ⟨h.attentive.deliverGraph hs, hcounted nofun⟩
  | resume id graph => exact h.resume hs
  | deliver call outcome => exact ⟨h.attentive.deliver hs, hcounted nofun⟩
  | finish call outcome =>
    refine ⟨?_, hcounted nofun⟩
    rw [pending_congr hs.agenda_of_finish]
    exact h.attentive.finish hs

/-- A turn keeps an engine alert. -/
theorem tick (h : Alert store s s.Pending) (hs : Ticked cfg store s s') :
    Alert store s' s'.Pending := by
  have hnoted (agenda : List (Nat × Job)) : Attentive store { s with agenda := agenda } s.Pending :=
    h.attentive.notes rfl rfl rfl rfl rfl rfl rfl
  cases hs with
  | idle => exact h
  | @due job rest _ hagenda hs =>
    -- the first job is done: it leaves the agenda, but still counts
    have hrest : Alert store { s with agenda := rest }
        fun j => j = job ∨ State.Pending { s with agenda := rest } j :=
      ⟨(hnoted rest).congr fun _ => (pending_iff hagenda).symm, h.counted⟩
    exact hrest.perform hs
  | putOff hagenda =>
    -- the first job is put off: the same jobs are under way
    rw [pending_putOff hagenda]
    exact ⟨hnoted _, h.counted⟩

end Alert

end IssueQuery.Engine
