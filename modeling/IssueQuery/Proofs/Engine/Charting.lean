import IssueQuery.Proofs.Engine.Charts

/-!
# How the charts are kept

Every primitive change keeps an engine in agreement with its charts, which grow where a load comes to
something. A load that ends, a call that gets its result and a graph that arrives only pass on what the
charts say already.

* `Charted.lulls`, `Charted.regrow`, `Charted.modifyLoad`, … one lemma for each kind of change;
* `Charted.settle`, `Charted.resume`, … one lemma for each job.
-/

namespace IssueQuery.Engine

variable {store : Store} {cfg : Settings} {m : Mark} {F F' : Charts} {s s' : State} {l l' : Load}
  {c c' : Call} {chart : Chart} {load i id g n : Nat} {outcome : Except LoadFailure Outcome}
  {graph : Except LoadFailure Graph}

theorem Load.Charted.lulls (h : l.Charted store F (¬ l.Wanted s)) (hl : l.Lulls l')
    (hs : s.Remembers s') : l'.Charted store F (¬ l'.Wanted s') := by
  have hoff : ¬ l.Wanted s → ¬ l'.Wanted s' := hl.wanted hs
  obtain rfl | ⟨cause, rfl⟩ := hl
  · exact { h with lawful := h.lawful.mono hoff }
  · exact
      { check := h.check
        lawful := h.lawful.mono hoff
        ended := h.ended
        subscribers := h.subscribers
        own := by simp }

theorem Call.Charted.weathers (h : c.Charted F (s.reason? c.signal = none) i)
    (hc : c.Weathers s' c') (hs : s.Remembers s') :
    c'.Charted F (s'.reason? c'.signal = none) i where
  joined := by
    rw [hc.load]
    exact h.joined
  settled := by
    intro hquiet result hresult load hload
    rw [hc.signal] at hquiet
    obtain hsame | ⟨reason, hreason, -⟩ := hc.settled
    · obtain ⟨outcome, htold, hgot⟩ :=
        h.settled (reason?_of_remembers hs hquiet) result (hsame ▸ hresult) load hload
      refine ⟨outcome, htold, ?_⟩
      rw [Call.Got, hc.text]
      exact hgot
    · rw [hc.signal, hquiet] at hreason
      exact nomatch hreason

namespace Charted

/-! ## Changes -/

theorem lulls (h : Charted store F s) (hs : Lulls s s') : Charted store F s' where
  loads := by
    obtain ⟨change, hchanged, hchange⟩ := hs.loads
    intro l' hl'
    rw [hchanged] at hl'
    obtain ⟨l, hl, rfl⟩ := List.mem_map.mp hl'
    exact (h.loads l hl).lulls (hchange l) hs.remembers
  calls := by
    intro i c' hc'
    obtain ⟨c, hc, hweathers⟩ := hs.calls i c' hc'
    exact (h.calls i c hc).weathers hweathers hs.remembers
  jobs := by
    rw [pending_congr hs.agenda]
    exact h.jobs
  isOver := fun load hover => (h.isOver load hover).subsides hs.queries
  waiters := fun w hw => h.waiters w (hs.graphWaiters w hw)
  underWay := by
    intro f hf hattached
    obtain ⟨f', hf', hattached', hid, -⟩ := hs.graphs.flights f hf hattached
    exact hid ▸ h.underWay f' hf' hattached'
  unstarted := hs.queries.started ▸ h.unstarted
  unasked := hs.graphs.started ▸ h.unasked
  asked := h.asked
  unmade := hs.callCount ▸ h.unmade

/-- More is known of loads and of the graph. -/
theorem regrow (h : Charted store F s) (hF : F.Grows F')
    (hserver : ∀ i, F'.server i = F.server i)
    (hlawful : ∀ l ∈ s.loads, Lawful store l.query l.base (¬ l.Wanted s) (F'.loads l.id))
    (hover : ∀ load, (F'.loads load).isOver = true → Detached s.queries load)
    (hunstarted : ∀ load, s.queries.started ≤ load → F'.loads load = .blank false)
    (graphs : ReadThrough Unit Graph)
    (hunderWay : ∀ f ∈ graphs.flights, f.attached = true → ∃ n, F'.graphs f.id = some n)
    (hunasked : ∀ g, graphs.started ≤ g → F'.graphs g = none)
    (hasked : ∀ g n, F'.graphs g = some n →
      F.graphs g = some n ∨ ∃ load, (.graph, n) ∈ (F'.loads load).made) :
    Charted store F' { s with graphs := graphs } where
  loads := by
    intro l hl
    have hcharted := h.loads l hl
    exact
      { check := hcharted.check
        lawful := hlawful l hl
        ended := fun outcome hended => (hcharted.ended outcome hended).grows hF
        subscribers := fun i hi => (hserver i).trans (hcharted.subscribers i hi)
        own := fun i signal hown => ⟨(hserver i).trans (hcharted.own i signal hown).1,
          (hF.loads l.id).isOver (hcharted.own i signal hown).2⟩ }
  calls := by
    intro i c hc
    have hcharted := h.calls i c hc
    refine ⟨fun load hload => (hserver i).trans (hcharted.joined load hload), ?_⟩
    -- what a call was told is what its load came to, which stays as charts grow
    intro hquiet result hresult load hload
    rw [hserver i] at hload
    obtain ⟨outcome, htold, hgot⟩ := hcharted.settled hquiet result hresult load hload
    exact ⟨outcome, htold.grows hF, hgot⟩
  jobs := fun j hj => (h.jobs j hj).grows hF fun i _ _ => hserver i
  isOver := hover
  waiters := by
    intro w hw
    obtain ⟨n, hn, hsource⟩ := h.waiters w hw
    exact ⟨n, hF.graphs _ n hn, (hF.loads w.2).source _ hsource⟩
  underWay := hunderWay
  unstarted := hunstarted
  unasked := hunasked
  asked := by
    intro g n hg
    obtain hold | hnew := hasked g n hg
    · obtain ⟨load, hmem⟩ := h.asked g n hold
      exact ⟨load, (hF.loads load).made.subset hmem⟩
    · exact hnew
  unmade := fun i hi => (hserver i).trans (h.unmade i hi)

/-- More is known of one load. -/
theorem setLoad (h : Charted store F s) (hstarted : load < s.queries.started)
    (hgrows : (F.loads load).Grows chart)
    (hlawful : ∀ l ∈ s.loads, l.id = load → Lawful store l.query l.base (¬ l.Wanted s) chart)
    (hover : chart.isOver = true → Detached s.queries load) :
    Charted store (F.setLoad load chart) s := by
  refine h.regrow (Charts.grows_setLoad hgrows) (fun _ => rfl) (fun l hl => ?_) (fun k hk => ?_)
    (fun k hk => ?_) s.graphs h.underWay h.unasked fun _ _ => .inl
  · by_cases hid : l.id = load
    · rw [hid, Charts.setLoad_self]
      exact hlawful l hl hid
    · rw [Charts.setLoad_of_ne F chart hid]
      exact (h.loads l hl).lawful
  · by_cases hload : k = load
    · subst hload
      rw [Charts.setLoad_self] at hk
      exact hover hk
    · rw [Charts.setLoad_of_ne F chart hload] at hk
      exact h.isOver k hk
  · have hne : k ≠ load := by omega
    rw [Charts.setLoad_of_ne F chart hne]
    exact h.unstarted k hk

/-- A load of the graph starts, and its statement is the one of a number, which a load has asked. -/
theorem startGraph (h : Charted store F s) {graphs : ReadThrough Unit Graph} {f : Flight Unit}
    (hid : f.id = s.graphs.started) (hflights : graphs.flights = s.graphs.flights ++ [f])
    (hstarted : graphs.started = s.graphs.started + 1)
    (hasked : (.graph, n) ∈ (F.loads load).made) :
    Charted store (F.setGraph s.graphs.started n) { s with graphs := graphs } := by
  have hF := Charts.grows_setGraph (h.unasked _ (Nat.le_refl _)) n
  refine h.regrow hF (fun _ => rfl) (fun l hl => (h.loads l hl).lawful) h.isOver h.unstarted graphs
    (fun f' hf' hattached => ?_) (fun k hk => ?_) fun g k hk => ?_
  · rw [hflights] at hf'
    obtain hold | hnew := List.mem_append.mp hf'
    · obtain ⟨k, hk⟩ := h.underWay f' hold hattached
      exact ⟨k, hF.graphs _ k hk⟩
    · obtain rfl := List.mem_singleton.mp hnew
      exact ⟨n, hid ▸ Charts.setGraph_self F _ n⟩
  · have hne : k ≠ s.graphs.started := by omega
    exact (if_neg hne).trans (h.unasked k (by omega))
  · by_cases hg : g = s.graphs.started
    · rw [hg, Charts.setGraph_self] at hk
      obtain rfl := Option.some.inj hk
      exact .inr ⟨load, hasked⟩
    · exact .inl ((if_neg hg).symm.trans hk)

/-- A call that has got nothing is to be served by a load. -/
theorem setServer (h : Charted store F s) (hi : i < s.calls.length) (hfree : F.server i = none)
    (hunsettled : ∀ c, s.calls[i]? = some c → c.settled = none)
    (hidle : ∀ outcome, ¬ s.Pending (.deliver i outcome) ∧ ¬ s.Pending (.finish i outcome))
    (load : Nat) : Charted store (F.setServer i load) s := by
  have hF := Charts.grows_setServer hfree load
  have hother {k : Nat} (hk : k ≠ i) : (F.setServer i load).server k = F.server k := if_neg hk
  exact
    { h with
      loads := by
        intro l hl
        have hcharted := h.loads l hl
        exact
          { hcharted with
            subscribers := fun k hk => hF.server k _ (hcharted.subscribers k hk)
            own := fun k signal hown => ⟨hF.server k _ (hcharted.own k signal hown).1,
              (hcharted.own k signal hown).2⟩ }
      calls := by
        intro k c hc
        have hcharted := h.calls k c hc
        refine ⟨fun load hload => hF.server k load (hcharted.joined load hload), ?_⟩
        intro hquiet result hresult load hload
        -- the call that is given a server has not been told anything
        by_cases hk : k = i
        · subst hk
          exact nomatch (hunsettled c hc).symm.trans hresult
        · rw [hother hk] at hload
          exact hcharted.settled hquiet result hresult load hload
      jobs := by
        intro j hj
        -- no job is about to tell it anything either
        refine (h.jobs j hj).grows hF fun k outcome hjob => hother ?_
        rintro rfl
        obtain rfl | rfl := hjob
        · exact (hidle outcome).1 hj
        · exact (hidle outcome).2 hj
      unmade := fun k hk => (hother (by omega)).trans (h.unmade k hk) }

theorem setAgenda (h : Charted store F s) (agenda : List (Nat × Job))
    (hjobs : ∀ p ∈ agenda, s.Pending p.2 ∨ p.2.Charted store F) :
    Charted store F { s with agenda := agenda } :=
  { h with
    jobs := by
      rintro j ⟨turns, hj⟩
      exact (hjobs _ hj).elim (h.jobs j) fun hcharted => hcharted }

theorem scheduleAll (h : Charted store F s) (items : List (Nat × Job))
    (hjobs : ∀ p ∈ items, p.2.Charted store F) :
    Charted store F { s with agenda := s.agenda ++ items } := by
  apply h.setAgenda
  intro p hp
  obtain hold | hnew := List.mem_append.mp hp
  · exact .inl ⟨p.1, hold⟩
  · exact .inr (hjobs p hnew)

theorem schedule (h : Charted store F s) (turns : Nat) (job : Job)
    (hjob : job.Charted store F) : Charted store F (s.schedule turns job) :=
  h.scheduleAll [(turns, job)] (List.forall_mem_singleton.mpr hjob)

theorem modifyLoad (h : Charted store F s) (id : Nat) {change : Load → Load}
    (hchange : ∀ l ∈ s.loads, l.id = id → (change l).Charted store F (¬ (change l).Wanted s)) :
    Charted store F (s.modifyLoad id change) :=
  { h with
    loads := by
      intro l' hl'
      obtain ⟨l, hl, rfl⟩ := List.mem_map.mp hl'
      split
      · exact hchange l hl ‹_›
      · exact h.loads l hl }

theorem modifyCall (h : Charted store F s) (i : Nat) {change : Call → Call}
    (hchange : ∀ c, s.calls[i]? = some c →
      (change c).Charted F (s.reason? (change c).signal = none) i) :
    Charted store F (s.modifyCall i change) :=
  { h with
    calls := by
      intro k c' hc'
      obtain ⟨c, hc, ⟨rfl, rfl⟩ | ⟨-, rfl⟩⟩ := getElem?_modify_cases hc'
      · exact hchange c hc
      · exact h.calls k c' hc
    unmade := fun k hk => h.unmade k (Nat.le_trans (Nat.le_of_eq (List.length_modify ..).symm) hk) }

theorem setGraphs (h : Charted store F s) (graphs : ReadThrough Unit Graph)
    (hflights : ∀ f ∈ graphs.flights, f.attached = true → ∃ n, F.graphs f.id = some n)
    (hunasked : ∀ g, graphs.started ≤ g → F.graphs g = none) (waiters : List (Nat × Nat))
    (hwaiters : ∀ w ∈ waiters, w ∈ s.graphWaiters ∨
      ∃ n, F.graphs w.1 = some n ∧ (F.loads w.2).source = some (graphOf store n)) :
    Charted store F { s with graphs := graphs, graphWaiters := waiters } :=
  { h with
    waiters := fun w hw => (hwaiters w hw).elim (h.waiters w) id
    underWay := hflights
    unasked := hunasked }

/-- Whether a load waits for the graph is not in the charts. -/
theorem setGraphLoad (h : Charted store F s) (id : Nat) (graphLoad : Option Nat) :
    Charted store F (s.modifyLoad id fun l => { l with graphLoad := graphLoad }) :=
  h.modifyLoad id fun l hl _ => ⟨(h.loads l hl).check, (h.loads l hl).lawful, (h.loads l hl).ended,
    (h.loads l hl).subscribers, (h.loads l hl).own⟩

/-- A load that is known of has started. -/
theorem started (h : Charted store F s) (hknown : F.loads load ≠ .blank false) :
    load < s.queries.started :=
  Nat.lt_of_not_le fun hle => hknown (h.unstarted load hle)

/-! ## Jobs -/

theorem subscribe (h : Charted store F s) (hs : Performed cfg store s (.subscribe i) s') :
    Charted store F s' := by
  cases hs with
  | unserved => exact h
  | @toldLate _ c l outcome hc hjoined hl hended =>
    refine h.schedule 1 _ fun load hload => ?_
    obtain rfl := Option.some.inj (((h.calls i c hc).joined l.id hjoined).symm.trans hload)
    exact (h.loads l hl).ended outcome hended
  | @subscribed _ c l hc hjoined hl =>
    refine h.modifyLoad l.id fun l' hl' hid' => ?_
    have hcharted := h.loads l' hl'
    refine { hcharted with subscribers := fun k hk => ?_ }
    obtain hold | hnew := List.mem_append.mp hk
    · exact hcharted.subscribers k hold
    · rw [List.mem_singleton.mp hnew, hid']
      exact (h.calls i c hc).joined l.id hjoined

theorem deliver (h : Charted store F s) (hjob : (Job.deliver i outcome).Charted store F)
    (hs : Performed cfg store s (.deliver i outcome) s') : Charted store F s' := by
  cases hs with
  | deliveredLate => exact h
  | delivered =>
    have hdeaf : Charted store F (s.modifyCall i fun c => { c with listening := false }) :=
      h.modifyCall i fun c hc => ⟨(h.calls i c hc).joined, (h.calls i c hc).settled⟩
    exact hdeaf.schedule 1 _ hjob

theorem finish (h : Charted store F s) (hjob : (Job.finish i outcome).Charted store F)
    (hs : Performed cfg store s (.finish i outcome) s') : Charted store F s' := by
  cases hs with
  | finishedLate => exact h
  | @finished _ c _ hc =>
    have hsettled : Charted store F (s.settleCall i (resultOf s c outcome)) := by
      refine h.modifyCall i fun c' hc' => ?_
      obtain rfl := Option.some.inj (hc.symm.trans hc')
      refine ⟨(h.calls i c hc).joined, fun hquiet result hresult load hload => ?_⟩
      obtain rfl := Option.some.inj hresult
      exact ⟨outcome, hjob load hload, resultOf_of_quiet hquiet⟩
    have hlogged := frame_finishWith cfg s i (resultOf s c outcome)
    refine hsettled.lulls (.of_frame hlogged ?_)
    unfold finishWith logResult
    split <;> rfl

theorem settle (h : Charted store F s) (hjob : (Job.settle load outcome).Charted store F)
    (hs : Performed cfg store s (.settle load outcome) s') :
    Charted store (F.setLoad load { F.loads load with isOver := true }) s' := by
  let queries := s.queries.settle load outcome.toOption s.now
  let F' := F.setLoad load { F.loads load with isOver := true }
  have hsame : queries.started = s.queries.started := ReadThrough.settle_started
  have hstarted : load < queries.started := by
    rw [hsame]
    refine h.started fun hblank => ?_
    have hfate : (F.loads load).fate = some outcome := hjob
    rw [hblank] at hfate
    exact nomatch hfate
  have hdetached : Detached queries load := by
    exact ⟨hstarted, fun f hf hid => absurd hid (ReadThrough.mem_settle_flights.mp hf).2⟩
  have hkept : Charted store F { s with queries := queries } :=
    { h with
      isOver := fun k hk => (h.isOver k hk).settle load _ _
      unstarted := fun k hk => h.unstarted k (hsame ▸ hk) }
  have hover : Charted store F' { s with queries := queries } :=
    hkept.setLoad hstarted ⟨List.prefix_refl _, fun _ => id, fun _ => id, fun _ => rfl⟩
      (fun l hl hid => (hid ▸ (h.loads l hl).lawful).setOver true) fun _ => hdetached
  have htold : F'.Told load outcome := by
    rw [Charts.Told, Charts.setLoad_self]
    exact ⟨hjob, rfl⟩
  have hended : Charted store F' (State.modifyLoad { s with queries := queries } load
      fun l => { l with ended := some outcome }) := by
    refine hover.modifyLoad load fun l hl hid => { hover.loads l hl with ended := ?_ }
    intro outcome' hended
    obtain rfl := Option.some.inj hended
    exact hid ▸ htold
  cases hs with
  | settled =>
    apply hended.scheduleAll
    intro p hp
    obtain ⟨i, hi, rfl⟩ := List.mem_map.mp hp
    -- whoever is told is served by this load
    have hfinish : ∀ k, F.server i = some k → F'.Told k outcome := by
      intro k hk
      cases hfound : s.load? load with
      | none =>
        rw [hfound] at hi
        exact nomatch hi
      | some l =>
        rw [hfound] at hi
        obtain ⟨hl, rfl⟩ := mem_of_load? hfound
        obtain rfl := Option.some.inj (hk.symm.trans ((h.loads l hl).subscribers i hi))
        exact htold
    unfold notice
    split <;> exact hfinish

theorem settleGraph (h : Charted store F s) (hjob : (Job.settleGraph g graph).Charted store F)
    (hs : Performed cfg store s (.settleGraph g graph) s') : Charted store F s' := by
  obtain ⟨n, hn, rfl⟩ := hjob
  have hkept := h.setGraphs (s.graphs.settle g (graphOf store n).toOption s.now)
    (fun f hf => h.underWay f (ReadThrough.mem_settle_flights.mp hf).1)
    (fun k hk => h.unasked k (ReadThrough.settle_started (c := s.graphs) ▸ hk)) s.graphWaiters
    fun w => .inl
  cases hs with
  | settledGraph =>
    apply hkept.scheduleAll
    intro p hp
    obtain ⟨w, hw, rfl⟩ := List.mem_map.mp hp
    obtain ⟨hwaits, hid⟩ := List.mem_filter.mp hw
    obtain ⟨n', hn', hsource⟩ := h.waiters w hwaits
    rw [beq_iff_eq.mp hid, hn] at hn'
    obtain rfl := Option.some.inj hn'
    exact hsource

theorem deliverGraph (h : Charted store F s) (hjob : (Job.deliverGraph id graph).Charted store F)
    (hs : Performed cfg store s (.deliverGraph id graph) s') : Charted store F s' := by
  cases hs with
  | deliveredGraph =>
    have hfree := h.setGraphLoad id none
    have hwaiters := hfree.setGraphs s.graphs h.underWay h.unasked
      (s.graphWaiters.filter fun w => w.2 != id) fun w hw => .inl (List.mem_filter.mp hw).1
    exact hwaiters.schedule 1 _ hjob
  | unawaited => exact h

end Charted

end IssueQuery.Engine
