import IssueQuery.Proofs.Engine.Aborting
import IssueQuery.Proofs.Engine.Asking
import IssueQuery.Proofs.Engine.Attending
import IssueQuery.Proofs.Engine.Events
import IssueQuery.Proofs.Engine.Invalidation

/-!
# Calls keep an engine attentive

A call that is made is counted as if the job that finishes it were under way from the start, and a
load that starts as if the job that goes on with it were. No call has the load before it has asked
the store for its base issues; so nobody can leave it meanwhile, and it is not called off.

* `Alert.startLoad`      a load starts;
* `Alert.requestShared`  a call gets a kept result, joins a load or starts one;
* `Alert.step`            every event keeps an engine alert.
-/

namespace IssueQuery.Engine

variable {s s' : State} {l : Load} {c : Call} {J : Job → Prop} {job : Job} {i id g : Nat}
  {f : Flight Text} {outcome : Except LoadFailure Outcome} {graph graph' : Except LoadFailure Graph}
  {store : Store} {cfg : Settings} {q : Query} {text : Text} {signal : Option Text}

namespace Attentive

/-! ## Loads turn to the graph -/

/-- The load of a flight that callers may join has not ended and was not called off. -/
theorem load_of_flight (h : Attentive store s J) (hf : f ∈ s.queries.flights)
    (hattached : f.attached = true) :
    ∃ l ∈ s.loads, l.id = f.id ∧ l.ended = none ∧ l.control = .shared none := by
  obtain ⟨l, hl, hid, hended, hon⟩ := h.flights f hf
  exact ⟨l, hl, hid, hended, hon hattached⟩

/-- A load waits for a load of the graph that is under way. -/
theorem awaitGraph (h : Attentive store s fun j => j = .resume l.id graph ∨ J j) (hl : l ∈ s.loads)
    (hgraph : J (.settleGraph g graph')) : Attentive store (awaitGraph s g l.id) J := by
  have hwaits : Attentive store
      { s.modifyLoad l.id fun l => { l with graphLoad := some g } with
        graphWaiters := s.graphWaiters ++ [(g, l.id)] }
      fun j => j = .resume l.id graph ∨ J j := by
    apply h.adjustLoad hl _ rfl rfl rfl
    · exact List.Subset.refl _
    · exact fun i hi => .inl hi
    · exact fun _ _ => ⟨_, .inl rfl, rfl⟩
    · exact fun w hw _ => List.mem_append_left _ hw
  -- the job that was to go on with the load is not needed: the graph will go on with it
  apply hwaits.done
  · exact fun _ _ _ _ hbrings => False.elim hbrings
  · intro l' hl' _ _ hid
    obtain rfl | ⟨-, hother⟩ := Faithful.mem_modifyLoad h.distinct hl hl'
    · exact ⟨_, hgraph, rfl, List.mem_append_right _ (List.mem_singleton.mpr rfl)⟩
    · exact absurd (Eq.symm hid) hother
  · exact fun _ _ _ _ hsame => nomatch hsame

end Attentive

namespace Alert

/-- Neither the calls nor the loads of results matter to what is done with the graph. -/
theorem setGraphs (h : Alert store s J) (graphs : ReadThrough Unit Graph)
    (hunderWay : ∀ f ∈ graphs.flights, f.attached = true →
      ∃ graph, J (.settleGraph f.id graph)) : Alert store { s with graphs := graphs } J :=
  ⟨h.attentive.setGraphs graphs hunderWay, h.counted⟩

/-- A load that no call has is not called off. -/
theorem calledOff?_of_unclaimed (h : Alert store s J) (hf : Unclaimed s f)
    (hattached : f.attached = true) :
    s.calledOff? f.id = none := by
  obtain ⟨l, hl, hid, -, hon⟩ := h.attentive.load_of_flight hf.there hattached
  rw [← hid]
  exact h.attentive.calledOff?_eq_none hl hon

/-- A load starts a load of the graph, and waits for it. -/
theorem startGraph
    (h : Alert store s fun j => j = .resume f.id graph ∨ J j ∨ s.Pending j) (hf : Unclaimed s f)
    (hattached : f.attached = true) (graphs : ReadThrough Unit Graph)
    (hflights : ∀ f ∈ graphs.flights, f ∈ s.graphs.flights ∨ f.id = g) :
    let fetched := staged .graph (loadGraph store) { s with graphs := graphs }
    let s' := Engine.awaitGraph (fetched.2.schedule 0 (.settleGraph g fetched.1)) g f.id
    Alert store s' fun j => J j ∨ s'.Pending j := by
  have hproceeds : Proceeds store f.id (staged .graph (loadGraph store)) := proceeds_loadGraph
  obtain ⟨hmeanwhile, hok⟩ := hproceeds { s with graphs := graphs }
  generalize staged .graph (loadGraph store) { s with graphs := graphs } = fetched
    at hmeanwhile hok ⊢
  -- the load of the graph is under way before the cache says so, whatever it is going to give
  have hfetched : ∀ graph' : Except LoadFailure Graph, Succeeds store graph' → Alert store fetched.2
      fun j => j = .resume f.id graph ∨ j = .settleGraph g graph' ∨ J j ∨ s.Pending j := by
    intro graph' hok'
    have hunderWay := h.attentive.announce (fun j => j = .settleGraph g graph') <| by
      rintro _ rfl
      exact hok'
    have hstarted : Alert store { s with graphs := graphs }
        fun j => j = .resume f.id graph ∨ j = .settleGraph g graph' ∨ J j ∨ s.Pending j := by
      apply Alert.setGraphs ⟨hunderWay, h.counted⟩
      intro f' hf' hattached'
      obtain hold | rfl := hflights f' hf'
      · exact hunderWay.underWay f' hold hattached'
      · exact ⟨graph', .inr (.inl rfl)⟩
    exact hstarted.meanwhile hmeanwhile
  have hf' : Unclaimed fetched.2 f :=
    hmeanwhile.aborting.unclaimed (s := { s with graphs := graphs }) ⟨hf.nobody, hf.there, hf.only⟩
  -- the load is not called off meanwhile, so the graph has been fetched
  have hfetched' := hfetched (.ok (Graph.ofDependencies [])) (succeeds_ok store _)
  have hon := hfetched'.calledOff?_of_unclaimed hf' hattached
  have hdone := hfetched fetched.1 fun hstore => hok hstore hon
  obtain ⟨l, hl, hid, -⟩ := hdone.attentive.load_of_flight hf'.there hattached
  rw [← hid] at hdone ⊢
  have hwaits : Attentive store (Engine.awaitGraph fetched.2 g l.id) _ :=
    hdone.attentive.awaitGraph hl (.inl rfl)
  have hpending : s.Pending = fetched.2.Pending := pending_congr hmeanwhile.agenda.symm
  rw [hpending] at hwaits
  exact ⟨hwaits.schedule 0, hdone.counted⟩

/-- A shared load gets the graph, or waits for it. -/
theorem requestGraph
    (h : Alert store s fun j => j = .resume f.id graph ∨ J j ∨ s.Pending j) (hf : Unclaimed s f)
    (hattached : f.attached = true) :
    Alert store (requestGraph cfg store s f.id)
      fun j => J j ∨ (requestGraph cfg store s f.id).Pending j := by
  obtain ⟨l, hl, hid, -⟩ := h.attentive.load_of_flight hf.there hattached
  unfold Engine.requestGraph
  obtain ⟨graph', -, hrequest⟩ | ⟨f', hfound, hrequest⟩ | ⟨-, hrequest⟩ :=
    s.graphs.request_cases true () (some cfg.ttl) s.now
  · -- the graph is kept: the load goes on with it
    rw [hrequest]
    dsimp only
    have hkept := h.setGraphs (s.graphs.stored true () (some cfg.ttl) s.now).2 h.attentive.underWay
    have hnext := hkept.attentive.replace (.resume f.id (.ok graph'))
      ⟨l, hl, hid, fun _ => succeeds_ok store _⟩
      (fun _ hbrings => hbrings) (fun _ _ hfurthers => hfurthers) rfl
    exact ⟨hnext.schedule 0, h.counted⟩
  · -- a load of the graph is under way: the load waits for it
    rw [hrequest]
    dsimp only
    obtain ⟨hmem, hon, -⟩ := ReadThrough.mem_of_attached? hfound
    obtain ⟨graph', hgraph⟩ := h.attentive.underWay f' hmem hon
    have hjoined := h.setGraphs ((s.graphs.stored true () (some cfg.ttl) s.now).2.modify f'.id
      fun f => { f with waiters := f.waiters + 1 }) <| by
      intro f₁ hf₁ hattached₁
      obtain ⟨f₀, hf₀, hid₀, -, hattached₀, -⟩ := ReadThrough.exists_of_mem_join hf₁
      rw [← hid₀]
      exact h.attentive.underWay f₀ hf₀ (hattached₀.trans hattached₁)
    obtain hresume | hpending := hgraph
    · exact nomatch hresume
    · have hdone := hjoined.attentive
      rw [← hid] at hdone ⊢
      exact ⟨hdone.awaitGraph hl hpending, h.counted⟩
  · -- neither of them: the load starts a load of the graph
    rw [hrequest]
    dsimp only
    apply h.startGraph hf hattached
    intro f' hf'
    obtain hold | hnew := List.mem_append.mp hf'
    · exact .inl hold
    · exact .inr (congrArg Flight.id (List.mem_singleton.mp hnew))

/-! ## Loads start -/

/-- A load that starts is brought to its end by a job. -/
theorem startLoad
    (h : Alert store { s with loads := s.loads ++ [l] }
      fun j => j = .resume f.id graph ∨ J j ∨ s.Pending j)
    {selection : Selection} (hselect : l.query.select = .ok selection)
    (hcontrol : l.control = .shared none) (hid : l.id = f.id) (hf : Unclaimed s f)
    (hattached : f.attached = true) :
    Alert store (startLoad cfg store s l) fun j => J j ∨ (startLoad cfg store s l).Pending j := by
  have hproceeds : Proceeds store f.id (fetchBase store f.id l.query) := proceeds_fetchBase hselect
  obtain ⟨hmeanwhile, hok⟩ := hproceeds { s with loads := s.loads ++ [l] }
  have hasked := h.meanwhile hmeanwhile
  have hf' := hmeanwhile.aborting.unclaimed (s := { s with loads := s.loads ++ [l] })
    ⟨hf.nobody, hf.there, hf.only⟩
  unfold Engine.startLoad
  rw [hid]
  generalize fetchBase store f.id l.query { s with loads := s.loads ++ [l] } = fetched
    at hmeanwhile hok hasked hf' ⊢
  obtain ⟨base, s'⟩ := fetched
  dsimp only at hmeanwhile hok hasked hf' ⊢
  have hpending : s.Pending = s'.Pending := pending_congr hmeanwhile.agenda.symm
  rw [hpending] at hasked
  -- the load is not called off meanwhile, so the base issues have been fetched
  have hon := hasked.calledOff?_of_unclaimed hf' hattached
  obtain ⟨l', hl', hid', -⟩ := hasked.attentive.load_of_flight hf'.there hattached
  have hearly : ∀ expanding outcome, Succeeds store outcome →
      Alert store (concludeEarly s' l expanding outcome)
      fun j => J j ∨ (concludeEarly s' l expanding outcome).Pending j := by
    intro expanding outcome houtcome
    have hnext := hasked.attentive.replace (.settle f.id outcome) ⟨l', hl', hid', fun _ => houtcome⟩
      (fun _ hbrings => False.elim hbrings) (fun _ _ hfurthers => hfurthers) rfl
    unfold concludeEarly
    rw [hcontrol, hid]
    exact ⟨hnext.schedule _, hasked.counted⟩
  split
  · exact hearly false _ fun hstore => nomatch hok hstore hon
  · exact hearly false _ (succeeds_ok store _)
  · exact hearly true _ (succeeds_ok store _)
  · rename_i issues e _ _
    have hbased : Alert store (s'.modifyLoad f.id fun l => { l with base := issues })
        fun j => j = .resume f.id graph ∨ J j ∨ s'.Pending j := by
      rw [← hid'] at hasked ⊢
      refine ⟨?_, hasked.counted⟩
      refine hasked.attentive.adjustLoad hl' s'.graphWaiters rfl rfl rfl ?_ ?_ ?_ ?_
      · exact List.Subset.refl _
      · exact fun i hi => .inl hi
      · exact fun _ _ => ⟨_, .inl rfl, rfl⟩
      · exact fun w hw _ => hw
    have hf'' : Unclaimed (s'.modifyLoad f.id fun l => { l with base := issues }) f :=
      ⟨hf'.nobody, hf'.there, hf'.only⟩
    rw [hbased.calledOff?_of_unclaimed hf'' hattached, hcontrol]
    exact hbased.requestGraph hf'' hattached

end Alert

/-! ## Calls wait for loads -/

/-- A call that waits joins a load that has not ended. -/
theorem Attentive.join (h : Attentive store s fun j => j = .finish i outcome ∨ s.Pending j)
    (hc : s.calls[i]? = some c) (hfree : c.load = none) (hunsettled : c.settled = none)
    (hl : l ∈ s.loads) (hended : l.ended = none) (hon : l.control = .shared none) :
    Attentive store (join s i l.id) (join s i l.id).Pending := by
  let listening := c.signal.isSome && (s.reason? c.signal).isNone
  let c' : Call := { c with load := some l.id, listening := listening }
  -- the call takes the number of the load before it is entered as a subscriber or told later
  have hjoined : Attentive store
      (s.modifyCall i fun c => { c with load := some l.id, listening := listening })
      fun j => j = .finish i outcome ∨ s.Pending j := by
    apply h.modifyCall
    intro c₀ hc₀
    obtain rfl := Option.some.inj (hc.symm.trans hc₀)
    refine ⟨⟨rfl, rfl, fun id hid => ?_, id⟩, ?_, fun _ => ⟨hunsettled, rfl⟩, ?_⟩
    · rw [hfree] at hid
      exact nomatch hid
    · intro id hid
      exact ⟨l, hl, Option.some.inj hid, fun _ => hon⟩
    · intro id _ _ hsignal hquiet
      exact .inl (Bool.and_eq_true_iff.mpr ⟨hsignal, Option.isNone_iff_eq_none.mpr hquiet⟩)
  have hc' : (s.modifyCall i fun c =>
      { c with load := some l.id, listening := listening }).calls[i]? = some c' := by
    rw [State.modifyCall, List.getElem?_modify, hc]
    exact congrArg some (if_pos rfl)
  have hsignal : (s.calls[i]?).bind Call.signal = c.signal := by rw [hc, Option.bind_some]
  obtain hjoin | hjoin := join_cases s i l.id <;> rw [hjoin, State.awaiting, hsignal]
  · apply (hjoined.addSubscriber hl hc' rfl).doneServing rfl
    rintro _ _ _ _ rfl
    exact .inr (Faithful.told_addSubscriber hl hended)
  · have hnext := hjoined.replace (.subscribe i) ⟨c', hc', rfl⟩ (fun _ hbrings => hbrings)
      (fun _ _ hfurthers => hfurthers) rfl
    exact hnext.scheduleLast 0

/-- Nobody waits for a load that no call has. -/
theorem waiting_eq_zero {calls : List Call}
    (hnobody : ∀ (i : Nat) (c : Call), calls[i]? = some c → c.load ≠ some id) :
    waiting calls id = 0 := by
  apply List.countP_eq_zero.mpr
  intro c hc hwaits
  obtain ⟨i, hi⟩ := List.mem_iff_getElem?.mp hc
  exact hnobody i c hi (Call.load_of_isWaiting hwaits)

/-- A load is added that callers may join, and a job will go on with it. -/
theorem Attentive.addShared (h : Attentive store s J) {queries : ReadThrough Text Outcome}
    (hid : f.id = s.queries.started) (hflights : queries.flights = s.queries.flights ++ [f])
    (hstarted : queries.started = s.queries.started + 1) (q : Query) :
    Attentive store
      { s with
        queries := queries
        loads := s.loads ++ [⟨s.queries.started, q, .shared none, [], none, [], none⟩] }
      fun j => j = .resume f.id (.ok (Graph.ofDependencies [])) ∨ J j := by
  let l : Load := ⟨s.queries.started, q, .shared none, [], none, [], none⟩
  have hl : l ∈ s.loads ++ [l] := List.mem_append_right _ (List.mem_singleton.mpr rfl)
  -- the load is there before callers may join it
  have hnumbered : Attentive store
      { s with queries := { queries with flights := s.queries.flights } } J := by
    apply h.setQueries { queries with flights := s.queries.flights } _ h.flights
    show s.queries.started ≤ queries.started
    omega
  have hloaded : Attentive store { s with
      queries := { queries with flights := s.queries.flights }, loads := s.loads ++ [l] }
      fun j => j = .resume f.id (.ok (Graph.ofDependencies [])) ∨ J j := by
    apply hnumbered.addLoad
    · refine ⟨?_, ⟨none, rfl⟩, fun _ hended => (nomatch hended), fun _ hi => (nomatch hi)⟩
      show s.queries.started < queries.started
      omega
    · exact fun l' hl' => Nat.ne_of_lt (h.loads l' hl').below
    · exact fun _ => .inr
    · rintro j (rfl | hj)
      · exact .inr ⟨l, hl, hid.symm, fun _ => succeeds_ok store _⟩
      · exact .inl hj
    · exact ⟨_, .inl (by rw [hid])⟩
  apply hloaded.setQueries queries (Nat.le_refl _)
  intro g hg
  rw [hflights] at hg
  obtain hold | hnew := List.mem_append.mp hg
  · exact hloaded.flights g hold
  · obtain rfl := List.mem_singleton.mp hnew
    exact ⟨l, hl, hid.symm, rfl, fun _ => rfl⟩

namespace Alert

/-- A load that was never started before is no call's. -/
theorem unclaimed_new (h : Alert store s J) {queries : ReadThrough Text Outcome}
    (hid : f.id = s.queries.started) (hflights : queries.flights = s.queries.flights ++ [f])
    (l : Load) : Unclaimed { s with queries := queries, loads := s.loads ++ [l] } f := by
  constructor
  · -- whoever has a load has one that started before
    intro i c hc hload
    obtain ⟨l', hl', hid', -⟩ := (h.attentive.calls i c hc).loaded f.id hload
    have hbelow := (h.attentive.loads l' hl').below
    omega
  · rw [hflights]
    exact List.mem_append_right _ (List.mem_singleton.mpr rfl)
  · intro g hg hgid
    rw [hflights] at hg
    obtain hold | hnew := List.mem_append.mp hg
    · have hbelow := h.counted.below g hold
      omega
    · exact List.mem_singleton.mp hnew

/-- A load is added that callers may join; no call has it yet. -/
theorem addShared (h : Alert store s J) {queries : ReadThrough Text Outcome}
    (hid : f.id = s.queries.started) (hflights : queries.flights = s.queries.flights ++ [f])
    (hstarted : queries.started = s.queries.started + 1) (hwaiters : f.departed ≤ f.waiters)
    (q : Query) :
    let s' : State := { s with
      queries := queries
      loads := s.loads ++ [⟨s.queries.started, q, .shared none, [], none, [], none⟩] }
    Unclaimed s' f ∧
      Alert store s' fun j => j = .resume f.id (.ok (Graph.ofDependencies [])) ∨ J j := by
  have hunclaimed := h.unclaimed_new hid hflights
    ⟨s.queries.started, q, .shared none, [], none, [], none⟩
  exact ⟨hunclaimed, h.attentive.addShared hid hflights hstarted q,
    h.counted.added hid hflights hstarted hwaiters (waiting_eq_zero hunclaimed.nobody)⟩

/-- A call whose query is fit starts a load that others may join. -/
theorem startShared
    (h : Alert store s fun j => j = .finish i outcome ∨ s.Pending j) (hc : s.calls[i]? = some c)
    (hfree : c.load = none) (hunsettled : c.settled = none) (hcheck : q.check = .ok ())
    {queries : ReadThrough Text Outcome} {ttl : Option Time}
    (hflights : queries.flights =
      s.queries.flights ++ [⟨s.queries.started, text, ttl, 1, 0, true⟩])
    (hstarted : queries.started = s.queries.started + 1) :
    let s' := Engine.startLoad cfg store { s with queries := queries }
      ⟨s.queries.started, q, .shared none, [], none, [], none⟩
    Alert store (Engine.join s' i s.queries.started)
      (Engine.join s' i s.queries.started).Pending := by
  obtain ⟨selection, hselect⟩ := Query.select_of_check hcheck
  let f : Flight Text := ⟨s.queries.started, text, ttl, 1, 0, true⟩
  let l : Load := ⟨s.queries.started, q, .shared none, [], none, [], none⟩
  obtain ⟨hunclaimed, hadded⟩ := h.addShared (f := f) rfl hflights hstarted (Nat.zero_le _) q
  have hstarts : Alert store (Engine.startLoad cfg store { s with queries := queries } l)
      fun j => j = .finish i outcome ∨
        (Engine.startLoad cfg store { s with queries := queries } l).Pending j :=
    startLoad (s := { s with queries := queries }) (f := f) hadded hselect rfl rfl
      ⟨hunclaimed.nobody, hunclaimed.there, hunclaimed.only⟩ rfl
  have haborting : Aborting { s with queries := queries }
      (Engine.startLoad cfg store { s with queries := queries } l) := aborting_startLoad hselect _
  have hf : Unclaimed (Engine.startLoad cfg store { s with queries := queries } l) f :=
    haborting.unclaimed ⟨hunclaimed.nobody, hunclaimed.there, hunclaimed.only⟩
  have hc' := haborting.free hc hfree
  dsimp only
  generalize Engine.startLoad cfg store { s with queries := queries } l = s' at hstarts hf hc' ⊢
  -- the load that started is the one that the call joins
  obtain ⟨l', hl', hid', hended, hon⟩ := hstarts.attentive.load_of_flight hf.there rfl
  constructor
  · have hjoined := hstarts.attentive.join hc' hfree hunsettled hl' hended hon
    rw [hid'] at hjoined
    exact hjoined
  · rw [join_queries, join_calls]
    apply hstarts.counted.claim hc' rfl
    intro g hg hgid
    obtain rfl := hf.only g hg hgid
    have hnobody : waiting s'.calls s.queries.started = 0 := waiting_eq_zero hf.nobody
    rw [hnobody]

/-- A call whose query is fit gets a kept result, joins a load or starts one. -/
theorem requestShared
    (h : Alert store s fun j => j = .finish i outcome ∨ s.Pending j) (hc : s.calls[i]? = some c)
    (hfree : c.load = none) (hunsettled : c.settled = none) (hcheck : q.check = .ok ())
    (text : Text) :
    Alert store (requestShared cfg store s i text q)
      (requestShared cfg store s i text q).Pending := by
  unfold Engine.requestShared
  obtain ⟨out, -, hrequest⟩ | ⟨f, hfound, hrequest⟩ | ⟨-, hrequest⟩ :=
    s.queries.request_cases true text (some cfg.ttl) s.now
  · rw [hrequest]
    have hread : Alert store
        { s with queries := (s.queries.stored true text (some cfg.ttl) s.now).2 }
        fun j => j = .finish i outcome ∨ s.Pending j :=
      ⟨h.attentive.setQueries _ (Nat.le_refl _) h.attentive.flights,
        h.counted.mono (fun _ => id) (Nat.le_refl _) fun _ => Nat.le_refl _⟩
    have hnext := hread.attentive.replace (.finish i (.ok out))
      ⟨c, hc, fun _ => succeeds_ok store _⟩
      (fun _ hbrings => hbrings) (fun _ _ hfurthers => hfurthers) rfl
    exact ⟨hnext.scheduleLast 0, hread.counted⟩
  · rw [hrequest]
    dsimp only
    obtain ⟨hf, hattached, -⟩ := ReadThrough.mem_of_attached? hfound
    obtain ⟨l, hl, hid, hended, hon⟩ := h.attentive.load_of_flight hf hattached
    -- one caller more: what can be joined does not change
    have hjoined := h.attentive.setQueries
      ((s.queries.stored true text (some cfg.ttl) s.now).2.modify f.id
        fun f => { f with waiters := f.waiters + 1 }) (Nat.le_refl _) <| by
      intro f₁ hf₁
      obtain ⟨f₀, hf₀, hid₀, -, hattached₀, -⟩ := ReadThrough.exists_of_mem_join hf₁
      obtain ⟨l₀, hl₀, hlid₀, hended₀, hon₀⟩ := h.attentive.flights f₀ hf₀
      exact ⟨l₀, hl₀, hlid₀.trans hid₀, hended₀, fun h₁ => hon₀ (hattached₀.trans h₁)⟩
    constructor
    · have hwaits := hjoined.join hc hfree hunsettled hl hended hon
      rw [hid] at hwaits
      exact hwaits
    · rw [join_queries, join_calls]
      exact h.counted.join hc rfl rfl rfl
  · rw [hrequest]
    exact h.startShared hc hfree hunsettled hcheck rfl rfl

end Alert

/-! ## Calls are made -/

/-- What happens to a call when it is made, if loads are shared. -/
theorem call_cases (hon : cfg.disabled = false) (store : Store) (s : State) (text : Text)
    (signal : Option Text) :
    ∃ texts, let made : State := { s with
        calls := s.calls ++ [⟨text, signal, s.now, none, false, none⟩], expanding := texts }
      (∃ failure, readQuery text = .error failure ∧ call cfg store s text signal =
        finishWith cfg made s.calls.length (.error (.failed text failure))) ∨
      ∃ q, readQuery text = .ok q ∧
        ((∃ reason, s.reason? signal = some reason ∧ call cfg store s text signal =
          made.settleCall s.calls.length (.error (.aborted reason))) ∨
        (s.reason? signal = none ∧ call cfg store s text signal =
          requestShared cfg store made s.calls.length text q)) := by
  obtain ⟨texts, hcases⟩ := call_spec cfg store s text signal
  rw [hon] at hcases
  exact ⟨texts, hcases⟩

namespace Alert

theorem frame (h : Alert store s J) (hframe : Frame s s') : Alert store s' J :=
  ⟨h.attentive.frame hframe, h.counted.frame hframe⟩

/-- The texts of expanding queries do not matter. -/
theorem setExpanding (h : Alert store s J) (texts : List Text) :
    Alert store { s with expanding := texts } J :=
  ⟨h.attentive.notes rfl rfl rfl rfl rfl rfl rfl, h.counted⟩

/-- A call is made, and a job will finish it. -/
theorem addCall (h : Alert store s s.Pending) (hfree : c.load = none)
    (hdeaf : c.listening = false) :
    Alert store { s with calls := s.calls ++ [c] }
      fun j => j = .finish s.calls.length (.ok ⟨[], none⟩) ∨ s.Pending j where
  attentive := by
    apply h.attentive.addCall hfree hdeaf
    · exact fun _ => .inr
    · rintro j (rfl | hj)
      · exact .inr ⟨c, List.getElem?_concat_length, fun _ => succeeds_ok store _⟩
      · exact .inl hj
    · exact fun _ => ⟨_, .inl rfl⟩
  counted := h.counted.mono (fun _ => id) (Nat.le_refl _) fun _ =>
    Nat.le_of_eq (Counted.waiting_append hfree)

/-- A call that is finished at once. -/
theorem settleFinish (h : Alert store s fun j => j = .finish i outcome ∨ J j)
    (result : Except Rejection Result) : Alert store (s.settleCall i result) J :=
  ⟨h.attentive.settleFinish result, h.counted.settleCall result⟩

/-- A call that is made keeps an engine alert. -/
theorem call (hon : cfg.disabled = false) (h : Alert store s s.Pending)
    (text : Text) (signal : Option Text) :
    Alert store (call cfg store s text signal) (call cfg store s text signal).Pending := by
  let c : Call := ⟨text, signal, s.now, none, false, none⟩
  have hlast : (s.calls ++ [c])[s.calls.length]? = some c := List.getElem?_concat_length
  obtain ⟨texts, hcases⟩ := call_cases hon store s text signal
  have hmade : Alert store { s with calls := s.calls ++ [c], expanding := texts } _ :=
    (h.addCall (c := c) rfl rfl).setExpanding texts
  obtain ⟨failure, -, hcall⟩ | ⟨q, hquery, ⟨reason, -, hcall⟩ | ⟨-, hcall⟩⟩ := hcases
  · rw [hcall]
    exact (hmade.settleFinish (.error (.failed text failure))).frame (frame_finishWith ..)
  · rw [hcall]
    exact hmade.settleFinish (.error (.aborted reason))
  · rw [hcall]
    exact hmade.requestShared hlast rfl rfl (check_of_readQuery hquery) text

/-! ## Events -/

/-- Loads are detached, and kept results are dropped. -/
theorem detach (h : Alert store s J) {queries : ReadThrough Text Outcome}
    {change : Flight Text → Flight Text}
    (hflights : queries.flights = s.queries.flights.map change)
    (hstarted : queries.started = s.queries.started)
    (hchange : ∀ f, (change f).id = f.id ∧ (change f).departed = f.departed ∧
      (change f).waiters = f.waiters)
    (hattached : ∀ f, (change f).attached = true → f.attached = true) :
    Alert store { s with queries := queries } J where
  attentive := by
    apply h.attentive.setQueries queries (Nat.le_of_eq hstarted.symm)
    intro f hf
    rw [hflights] at hf
    obtain ⟨g, hg, rfl⟩ := List.mem_map.mp hf
    obtain ⟨l, hl, hid, hended, hon⟩ := h.attentive.flights g hg
    exact ⟨l, hl, hid.trans (hchange g).1.symm, hended, fun hstill => hon (hattached g hstill)⟩
  counted := h.counted.map hflights hstarted hchange

theorem invalidateEach (h : Alert store s J) (texts : List Text) :
    Alert store { s with queries := texts.foldl ReadThrough.invalidate s.queries } J := by
  induction texts generalizing s with
  | nil => exact h
  | cons text rest ih =>
    have hfirst : Alert store { s with queries := s.queries.invalidate text } J := by
      refine h.detach rfl rfl (fun f => ?_) fun f hattached => ?_
      · split <;> exact ⟨rfl, rfl, rfl⟩
      · split at hattached
        · exact nomatch hattached
        · exact hattached
    exact ih hfirst

theorem invalidateGraphs (h : Alert store s J) :
    Alert store { s with graphs := s.graphs.invalidate () } J :=
  h.setGraphs _ fun f hf hattached =>
    h.attentive.underWay f (ReadThrough.exists_of_mem_invalidate hf hattached).1 hattached

/-- Every event keeps an engine alert. -/
theorem step (hon : cfg.disabled = false) (h : Alert store s s.Pending)
    (event : Event) : Alert store (step cfg store s event) (step cfg store s event).Pending := by
  cases event with
  | call text signal => exact h.call hon text signal
  | tick => exact h.tick (ticked cfg store s)
  | abort signal reason =>
    have hagenda : (s.abort signal reason).agenda = s.agenda :=
      ((Meanwhile.refl s).abort signal reason).agenda
    show Alert store (s.abort signal reason) (s.abort signal reason).Pending
    rw [pending_congr hagenda]
    exact h.abort signal reason
  | invalidate =>
    have hforgotten : Alert store { s with queries := s.queries.invalidateAll } s.Pending :=
      h.detach rfl rfl (fun _ => ⟨rfl, rfl, rfl⟩) fun _ hattached => nomatch hattached
    exact hforgotten.invalidateGraphs.setExpanding []
  | invalidateGraph => exact (h.invalidateGraphs.invalidateEach s.expanding).setExpanding []
  | advance span => exact h.frame (frame_advance s span)
  | close => exact h.frame (frame_close s)

end Alert

/-- An engine that has done nothing yet is alert. -/
theorem alert_new (now : Time) (ttl interval ttl' interval' : Option Time) :
    let s := State.new now (.new now ttl interval) (.new now ttl' interval')
    Alert store s s.Pending where
  attentive :=
    { distinct := List.nodup_nil
      loads := fun _ hl => nomatch hl
      calls := fun _ _ hc => nomatch hc
      flights := fun _ hf => nomatch hf
      jobs := fun _ ⟨_, hj⟩ => nomatch hj
      served := fun _ _ hc => nomatch hc
      furthered := fun _ hl => nomatch hl
      underWay := fun _ hf => nomatch hf }
  counted := ⟨fun _ hf => (nomatch hf), fun _ hf => (nomatch hf)⟩

end IssueQuery.Engine
