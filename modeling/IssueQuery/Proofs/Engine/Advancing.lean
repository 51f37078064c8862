import IssueQuery.Proofs.Engine.Charting

/-!
# Loads come on

In an event statements are given for one load at most: for the load that a call starts, or for the one
that goes on with the graph. Its chart grows by the inquiries made meanwhile, and all other charts
stay as they were.

* `Advances`           the charts go on from one state to the next;
* `Charted.BaseAsked`  what is known once a new load has asked for its base issues;
* `Charted.startLoad`  a load starts;
* `Charted.resume`     a load goes on with the graph;
* `Charted.called`     a call is made.
-/

namespace IssueQuery.Engine

variable {store : Store} {cfg : Settings} {m : Mark} {F F' F'' : Charts} {s s' s'' : State}
  {l l' : Load} {q : Query} {base : List Issue} {load i n : Nat} {isOver : Bool} {text : Text}
  {signal : Option Text} {outcome : Except LoadFailure Outcome} {graph : Except LoadFailure Graph}
  {made : List (Inquiry × Nat)} {own : List Inquiry}

/-- Between the states the chart of the asker grows by the inquiries that are made for it, and nothing
is asked for anybody else. -/
structure Advances (store : Store) (asker : Option Nat) (F F' : Charts) (s s' : State) : Prop where
  grows : F.Grows F'
  charted : Charted store F' s'
  others : ∀ k, asker ≠ some k →
    (F'.loads k).made = (F.loads k).made ∧ (F'.loads k).fate = (F.loads k).fate
  made : ∃ more : List Inquiry,
    (∀ k, asker = some k → (F'.loads k).made = (F.loads k).made ++ more.zipIdx s.asked) ∧
    s'.journal = s.journal ++ (more.zipIdx s.asked).map fun p => p.1.entry store p.2

namespace Advances

variable {asker : Option Nat}

/-- Nothing is asked, and no load comes to anything. -/
theorem idle (hF : F.Grows F') (h : Charted store F' s')
    (hsame : ∀ k, (F'.loads k).made = (F.loads k).made ∧ (F'.loads k).fate = (F.loads k).fate)
    (hjournal : s'.journal = s.journal) : Advances store asker F F' s s' where
  grows := hF
  charted := h
  others := fun k _ => hsame k
  made := ⟨[], fun k _ => (hsame k).1.trans (List.append_nil _).symm,
    hjournal.trans (List.append_nil _).symm⟩

theorem of_charted (h : Charted store F s') (hjournal : s'.journal = s.journal) :
    Advances store asker F F s s' :=
  .idle (.refl F) h (fun _ => ⟨rfl, rfl⟩) hjournal

theorem trans (h : Advances store asker F F' s s') (h' : Advances store asker F' F'' s' s'')
    (hrecorded : s.Recorded) (hrecorded' : s'.Recorded) : Advances store asker F F'' s s'' where
  grows := h.grows.trans h'.grows
  charted := h'.charted
  others := fun k hk => ⟨(h'.others k hk).1.trans (h.others k hk).1,
    (h'.others k hk).2.trans (h.others k hk).2⟩
  made := by
    obtain ⟨first, hfirst, hjournal⟩ := h.made
    obtain ⟨more, hmore, hjournal'⟩ := h'.made
    have hasked : s'.asked = s.asked + first.length := by
      rw [← hrecorded', ← hrecorded, hjournal, List.length_append, List.length_map,
        List.length_zipIdx]
    refine ⟨first ++ more, fun k hk => ?_, ?_⟩
    · rw [hmore k hk, hfirst k hk, List.append_assoc, List.zipIdx_append, hasked]
    · rw [hjournal', hjournal, List.append_assoc, List.zipIdx_append, List.map_append, hasked]

/-- What happens behind makes no difference if it asks nothing. -/
theorem before (h : Advances store asker F F' s s') (h' : Charted store F' s'')
    (hjournal : s''.journal = s'.journal) : Advances store asker F F' s s'' :=
  { h with
    charted := h'
    made := by
      obtain ⟨more, hmore, hmore'⟩ := h.made
      exact ⟨more, hmore, hjournal.trans hmore'⟩ }

/-- The chart of the load is all that changes. -/
theorem setLoad {chart : Chart} (more : List Inquiry)
    (h : Charted store (F.setLoad load chart) s') (hgrows : (F.loads load).Grows chart)
    (hmade : chart.made = (F.loads load).made ++ more.zipIdx s.asked)
    (hjournal : s'.journal =
      s.journal ++ (more.zipIdx s.asked).map fun p => p.1.entry store p.2) :
    Advances store (some load) F (F.setLoad load chart) s s' where
  grows := Charts.grows_setLoad hgrows
  charted := h
  others := fun k hk => by
    rw [Charts.setLoad_of_ne F chart fun hsame => hk (congrArg some hsame.symm)]
    exact ⟨rfl, rfl⟩
  made := by
    refine ⟨more, fun k hk => ?_, hjournal⟩
    obtain rfl := Option.some.inj hk
    rw [Charts.setLoad_self, hmade]

/-- A load with base issues has turned to the graph, with these inquiries, and knows what it is to go
on with. -/
theorem exists_turned (hbegun : F.loads load = ⟨made, none, none, isOver⟩) (own : List Inquiry)
    (h : Charted store (F.setLoad load ⟨made ++ own.zipIdx s.asked, some graph, none, isOver⟩) s')
    (hjournal : s'.journal = s.journal ++ (own.zipIdx s.asked).map fun p => p.1.entry store p.2) :
    ∃ F', Advances store (some load) F F' s s' ∧ (F'.loads load).fate = none := by
  refine ⟨_, .setLoad own h ?_ ?_ hjournal, ?_⟩
  · rw [hbegun]
    exact .of_unknown rfl rfl (List.prefix_append _ _) id
  · rw [hbegun]
  · rw [Charts.setLoad_self]

end Advances

theorem Lulls.ids (h : Lulls s s') : s'.loads.map Load.id = s.loads.map Load.id := by
  obtain ⟨change, hchanged, hchange⟩ := h.loads
  rw [hchanged, List.map_map]
  refine List.map_congr_left fun l _ => ?_
  obtain hsame | ⟨cause, hoff⟩ := hchange l
  · rw [Function.comp_apply, hsame]
  · rw [Function.comp_apply, hoff]

/-- The load that was added last is as it was, whatever may have happened while the store was
asked. -/
theorem Lulls.added
    (h : Lulls { s with loads := s.loads ++ [l] } s') (hnew : ∀ l' ∈ s.loads, l'.id ≠ l.id)
    (hl : l' ∈ s'.loads) (hid : l'.id = l.id) : l'.query = l.query ∧ l'.base = l.base := by
  obtain ⟨change, hchanged, hchange⟩ := h.loads
  rw [hchanged] at hl
  obtain ⟨l₀, hl₀, rfl⟩ := List.mem_map.mp hl
  have hsame : (change l₀).id = l₀.id ∧ (change l₀).query = l₀.query ∧
      (change l₀).base = l₀.base := by
    obtain hsame | ⟨cause, hoff⟩ := hchange l₀
    · rw [hsame]
      exact ⟨rfl, rfl, rfl⟩
    · rw [hoff]
      exact ⟨rfl, rfl, rfl⟩
  obtain hold | hlast := List.mem_append.mp hl₀
  · exact absurd (hsame.1.symm.trans hid) (hnew l₀ hold)
  · obtain rfl := List.mem_singleton.mp hlast
    exact hsame.2

/-- A load that was called off is not wanted. -/
theorem not_wanted_of_calledOff? (cause : Text × Text) (hdistinct : (s.loads.map Load.id).Nodup)
    (hl : l ∈ s.loads) (hoff : s.calledOff? l.id = some cause) : ¬ l.Wanted s := by
  intro hwanted
  rw [(calledOff?_eq_none (load?_eq_some hdistinct hl)).mpr hwanted] at hoff
  exact nomatch hoff

/-- The job that ends a load tells what the load came to. -/
theorem endJob_charted (hfate : (F.loads l.id).fate = some outcome)
    (hown : ∀ i signal, l.control = .own i signal →
      F.server i = some l.id ∧ (F.loads l.id).isOver = true) :
    (endJob l outcome).Charted store F := by
  unfold endJob
  split
  · exact hfate
  · rename_i call signal hcontrol
    obtain ⟨hserver, hover⟩ := hown call signal hcontrol
    intro load hload
    obtain rfl := Option.some.inj (hserver.symm.trans hload)
    exact ⟨hfate, hover⟩

namespace Charted

/-! ## Loads that go on -/

/-- A load comes to its end, be it with what was asked for it meanwhile. -/
theorem conclude (h : Charted store F s) (hstarted : l.id < s.queries.started)
    (chart : Chart) (hgrows : (F.loads l.id).Grows chart) (hover : chart.isOver = (F.loads l.id).isOver)
    (hfate : chart.fate = some outcome)
    (hlawful : ∀ l' ∈ s.loads, l'.id = l.id →
      Lawful store l'.query l'.base (¬ l'.Wanted s) chart)
    (hown : ∀ i signal, l.control = .own i signal →
      F.server i = some l.id ∧ (F.loads l.id).isOver = true) (turns : Nat) :
    Charted store (F.setLoad l.id chart) (s.schedule turns (endJob l outcome)) := by
  have hset := h.setLoad hstarted hgrows hlawful fun htrue => h.isOver _ (hover ▸ htrue)
  refine hset.schedule turns _ (endJob_charted ?_ fun i signal hcontrol => ?_)
  · rw [Charts.setLoad_self]
    exact hfate
  · rw [Charts.setLoad_self, hover]
    exact hown i signal hcontrol

theorem resume (h : Charted store F s) (hrecorded : s.Recorded)
    (hdistinct : (s.loads.map Load.id).Nodup) (hl : l ∈ s.loads)
    (hjob : (Job.resume l.id graph).Charted store F) (hfate : (F.loads l.id).fate = none)
    (hs : Performed cfg store s (.resume l.id graph) s') :
    ∃ F', Advances store (some l.id) F F' s s' := by
  have hsource : (F.loads l.id).source = some graph := hjob
  have hstarted : l.id < s.queries.started := by
    refine h.started fun hblank => ?_
    rw [hblank] at hsource
    exact nomatch hsource
  have hgrows {chart : Chart} (hmade : (F.loads l.id).made <+: chart.made)
      (hsame : chart.source = some graph) (hover : chart.isOver = (F.loads l.id).isOver) :
      (F.loads l.id).Grows chart :=
    ⟨hmade, fun r hr => by rw [hsame, ← hsource, hr], fun o ho => (nomatch hfate.symm.trans ho),
      fun htrue => hover ▸ htrue⟩
  have hopened {s' : State} (h' : Charted store F s') {l' : Load} (hl' : l' ∈ s'.loads)
      (hid : l'.id = l.id) :
      Opened store l'.query l'.base (¬ l'.Wanted s') (F.loads l.id).made graph :=
    hid ▸ (h'.loads l' hl').lawful.opened (hid ▸ hsource) (hid ▸ hfate)
  have hload : s.load? l.id = some l := load?_eq_some hdistinct hl
  cases hs with
  | unknown _ hnone => cases hnone.symm.trans hload
  -- without a graph the load ends with what the graph came to, and asks nothing more
  | graphless e hfound =>
    obtain rfl := Option.some.inj (hload.symm.trans hfound)
    obtain ⟨turns, hconclude⟩ := conclude_eq s l (.error e)
    rw [hconclude]
    refine ⟨_, .setLoad [] (h.conclude hstarted
      ⟨(F.loads l.id).made, some (.error e), some (.error e), (F.loads l.id).isOver⟩
      (hgrows (List.prefix_refl _) rfl rfl) rfl rfl
      (fun l' hl' hid => .broken (hopened h hl' hid)) (h.loads l hl).own turns)
      (hgrows (List.prefix_refl _) rfl rfl) (List.append_nil _).symm (List.append_nil _).symm⟩
  -- a load turns to the graph only if its query expands
  | plain _ hfound hplain =>
    obtain rfl := Option.some.inj (hload.symm.trans hfound)
    obtain ⟨first, own, ⟨hexpands, -⟩, -⟩ := hopened h hl rfl
    exact absurd hplain hexpands
  -- the statements of the expansion come behind those already made
  | @expanded _ _ e found hfound =>
    obtain rfl := Option.some.inj (hload.symm.trans hfound)
    have htries : Tries store l.id (expand cfg store l.id l.base e found) (Pursues store) :=
      tries_expand cfg l.base e found
    have hproceeds : Proceeds store l.id (expand cfg store l.id l.base e found) :=
      proceeds_expand cfg l.base e found
    have hlulls : Lulls s (expand cfg store l.id l.base e found s).2 := .meanwhile (hproceeds s).1
    cases hwork : expand cfg store l.id l.base e found s with
    | mk outcome s' =>
      rw [hwork] at hlulls
      obtain ⟨-, hoff, more, hjournal, hpursues⟩ := htries s s' outcome hrecorded hwork
      have hmeanwhile : Charted store F s' := h.lulls hlulls
      obtain ⟨turns, hconclude⟩ := conclude_eq s' l outcome
      rw [hconclude]
      refine ⟨_, .setLoad more (hmeanwhile.conclude (hlulls.queries.started ▸ hstarted)
        ⟨(F.loads l.id).made ++ more.zipIdx s.asked, some (.ok found), some outcome,
          (F.loads l.id).isOver⟩
        (hgrows (List.prefix_append _ _) rfl rfl) rfl rfl (fun l' hl' hid => ?_)
        (h.loads l hl).own turns) (hgrows (List.prefix_append _ _) rfl rfl) rfl hjournal⟩
      refine .resumed (hopened hmeanwhile hl' hid) hpursues fun signal reason haborted => ?_
      refine not_wanted_of_calledOff? (signal, reason) (hlulls.ids ▸ hdistinct) hl' ?_
      rw [hid]
      exact hoff signal reason haborted

/-! ## Loads that turn to the graph -/

/-- A load with base issues finds out what it is to go on with. -/
theorem turn (h : Charted store F s) (hbegun : F.loads load = ⟨made, none, none, isOver⟩)
    (hne : made ≠ []) (own : List (Inquiry × Nat)) (graph : Except LoadFailure Graph)
    (hsourced : ∀ l ∈ s.loads, l.id = load → Sourced store (¬ l.Wanted s) own graph) :
    Charted store (F.setLoad load ⟨made ++ own, some graph, none, isOver⟩) s := by
  have hstarted : load < s.queries.started := by
    refine h.started fun hblank => ?_
    rw [hbegun] at hblank
    exact hne (congrArg Chart.made hblank)
  refine h.setLoad hstarted ?_ (fun l hl hid => ?_) fun hover => h.isOver load ?_
  · rw [hbegun]
    exact .of_unknown rfl rfl (List.prefix_append _ _) id
  · have hlawful := (h.loads l hl).lawful
    rw [hid, hbegun] at hlawful
    exact .waiting ⟨made, own, hlawful.exists_based hne rfl rfl, hsourced l hl hid, rfl⟩
  · rw [hbegun]
    exact hover

theorem awaitGraph (h : Charted store F s) {g : Nat} (hg : F.graphs g = some n)
    (hsource : (F.loads load).source = some (graphOf store n)) :
    Charted store F (awaitGraph s g load) := by
  have hwaits := h.setGraphLoad load (some g)
  refine hwaits.setGraphs s.graphs h.underWay h.unasked (s.graphWaiters ++ [(g, load)]) ?_
  intro w hw
  obtain hold | hnew := List.mem_append.mp hw
  · exact .inl hold
  · obtain rfl := List.mem_singleton.mp hnew
    exact .inr ⟨n, hg, hsource⟩

/-- A load asks for the graph. The load of the graph ends later, with what the statement gives now. -/
theorem askGraph (h : Charted store F s) (hrecorded : s.Recorded)
    (hbegun : F.loads load = ⟨made, none, none, isOver⟩) (hne : made ≠ [])
    {graphs : ReadThrough Unit Graph} {f : Flight Unit} (hid : f.id = s.graphs.started)
    (hflights : graphs.flights = s.graphs.flights ++ [f])
    (hstarted : graphs.started = s.graphs.started + 1) :
    let (graph, s') := staged .graph (loadGraph store) { s with graphs := graphs }
    ∃ F', Advances store (some load) F F' s (Engine.awaitGraph
        (s'.schedule 0 (.settleGraph s.graphs.started graph)) s.graphs.started load) ∧
      (F'.loads load).fate = none := by
  let chart : Chart := ⟨made ++ [(.graph, s.asked)], some (graphOf store s.asked), none, isOver⟩
  let F' := (F.setLoad load chart).setGraph s.graphs.started s.asked
  have hknown : F'.graphs s.graphs.started = some s.asked := Charts.setGraph_self _ _ _
  have hchart : F'.loads load = chart := Charts.setLoad_self _ _ _
  -- first the chart of the load takes the inquiry, then the chart of the graphs knows its number
  have hturned : Charted store (F.setLoad load chart) s :=
    h.turn hbegun hne [(.graph, s.asked)] _ fun _ _ _ => .inr ⟨s.asked, rfl, rfl⟩
  have hmem : (.graph, s.asked) ∈ ((F.setLoad load chart).loads load).made := by
    rw [Charts.setLoad_self]
    exact List.mem_append_right made (List.mem_singleton_self _)
  have hflying : Charted store F' { s with graphs := graphs } :=
    hturned.startGraph hid hflights hstarted hmem
  have hgrows : F.Grows F' := by
    refine (Charts.grows_setLoad ?_).trans
      (Charts.grows_setGraph (hturned.unasked _ (Nat.le_refl _)) _)
    rw [hbegun]
    exact .of_unknown rfl rfl (List.prefix_append _ _) id
  have hasked := hflying.lulls (.meanwhile (meanwhile_loadGraph store { s with graphs := graphs }))
  have htries : Tries store load (staged .graph (loadGraph store)) _ := tries_loadGraph
  cases hwork : staged .graph (loadGraph store) { s with graphs := graphs } with
  | mk graph s' =>
    rw [hwork] at hasked
    obtain ⟨-, -, _, hjournal, rfl, rfl⟩ :=
      htries { s with graphs := graphs } s' graph hrecorded hwork
    have hends := hasked.schedule 0 (.settleGraph s.graphs.started (graphOf store s.asked))
      ⟨s.asked, hknown, rfl⟩
    have hwaits := hends.awaitGraph hknown (congrArg Chart.source hchart)
    refine ⟨F', ⟨hgrows, hwaits, fun k hk => ?_, [.graph], fun k hk => ?_, hjournal⟩, ?_⟩
    · show ((F.setLoad load chart).loads k).made = _ ∧ ((F.setLoad load chart).loads k).fate = _
      rw [Charts.setLoad_of_ne F chart fun hsame => hk (congrArg some hsame.symm)]
      exact ⟨rfl, rfl⟩
    · obtain rfl := Option.some.inj hk
      rw [hchart, hbegun]
      rfl
    · rw [hchart]

theorem requestGraph (cfg : Settings) (h : Charted store F s) (hrecorded : s.Recorded)
    (hbegun : F.loads load = ⟨made, none, none, isOver⟩) (hne : made ≠ []) :
    ∃ F', Advances store (some load) F F' s (requestGraph cfg store s load) ∧
      (F'.loads load).fate = none := by
  have hstored := ReadThrough.Subsides.stored s.graphs true () (some cfg.ttl) s.now
  unfold Engine.requestGraph
  obtain ⟨found, -, hrequest⟩ | ⟨f, hf, hrequest⟩ | ⟨-, hrequest⟩ :=
    ReadThrough.request_cases s.graphs true () (some cfg.ttl) s.now
  · -- the graph is kept
    rw [hrequest]
    have hlulls : Lulls s { s with graphs := (s.graphs.stored true () (some cfg.ttl) s.now).2 } :=
      .of_same rfl rfl rfl (.refl _) hstored rfl rfl
    have hread := (h.lulls hlulls).turn hbegun hne [] (.ok found)
      fun _ _ _ => .inl ⟨rfl, .inl ⟨found, rfl⟩⟩
    exact Advances.exists_turned hbegun [] (hread.schedule 0 (.resume load (.ok found))
      (congrArg Chart.source (Charts.setLoad_self F load _))) (List.append_nil _).symm
  · -- a load of the graph is under way
    rw [hrequest]
    obtain ⟨hmem, hattached, -⟩ := ReadThrough.mem_of_attached? hf
    obtain ⟨n, hn⟩ := h.underWay f hmem hattached
    have hlulls : Lulls s { s with
        graphs := (s.graphs.stored true () (some cfg.ttl) s.now).2.modify f.id fun f =>
          { f with waiters := f.waiters + 1 } } :=
      .of_same rfl rfl rfl (.refl _) (hstored.trans (.join _ f.id)) rfl rfl
    have hread := (h.lulls hlulls).turn hbegun hne [] (graphOf store n)
      fun _ _ _ => .inl ⟨rfl, .inr (.inl ⟨n, rfl⟩)⟩
    exact Advances.exists_turned hbegun [] (hread.awaitGraph hn
      (congrArg Chart.source (Charts.setLoad_self F load _))) (List.append_nil _).symm
  · -- a load of the graph starts
    rw [hrequest]
    exact h.askGraph hrecorded hbegun hne
      (f := ⟨s.graphs.started, (), some cfg.ttl, 1, 0, true⟩) rfl rfl rfl

theorem fetchOwnGraph (h : Charted store F s) (hrecorded : s.Recorded)
    (hbegun : F.loads load = ⟨made, none, none, isOver⟩) (hne : made ≠ []) :
    ∃ F', Advances store (some load) F F' s (fetchOwnGraph store s load) ∧
      (F'.loads load).fate = none := by
  have hasked := h.lulls (.meanwhile (meanwhile_loadGraph store s))
  have htries : Tries store load (staged .graph (loadGraph store)) _ := tries_loadGraph
  unfold Engine.fetchOwnGraph
  cases hwork : staged .graph (loadGraph store) s with
  | mk graph s' =>
    rw [hwork] at hasked
    obtain ⟨-, -, _, hjournal, rfl, hresult⟩ := htries _ s' graph hrecorded hwork
    have hturned := hasked.turn hbegun hne [(.graph, s.asked)] graph
      fun _ _ _ => .inr ⟨s.asked, rfl, hresult⟩
    exact Advances.exists_turned hbegun [.graph] (hturned.schedule 2 (.resume load graph)
      (congrArg Chart.source (Charts.setLoad_self F load _))) hjournal

theorem turnToGraph (cfg : Settings) (h : Charted store F s) (hrecorded : s.Recorded)
    (hdistinct : (s.loads.map Load.id).Nodup)
    (hbegun : F.loads l.id = ⟨made, none, none, isOver⟩) (hne : made ≠ []) :
    ∃ F', Advances store (some l.id) F F' s (turnToGraph cfg store s l) ∧
      (F'.loads l.id).fate = none := by
  unfold Engine.turnToGraph
  split
  · rename_i signal reason hoff
    have hturned := h.turn hbegun hne [] (.error (.aborted signal reason))
      fun l' hl' hid => .inl ⟨rfl, .inr (.inr ⟨signal, reason, rfl,
        not_wanted_of_calledOff? _ hdistinct hl' (hid ▸ hoff)⟩)⟩
    exact Advances.exists_turned hbegun [] (hturned.schedule 0 (.resume l.id _)
      (congrArg Chart.source (Charts.setLoad_self F l.id _))) (List.append_nil _).symm
  · split
    · exact h.requestGraph cfg hrecorded hbegun hne
    · exact h.fetchOwnGraph hrecorded hbegun hne

/-! ## Loads that start -/

/-- A load is added for which nothing has been done. -/
theorem addLoad (h : Charted store F s) {control : Control} (hcheck : q.check = .ok ())
    (hblank : F.loads load = .blank isOver)
    (hown : ∀ i signal, control = .own i signal → F.server i = some load ∧ isOver = true) :
    Charted store F { s with loads := s.loads ++ [⟨load, q, control, [], none, [], none⟩] } :=
  { h with
    loads := by
      intro l hl
      obtain hold | hnew := List.mem_append.mp hl
      · exact h.loads l hold
      · obtain rfl := List.mem_singleton.mp hnew
        exact
          { check := hcheck
            lawful := by
              rw [hblank]
              exact .blank isOver
            ended := by simp
            subscribers := by simp
            own := by
              rw [hblank]
              exact hown } }

/-- The base issues of a load have been asked for, and there are some. -/
theorem setBase (h : Charted store F s) (hstarted : load < s.queries.started)
    (hblank : F.loads load = .blank isOver) (base : List Issue)
    (hbased : ∀ l ∈ s.loads, l.id = load → Based store l.query base made) :
    Charted store (F.setLoad load ⟨made, none, none, isOver⟩)
      (s.modifyLoad load fun l => { l with base := base }) := by
  have hmodified : Charted store F (s.modifyLoad load fun l => { l with base := base }) := by
    refine h.modifyLoad load fun l hl hid => { h.loads l hl with lawful := ?_ }
    show Lawful store l.query base _ (F.loads l.id)
    rw [hid, hblank]
    exact .blank isOver
  refine hmodified.setLoad hstarted ?_ (fun l' hl' hid => ?_) fun hover =>
    h.isOver load (by rw [hblank]; exact hover)
  · rw [hblank]
    exact .of_unknown rfl rfl List.nil_prefix id
  · obtain ⟨l, hl, rfl⟩ := List.mem_map.mp hl'
    by_cases hload : l.id = load
    · rw [if_pos hload]
      exact .based (hbased l hl hload)
    · rw [if_neg hload] at hid
      exact absurd hid hload

/-- What is known of a state in which a load that was new in the one before has asked for its base
issues: these inquiries, with this result. -/
structure BaseAsked (store : Store) (F : Charts) (s s' : State) (load : Nat) (q : Query) (isOver : Bool)
    (first : List Inquiry) (result : Except LoadFailure (List Issue)) : Prop where
  charted : Charted store F s'
  recorded : s'.Recorded
  distinct : (s'.loads.map Load.id).Nodup
  started : load < s'.queries.started
  blank : F.loads load = .blank isOver
  gathers : ∃ selection, q.select = .ok selection ∧
    Gathers store (.selected selection) s.asked first result
  journal : s'.journal = s.journal ++ (first.zipIdx s.asked).map fun p => p.1.entry store p.2
  calledOff : ∀ signal reason, result = .error (.aborted signal reason) →
    s'.calledOff? load = some (signal, reason)
  itself : ∀ l ∈ s'.loads, l.id = load → l.query = q ∧ l.base = []

/-- A load is added and asks for its base issues. -/
theorem fetchBase (h : Charted store F s) (hrecorded : s.Recorded)
    (hdistinct : (s.loads.map Load.id).Nodup) (hnew : ∀ l' ∈ s.loads, l'.id ≠ load)
    (hstarted : load < s.queries.started) (hcheck : q.check = .ok ())
    (hblank : F.loads load = .blank isOver) (control : Control)
    (hown : ∀ i signal, control = .own i signal → F.server i = some load ∧ isOver = true)
    (hon : control = .shared none ∨
      ∃ call signal, control = .own call signal ∧ s.reason? signal = none)
    {result : Except LoadFailure (List Issue)}
    (hwork : fetchBase store load q
      { s with loads := s.loads ++ [⟨load, q, control, [], none, [], none⟩] } = (result, s')) :
    ∃ first, BaseAsked store F s s' load q isOver first result := by
  let l : Load := ⟨load, q, control, [], none, [], none⟩
  let added : State := { s with loads := s.loads ++ [l] }
  obtain ⟨selection, hselect⟩ := Query.select_of_check hcheck
  have hon' : added.calledOff? load = none := calledOff?_added s (l := l) hnew hon
  -- a load that has just begun is not called off, so the statement is made
  have hfetch := fetchBase_eq store hselect hon'
  have htries : Tries store load (fetch store load (.selected selection))
      (Gathers store (.selected selection)) := tries_fetch (a := .selected selection) rfl
  obtain ⟨hrecorded', hoff, first, hjournal, hgathers⟩ :=
    htries added s' result hrecorded (hfetch.symm.trans hwork)
  have hmeanwhile := meanwhile_fetchBase store load q added
  rw [hwork] at hmeanwhile
  have hlulls : Lulls added s' := .meanwhile hmeanwhile
  exact ⟨first,
    { charted := (h.addLoad hcheck hblank hown).lulls hlulls
      recorded := hrecorded'
      distinct := by
        rw [hlulls.ids]
        exact ReadThrough.nodup_map_concat hdistinct hnew
      started := hlulls.queries.started ▸ hstarted
      blank := hblank
      gathers := ⟨selection, hselect, hgathers⟩
      journal := hjournal
      calledOff := hoff
      itself := fun l' hl' hid => hlulls.added hnew hl' hid }⟩

namespace BaseAsked

variable {first : List Inquiry} {result : Except LoadFailure (List Issue)}

theorem made_ne_nil (h : BaseAsked store F s s' load q isOver first result) :
    first.zipIdx s.asked ≠ [] := by
  obtain ⟨selection, -, hgathers⟩ := h.gathers
  cases hgathers <;> simp [batch]

theorem grows (h : BaseAsked store F s s' load q isOver first result)
    {source : Option (Except LoadFailure Graph)} {fate : Option (Except LoadFailure Outcome)} :
    (F.loads load).Grows ⟨first.zipIdx s.asked, source, fate, isOver⟩ := by
  rw [h.blank]
  exact .of_unknown rfl rfl List.nil_prefix id

theorem made_eq (h : BaseAsked store F s s' load q isOver first result) :
    first.zipIdx s.asked = (F.loads load).made ++ first.zipIdx s.asked := by
  rw [h.blank]
  rfl

/-- The load does not go on to a graph: it failed, it is not to expand, or it found nothing. -/
theorem concludeEarly (h : BaseAsked store F s s' load q isOver first result)
    (hends : EndsEarly q result outcome) (expanding : Bool) {control : Control}
    (hown : ∀ i signal, control = .own i signal → F.server i = some load ∧ isOver = true) :
    ∃ F', Advances store (some load) F F' s
        (Engine.concludeEarly s' ⟨load, q, control, [], none, [], none⟩ expanding outcome) ∧
      (F'.loads load).made ≠ [] ∧ (F'.loads load).source = none := by
  obtain ⟨turns, hconclude⟩ :=
    concludeEarly_eq s' ⟨load, q, control, [], none, [], none⟩ expanding outcome
  rw [hconclude]
  have hended := h.charted.conclude (l := ⟨load, q, control, [], none, [], none⟩) h.started
    ⟨first.zipIdx s.asked, none, some outcome, isOver⟩ h.grows (by rw [h.blank]; rfl) rfl
    (fun l hl hid => ?_) (by rw [h.blank]; exact hown) turns
  · refine ⟨_, .setLoad first hended h.grows h.made_eq h.journal, ?_, ?_⟩
    · rw [Charts.setLoad_self]
      exact h.made_ne_nil
    · rw [Charts.setLoad_self]
  · obtain ⟨selection, hselect, hgathers⟩ := h.gathers
    obtain ⟨hquery, hbase⟩ := h.itself l hl hid
    rw [hquery]
    -- a load that stops for an abort has been called off, so nobody wants it
    refine .early hselect hgathers hends hbase fun signal reason haborted => ?_
    refine not_wanted_of_calledOff? (signal, reason) h.distinct hl ?_
    rw [hid]
    exact h.calledOff signal reason haborted

/-- The load keeps its base issues and turns to the graph. -/
theorem turnToGraph (cfg : Settings) (h : BaseAsked store F s s' load q isOver first (.ok base))
    (hrecorded : s.Recorded) (hsome : base ≠ []) (hexpands : q.expansion ≠ none)
    (control : Control) :
    ∃ F', Advances store (some load) F F' s (Engine.turnToGraph cfg store
        (s'.modifyLoad load fun l => { l with base := base })
        ⟨load, q, control, [], none, [], none⟩) ∧
      (F'.loads load).made ≠ [] ∧ (F'.loads load).fate = none := by
  let chart : Chart := ⟨first.zipIdx s.asked, none, none, isOver⟩
  let based : State := s'.modifyLoad load fun l => { l with base := base }
  have hset : Charted store (F.setLoad load chart) based := by
    refine h.charted.setBase h.started h.blank base fun l hl hid => ?_
    obtain ⟨selection, hselect, hgathers⟩ := h.gathers
    rw [(h.itself l hl hid).1]
    exact ⟨hexpands, hsome, selection, first, s.asked, hselect, hgathers, rfl⟩
  have hbased : Advances store (some load) F (F.setLoad load chart) s based :=
    .setLoad first hset h.grows h.made_eq h.journal
  have hchart : (F.setLoad load chart).loads load = chart := Charts.setLoad_self _ _ _
  have hids : based.loads.map Load.id = s'.loads.map Load.id :=
    Faithful.modifyLoad_ids fun _ _ _ => rfl
  obtain ⟨F', hadvances, hfate⟩ :=
    hset.turnToGraph (l := ⟨load, q, control, [], none, [], none⟩) cfg h.recorded
      (hids ▸ h.distinct) hchart h.made_ne_nil
  refine ⟨F', hbased.trans hadvances hrecorded h.recorded, ?_, hfate⟩
  exact (hadvances.grows.loads load).made_ne_nil (by rw [hchart]; exact h.made_ne_nil)

end BaseAsked

theorem startLoad (cfg : Settings) (h : Charted store F s) (hrecorded : s.Recorded)
    (hdistinct : (s.loads.map Load.id).Nodup) (hnew : ∀ l' ∈ s.loads, l'.id ≠ load)
    (hstarted : load < s.queries.started) (hcheck : q.check = .ok ())
    (hblank : F.loads load = .blank isOver) (control : Control)
    (hown : ∀ i signal, control = .own i signal → F.server i = some load ∧ isOver = true)
    (hon : control = .shared none ∨
      ∃ call signal, control = .own call signal ∧ s.reason? signal = none) :
    ∃ F', Advances store (some load) F F' s
        (startLoad cfg store s ⟨load, q, control, [], none, [], none⟩) ∧
      (F'.loads load).made ≠ [] ∧
      ((F'.loads load).source = none ∨ (F'.loads load).fate = none) := by
  let l : Load := ⟨load, q, control, [], none, [], none⟩
  have hcases := startLoad_cases cfg store s l
  cases hwork : Engine.fetchBase store load q { s with loads := s.loads ++ [l] } with
  | mk result s' =>
    obtain ⟨first, hasked⟩ := h.fetchBase hrecorded hdistinct hnew hstarted hcheck hblank control
      hown hon hwork
    simp only [l, hwork] at hcases
    obtain ⟨expanding, outcome, hends, hstart⟩ | ⟨base, e, hbase, hsome, hexpands, hstart⟩ := hcases
    · obtain ⟨F', hadvances, hne, hsource⟩ := hasked.concludeEarly hends expanding hown
      exact ⟨F', hstart ▸ hadvances, hne, .inl hsource⟩
    · obtain rfl : result = .ok base := hbase
      obtain ⟨F', hadvances, hne, hfate⟩ := hasked.turnToGraph cfg hrecorded hsome
        (hexpands ▸ Option.some_ne_none e) control
      exact ⟨F', hstart ▸ hadvances, hne, .inr hfate⟩

/-! ## Calls -/

/-- A call is made, and no load serves it yet. -/
theorem addCall (h : Charted store F s) (text : Text) (signal : Option Text) (texts : List Text)
    (queries : ReadThrough Text Outcome)
    (hover : ∀ load, (F.loads load).isOver = true → Detached queries load)
    (hstarted : s.queries.started ≤ queries.started) :
    Charted store F (s.made text signal texts queries) :=
  { h with
    calls := by
      intro i c hc
      obtain hold | ⟨-, rfl⟩ := getElem?_concat_cases hc
      · exact h.calls i c hold
      · exact ⟨by simp, by simp⟩
    isOver := hover
    unstarted := fun load hload => h.unstarted load (Nat.le_trans hstarted hload)
    unmade := by
      intro i hi
      have hlength : (s.made text signal texts queries).calls.length = s.calls.length + 1 :=
        List.length_append
      exact h.unmade i (by omega) }

/-- A call that has just been made is to be served by a load. -/
theorem serve (ht : Traced store m s) {queries : ReadThrough Text Outcome} {texts : List Text}
    (h : Charted store F (s.made text signal texts queries)) (hfree : F.server s.calls.length = none)
    (load : Nat) :
    Charted store (F.setServer s.calls.length load) (s.made text signal texts queries) := by
  have hlength : (s.made text signal texts queries).calls.length = s.calls.length + 1 :=
    List.length_append
  refine h.setServer (by omega) hfree (fun c hc => ?_) (fun outcome => ⟨?_, ?_⟩) load
  · obtain hold | ⟨-, rfl⟩ := getElem?_concat_cases hc
    · obtain ⟨hless, -⟩ := List.getElem?_eq_some_iff.mp hold
      exact absurd hless (Nat.lt_irrefl _)
    · rfl
  -- the jobs on the agenda are for earlier calls
  · intro hj
    obtain ⟨c, hc, -⟩ := ht.jobs (.deliver s.calls.length outcome) hj
    exact absurd (List.getElem?_eq_some_iff.mp hc).1 (Nat.lt_irrefl _)
  · intro hj
    obtain ⟨c, hc, -⟩ := ht.jobs (.finish s.calls.length outcome) hj
    exact absurd (List.getElem?_eq_some_iff.mp hc).1 (Nat.lt_irrefl _)

/-- A call waits for the load that serves it. -/
theorem join (h : Charted store F s) (hserver : F.server i = some load) :
    Charted store F (join s i load) := by
  have hwaits (listening : Bool) : Charted store F (s.modifyCall i fun c =>
      { c with load := some load, listening := listening }) := by
    refine h.modifyCall i fun c hc => ⟨fun load' hload => ?_, (h.calls i c hc).settled⟩
    obtain rfl := Option.some.inj hload
    exact hserver
  obtain hjoin | hjoin := join_cases s i load <;> rw [hjoin]
  · refine (hwaits _).modifyLoad load fun l hl hid => { (hwaits _).loads l hl with
      subscribers := fun k hk => ?_ }
    obtain hold | hnew := List.mem_append.mp hk
    · exact ((hwaits _).loads l hl).subscribers k hold
    · rw [List.mem_singleton.mp hnew, hid]
      exact hserver
  · exact (hwaits _).schedule 0 (.subscribe i) trivial

/-- A call starts a load that other calls of the text can join. -/
theorem callShared (cfg : Settings) (h : Charted store F s) (ht : Traced store m s)
    (signal : Option Text) (texts : List Text) {queries : ReadThrough Text Outcome} {f : Flight Text}
    (hquery : readQuery text = .ok q) (hstarted : queries.started = s.queries.started + 1)
    (hid : f.id = s.queries.started) (hflights : queries.flights = s.queries.flights ++ [f]) :
    ∃ F', Advances store (some s.queries.started) F F' s
        (Engine.join (Engine.startLoad cfg store (s.made text signal texts queries)
          ⟨s.queries.started, q, .shared none, [], none, [], none⟩) s.calls.length
          s.queries.started) ∧
      (F'.loads s.queries.started).made ≠ [] ∧
      ((F'.loads s.queries.started).source = none ∨ (F'.loads s.queries.started).fate = none) := by
  have hfree : F.server s.calls.length = none := h.unmade _ (Nat.le_refl _)
  have hmade := h.addCall text signal texts queries (fun load hover => ?_) (by omega)
  · have hserved := serve ht hmade hfree s.queries.started
    have hserver := Charts.setServer_self F s.calls.length s.queries.started
    obtain ⟨F', hadvances, hne, hcourse⟩ := hserved.startLoad cfg ht.recorded ht.distinct
      ht.fresh_started (Nat.lt_of_lt_of_eq (Nat.lt_succ_self _) hstarted.symm)
      (check_of_readQuery hquery) (h.unstarted _ (Nat.le_refl _)) (.shared none) (by simp) (.inl rfl)
    have hidle : Advances store (some s.queries.started) F _ s _ :=
      .idle (Charts.grows_setServer hfree s.queries.started) hserved (fun _ => ⟨rfl, rfl⟩) rfl
    exact ⟨F', (hidle.trans hadvances ht.recorded ht.recorded).before
      (hadvances.charted.join (hadvances.grows.server _ _ hserver)) (join_journal ..), hne, hcourse⟩
  · -- loads that are over have started before
    obtain ⟨hless, hattached⟩ := h.isOver load hover
    refine ⟨by omega, fun g hg hgid => ?_⟩
    rw [hflights] at hg
    obtain hold | hnew := List.mem_append.mp hg
    · exact hattached g hold hgid
    · rw [List.mem_singleton.mp hnew, hid] at hgid
      omega

/-- A call starts a load of its own, which nobody ever joins. -/
theorem callOwn (cfg : Settings) (h : Charted store F s) (ht : Traced store m s)
    (texts : List Text) (hquery : readQuery text = .ok q) (hquiet : s.reason? signal = none) :
    ∃ F', Advances store (some s.queries.started) F F' s
        (Engine.startLoad cfg store (s.made text signal texts s.queries.startUnshared.2)
          ⟨s.queries.started, q, .own s.calls.length signal, [], none, [], none⟩) ∧
      (F'.loads s.queries.started).made ≠ [] ∧
      ((F'.loads s.queries.started).source = none ∨ (F'.loads s.queries.started).fate = none) := by
  have hfree : F.server s.calls.length = none := h.unmade _ (Nat.le_refl _)
  have hblank : F.loads s.queries.started = .blank false := h.unstarted _ (Nat.le_refl _)
  have hmade := h.addCall text signal texts s.queries.startUnshared.2 (fun load hover =>
    ⟨Nat.lt_succ_of_lt (h.isOver load hover).started, (h.isOver load hover).flights⟩) (Nat.le_succ _)
  have hserved := serve ht hmade hfree s.queries.started
  -- no caller can join this load, so its chart is over from the start
  have hdetached : Detached s.queries.startUnshared.2 s.queries.started := by
    refine ⟨Nat.lt_succ_self _, fun f hf hid => ?_⟩
    cases hattached : f.attached with
    | false => rfl
    | true =>
      obtain ⟨l, hl, hlid, -⟩ := ht.joinable f hf hattached
      exact absurd (hlid.trans hid) (ht.fresh_started l hl)
  have hgrows : (F.loads s.queries.started).Grows (.blank true) := by
    rw [hblank]
    exact .of_unknown rfl rfl (List.prefix_refl _) fun _ => rfl
  have hover : Charted store ((F.setServer s.calls.length s.queries.started).setLoad
      s.queries.started (.blank true)) _ :=
    hserved.setLoad (Nat.lt_succ_self _) hgrows (fun _ _ _ => .blank true) fun _ => hdetached
  have hown : ∀ i signal', Control.own s.calls.length signal = .own i signal' →
      (F.setServer s.calls.length s.queries.started).server i = some s.queries.started ∧
        true = true := by
    intro i signal' hsame
    obtain ⟨rfl, -⟩ := Control.own.inj hsame
    exact ⟨Charts.setServer_self F _ _, rfl⟩
  obtain ⟨F', hadvances, hne, hcourse⟩ := hover.startLoad cfg ht.recorded ht.distinct
    ht.fresh_started (Nat.lt_succ_self _) (check_of_readQuery hquery) (Charts.setLoad_self _ _ _)
    (.own s.calls.length signal) hown (.inr ⟨s.calls.length, signal, rfl, hquiet⟩)
  refine ⟨F', Advances.trans (.idle ((Charts.grows_setServer hfree s.queries.started).trans
    (Charts.grows_setLoad hgrows)) hover (fun k => ?_) rfl) hadvances ht.recorded ht.recorded,
    hne, hcourse⟩
  by_cases hk : k = s.queries.started
  · rw [hk, Charts.setLoad_self, hblank]
    exact ⟨rfl, rfl⟩
  · rw [Charts.setLoad_of_ne _ _ hk]
    exact ⟨rfl, rfl⟩

/-- The charts go on with a call. A load that it starts has asked something, and has not gone on with a
graph yet. -/
theorem called (h : Charted store F s) (ht : Traced store m s)
    (hcalled : Called cfg store s text signal s') :
    ∃ F', Advances store (some s.queries.started) F F' s s' ∧
      (s'.queries.started = s.queries.started ∨ (F'.loads s.queries.started).made ≠ [] ∧
        ((F'.loads s.queries.started).source = none ∨
          (F'.loads s.queries.started).fate = none)) := by
  have hfree : F.server s.calls.length = none := h.unmade _ (Nat.le_refl _)
  have hsubsides {queries : ReadThrough Text Outcome} (hs : s.queries.Subsides queries)
      (texts : List Text) : Charted store F (s.made text signal texts queries) :=
    h.addCall text signal texts queries (fun load hover => (h.isOver load hover).subsides hs)
      (Nat.le_of_eq hs.started.symm)
  cases hcalled with
  -- without a load the call has no server, so nothing is claimed of what it gets
  | rejected texts rejection lines hcause =>
    have hmade := hsubsides (.refl _) texts
    have hsettled : Charted store F ((s.made text signal texts s.queries).settleCall s.calls.length
        (.error rejection)) := by
      refine hmade.modifyCall _ fun c hc => ⟨(hmade.calls _ c hc).joined, ?_⟩
      exact fun _ _ _ load hload => nomatch hfree.symm.trans hload
    exact ⟨F, .of_charted (hsettled.lulls
      (.of_same rfl rfl rfl (.refl _) (.refl _) rfl rfl)) rfl, .inl rfl⟩
  | kept texts queries out hon hqueries hholds =>
    refine ⟨F, .of_charted ((hsubsides hqueries texts).schedule 0 _ ?_) rfl,
      .inl hqueries.started⟩
    exact fun load hload => nomatch hfree.symm.trans hload
  | joined texts queries load hon hqueries =>
    have hserved := serve ht (hsubsides hqueries texts) hfree load
    refine ⟨_, .idle (Charts.grows_setServer hfree load)
      (hserved.join (Charts.setServer_self F _ load)) (fun _ => ⟨rfl, rfl⟩) (join_journal ..), .inl ?_⟩
    rw [join_queries]
    exact hqueries.started
  | shared texts queries q hon hquery hstarted hholds hflights =>
    obtain ⟨f, hid, hflights⟩ := hflights
    obtain ⟨F', hadvances, hbegun⟩ :=
      h.callShared cfg ht signal texts hquery hstarted hid hflights
    exact ⟨F', hadvances, .inr hbegun⟩
  | own texts q hoff hquery hquiet =>
    obtain ⟨F', hadvances, hbegun⟩ := h.callOwn cfg ht texts hquery hquiet
    exact ⟨F', hadvances, .inr hbegun⟩

end Charted

end IssueQuery.Engine
