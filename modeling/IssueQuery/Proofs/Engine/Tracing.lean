import IssueQuery.Proofs.Engine.Loads
import IssueQuery.Proofs.Engine.Traced

/-!
# Jobs and loads keep an engine traced

Whatever a job does, it passes on what it was given or what it fetches itself. A job that was put on
the agenda before the mark may pass on something old, but it passes it on to loads and calls from
before the mark only.

* `Traced.perform`    a job;
* `Traced.startLoad`  a load that starts;
* `Traced.join`       a call that joins a load.
-/

namespace IssueQuery.Engine

variable {store : Store} {cfg : Settings} {m : Mark} {s s' : State} {l l' : Load} {c : Call}
  {job : Job} {i id g : Nat} {text : Text} {q : Query} {draws : Draws}
  {outcome : Except LoadFailure Outcome} {graph : Except LoadFailure Graph}

/-- What work of a traced engine provides comes from rows given since the mark. -/
theorem Provides.gets {ε α : Type} {work : Work ε α} {Gets : Draws → α → Prop}
    (h : Provides store work Gets) (hs : Traced store m s) {a : α} (ha : (work s).1 = .ok a) :
    Gets ((work s).2.drawn store m.statements) a :=
  (h s hs.recorded).2 a ha _ (drawn_within (List.prefix_refl _) hs.passed.statements)

/-- The job with which a load ends tells what the load gives. -/
theorem endJob_traced (hl : l ∈ s.loads)
    (hown : ∀ i signal, l.control = .own i signal →
      ∃ c, s.calls[i]? = some c ∧ l.Suits m i c.text)
    (hgives : ∀ out, outcome = .ok out → l.Fresh m → draws.Gives l.query out) :
    (endJob l outcome).Traced m draws s := by
  unfold endJob
  split
  · exact ⟨l, hl, rfl, hgives⟩
  · rename_i call signal hcontrol
    obtain ⟨c, hc, hsuits⟩ := hown call signal hcontrol
    exact ⟨c, hc, fun out hout => hsuits.tells (hgives out hout)⟩

/-- A job that is told of later is still what it was. -/
theorem Job.Traced.retained (h : job.Traced m draws s) (hs : Retains s s') :
    job.Traced m draws s' :=
  h.mono (.refl draws) hs

namespace Traced

/-! ## Calls are told -/

theorem addSubscriber (h : Traced store m s) (hc : s.calls[i]? = some c)
    (hsuits : ∀ l ∈ s.loads, l.id = id → l.Suits m i c.text) :
    Traced store m
      (s.modifyLoad id fun l => { l with subscribers := l.subscribers ++ [i] }) := by
  refine h.modifyLoad (fun _ => ⟨rfl, rfl⟩) fun l hl hid => ?_
  have htraced := h.loads l hl
  refine ⟨fun hsome => hsome, htraced.based, htraced.ended, ?_, htraced.own⟩
  intro k hk
  obtain hold | hnew := List.mem_append.mp hk
  · exact htraced.subscribers k hold
  · obtain rfl := List.mem_singleton.mp hnew
    exact ⟨c, hc, hsuits l hl hid⟩

/-- The load that a call has suits it. -/
theorem suits_of_load (h : Traced store m s) (hc : s.calls[i]? = some c) (hload : c.load = some id) :
    ∀ l ∈ s.loads, l.id = id → l.Suits m i c.text := by
  intro l hl hid
  obtain ⟨l₀, hl₀, hid₀, hsuits⟩ := (h.calls i c hc).loaded id hload
  obtain rfl := h.eq_of_id hl₀ hl (hid.trans hid₀.symm)
  exact hsuits

theorem subscribe (h : Traced store m s) (hs : Performed cfg store s (.subscribe i) s') :
    Traced store m s' := by
  cases hs with
  | unserved => exact h
  | @toldLate _ c l outcome hc hload hl hended =>
    have hfinish : (Job.finish i outcome).Traced m (s.drawn store m.statements) s := by
      refine ⟨c, hc, fun out hout => (h.suits_of_load hc hload l hl rfl).tells ?_⟩
      exact (h.loads l hl).ended out (hout ▸ hended)
    exact h.schedule 1 _ hfinish
  | subscribed hc hload => exact h.addSubscriber hc (h.suits_of_load hc hload)

theorem deliver (h : Traced store m s)
    (hjob : (Job.deliver i outcome).Traced m (s.drawn store m.statements) s)
    (hs : Performed cfg store s (.deliver i outcome) s') : Traced store m s' := by
  cases hs with
  | deliveredLate => exact h
  | delivered =>
    have hdeaf : Traced store m (s.modifyCall i fun c => { c with listening := false }) :=
      h.modifyCall fun c hc => ⟨rfl, (h.calls i c hc).loaded, (h.calls i c hc).settled⟩
    -- to finish the call is to tell it the same
    have hfinish : (Job.finish i outcome).Traced m (s.drawn store m.statements) s := hjob
    exact hdeaf.schedule 1 _ (hfinish.retained (.modifyCall fun _ _ => rfl))

/-- Of the outcomes of its load a call gets none but the one it is told. -/
theorem resultOf_eq_ok {result : Result} (h : resultOf s c outcome = .ok result) :
    outcome = .ok result.outcome ∧ result.text = c.text := by
  unfold resultOf at h
  split at h
  · exact nomatch h
  · obtain rfl := Except.ok.inj h
    exact ⟨rfl, rfl⟩
  · split at h <;> exact nomatch h
  · exact nomatch h

theorem logResult (h : Traced store m s) (result : Except Rejection Result) :
    Traced store m (logResult cfg s result) := by
  unfold Engine.logResult
  split
  · exact h.frame (frame_notes s _ _ _) rfl rfl rfl
  · exact h.frame (frame_notes s _ _ _) rfl rfl rfl
  · exact h

theorem finish (h : Traced store m s)
    (hjob : (Job.finish i outcome).Traced m (s.drawn store m.statements) s)
    (hs : Performed cfg store s (.finish i outcome) s') : Traced store m s' := by
  obtain ⟨c, hc, htells⟩ := hjob
  cases hs with
  | finishedLate => exact h
  | finished _ hc₀ =>
    obtain rfl := Option.some.inj (hc.symm.trans hc₀)
    have hsettled : Traced store m (s.settleCall i (resultOf s c outcome)) := by
      apply h.modifyCall
      intro c' hc'
      obtain rfl : c = c' := Option.some.inj (hc.symm.trans hc')
      refine ⟨rfl, (h.calls i c hc).loaded, ?_⟩
      intro result hresult
      obtain ⟨houtcome, htext⟩ := resultOf_eq_ok (Option.some.inj hresult)
      exact ⟨htext, htells result.outcome houtcome⟩
    exact hsettled.logResult _

/-! ## Loads end -/

/-- The outcome of a load is kept, if callers may still join the load. -/
theorem keepOutcome (h : Traced store m s) (hl : l ∈ s.loads)
    (hgives : ∀ out, outcome = .ok out → l.Fresh m →
      (s.drawn store m.statements).Gives l.query out) :
    Traced store m { s with queries := s.queries.settle l.id outcome.toOption s.now } := by
  have hstarted : (s.queries.settle l.id outcome.toOption s.now).started = s.queries.started :=
    ReadThrough.settle_started
  exact
    { h with
      passed := { h.passed with loads := hstarted ▸ h.passed.loads }
      indexed := h.indexed.mono fun _ hhas => hhas.of_settle
      results := by
        intro text out hholds q hquery hchosen
        obtain ⟨hvalue, f, hf, hid, rfl, hattached⟩ | hold := ReadThrough.holds_settle hholds
        · obtain ⟨l', hl', hid', hquery', hnew⟩ := h.joinable f hf hattached
          obtain rfl := h.eq_of_id hl hl' (hid'.trans hid)
          obtain rfl : l'.query = q := Except.ok.inj (hquery'.symm.trans hquery)
          cases outcome with
          | error e => exact nomatch hvalue
          | ok out' =>
            obtain rfl : out' = out := Option.some.inj hvalue
            exact hgives out' rfl ⟨hnew hchosen, hchosen⟩
        · exact h.results text out hold q hquery hchosen
      joinable := fun f hf => h.joinable f (ReadThrough.mem_settle_flights.mp hf).1
      below := fun l hl => hstarted ▸ h.below l hl }

/-- The calls that a load will tell are told. -/
theorem notifyAll (h : Traced store m s) {calls : List Nat}
    (hcalls : ∀ i ∈ calls, (Job.finish i outcome).Traced m (s.drawn store m.statements) s) :
    Traced store m { s with agenda := s.agenda ++ calls.map (notice s outcome) } := by
  apply h.setAgenda
  intro p hp
  obtain hold | hnew := List.mem_append.mp hp
  · exact .inl ⟨p.1, hold⟩
  · obtain ⟨i, hi, rfl⟩ := List.mem_map.mp hnew
    right
    unfold notice
    split <;> exact hcalls i hi

theorem settle (h : Traced store m s)
    (hjob : (Job.settle id outcome).Traced m (s.drawn store m.statements) s)
    (hs : Performed cfg store s (.settle id outcome) s') : Traced store m s' := by
  obtain ⟨l, hl, rfl, hgives⟩ := hjob
  have hkept : Traced store m { s with queries := s.queries.settle l.id outcome.toOption s.now } :=
    h.keepOutcome hl hgives
  have hended : Traced store m
      ({ s with queries := s.queries.settle l.id outcome.toOption s.now }.modifyLoad l.id
        fun l => { l with ended := some outcome }) := by
    refine hkept.modifyLoad (fun _ => ⟨rfl, rfl⟩) fun l' hl' hid => ?_
    obtain rfl := h.eq_of_id hl hl' hid
    have htraced := h.loads l' hl'
    refine ⟨fun hsome => hsome, htraced.based, ?_, htraced.subscribers, htraced.own⟩
    intro out hout
    exact hgives out (Option.some.inj hout)
  cases hs with
  | settled =>
    rw [load?_eq_some h.distinct hl]
    refine hended.notifyAll fun i hi => ?_
    obtain ⟨c, hc, hsuits⟩ := (h.loads l hl).subscribers i hi
    exact ⟨c, hc, fun out hout => hsuits.tells (hgives out hout)⟩

/-! ## The graph -/

theorem keepGraph (h : Traced store m s)
    (hgives : ∀ found, graph = .ok found → m.graphLoads ≤ g →
      (s.drawn store m.statements).GivesGraph found) :
    Traced store m { s with graphs := s.graphs.settle g graph.toOption s.now } := by
  have hstarted : (s.graphs.settle g graph.toOption s.now).started = s.graphs.started :=
    ReadThrough.settle_started
  exact
    { h with
      passed := { h.passed with graphLoads := hstarted ▸ h.passed.graphLoads }
      graph := by
        intro found hholds
        obtain ⟨hvalue, f, hf, rfl, -, hattached⟩ | hold := ReadThrough.holds_settle hholds
        · cases graph with
          | error e => exact nomatch hvalue
          | ok found' =>
            obtain rfl : found' = found := Option.some.inj hvalue
            exact hgives found' rfl (h.underWay f hf hattached)
        · exact h.graph found hold
      underWay := fun f hf => h.underWay f (ReadThrough.mem_settle_flights.mp hf).1
      jobs := fun j hj => (h.jobs j hj).retained
        (.of_same (Nat.le_of_eq hstarted.symm) rfl rfl) }

theorem settleGraph (h : Traced store m s)
    (hjob : (Job.settleGraph g graph).Traced m (s.drawn store m.statements) s)
    (hs : Performed cfg store s (.settleGraph g graph) s') : Traced store m s' := by
  have hkept : Traced store m { s with graphs := s.graphs.settle g graph.toOption s.now } :=
    h.keepGraph hjob.2
  cases hs with
  | settledGraph =>
    apply hkept.setAgenda
    intro p hp
    obtain hold | hnew := List.mem_append.mp hp
    · exact .inl ⟨p.1, hold⟩
    · -- a load that waits for the load of the graph is no fresher than that
      obtain ⟨w, hw, rfl⟩ := List.mem_map.mp hnew
      obtain ⟨hmem, hg⟩ := List.mem_filter.mp hw
      obtain rfl : w.1 = g := by simpa using hg
      obtain ⟨l, hl, hid, hsome, hnew⟩ := h.waiters w hmem
      exact .inr ⟨l, hl, hid, hsome, fun found hfound hfresh =>
        hjob.2 found hfound (hnew hfresh)⟩

theorem retains_setGraphLoad (graphLoad : Option Nat) (waiters : List (Nat × Nat)) :
    Retains s { s.modifyLoad id fun l => { l with graphLoad := graphLoad } with
      graphWaiters := waiters } := by
  have hchanged : Retains s (s.modifyLoad id fun l => { l with graphLoad := graphLoad }) :=
    .modifyLoad (fun _ => ⟨rfl, rfl⟩) fun _ _ _ hsome => hsome
  exact hchanged.trans (.of_same (Nat.le_refl _) rfl rfl)

/-- It makes no difference which load of the graph a load waits for. -/
theorem setGraphLoad (h : Traced store m s) (id : Nat) (graphLoad : Option Nat) :
    Traced store m (s.modifyLoad id fun l => { l with graphLoad := graphLoad }) := by
  refine h.modifyLoad (fun _ => ⟨rfl, rfl⟩) fun l hl _ => ?_
  have htraced := h.loads l hl
  exact ⟨fun hsome => hsome, htraced.based, htraced.ended, htraced.subscribers, htraced.own⟩

theorem deliverGraph (h : Traced store m s)
    (hjob : (Job.deliverGraph id graph).Traced m (s.drawn store m.statements) s)
    (hs : Performed cfg store s (.deliverGraph id graph) s') : Traced store m s' := by
  cases hs with
  | unawaited => exact h
  | deliveredGraph =>
    have hfree : Traced store m
        { s.modifyLoad id fun l => { l with graphLoad := none } with
          graphWaiters := s.graphWaiters.filter fun w => w.2 != id } :=
      { h.setGraphLoad id none with
        waiters := fun w hw => (h.setGraphLoad id none).waiters w (List.mem_filter.mp hw).1 }
    have hresume : (Job.resume id graph).Traced m (s.drawn store m.statements) s := hjob
    exact hfree.schedule 1 _ (hresume.retained (retains_setGraphLoad none _))

/-- A load that does not start now ends. -/
theorem conclude (h : Traced store m s)
    (hjob : (endJob l outcome).Traced m (s.drawn store m.statements) s) :
    Traced store m (conclude s l outcome) := by
  obtain ⟨turns, hconclude⟩ := conclude_eq s l outcome
  rw [hconclude]
  exact h.schedule turns _ hjob

theorem resume (h : Traced store m s)
    (hjob : (Job.resume id graph).Traced m (s.drawn store m.statements) s)
    (hs : Performed cfg store s (.resume id graph) s') : Traced store m s' := by
  obtain ⟨l, hl, rfl, hsome, hgraph⟩ := hjob
  have hbase := (h.loads l hl).based
  have hown := (h.loads l hl).own
  have hload := load?_eq_some h.distinct hl
  cases hs with
  | unknown => exact h
  | graphless e hfound =>
    obtain rfl := Option.some.inj (hload.symm.trans hfound)
    exact h.conclude (endJob_traced hl hown fun _ hout => nomatch hout)
  | plain found hfound hexpansion =>
    obtain rfl := Option.some.inj (hload.symm.trans hfound)
    apply h.conclude (endJob_traced hl hown _)
    intro out hout hfresh
    obtain rfl := Except.ok.inj hout
    exact Draws.gives_of_not_expanding (hbase hfresh hsome) hexpansion
  | @expanded _ _ e found hfound hexpansion =>
    -- the expansion asks the store for the issues that it finds
    obtain rfl := Option.some.inj (hload.symm.trans hfound)
    have hprovides : Provides store (expand cfg store l.id l.base e found) _ :=
      provides_expand cfg l.base e found
    obtain ⟨hsubsides, -⟩ := hprovides s h.recorded
    have hmore : (s.drawn store m.statements).Within (State.drawn store _ m.statements) :=
      drawn_within hsubsides.journal (Nat.le_refl _)
    apply (h.subsides hsubsides).conclude
    apply (endJob_traced hl hown _).retained (.subsides hsubsides)
    intro out hout hfresh
    exact Draws.gives_of_expands ((hbase hfresh hsome).mono hmore) hsome hexpansion
      ((hgraph found rfl hfresh).mono hmore) (hprovides.gets h hout)

theorem perform (h : Traced store m s) (hjob : job.Traced m (s.drawn store m.statements) s)
    (hs : Performed cfg store s job s') : Traced store m s' := by
  cases job with
  | subscribe call => exact h.subscribe hs
  | settle load outcome => exact h.settle hjob hs
  | settleGraph graphLoad graph => exact h.settleGraph hjob hs
  | deliverGraph load graph => exact h.deliverGraph hjob hs
  | resume load graph => exact h.resume hjob hs
  | deliver call outcome => exact h.deliver hjob hs
  | finish call outcome => exact h.finish hjob hs

theorem tick (h : Traced store m s) (hs : Ticked cfg store s s') : Traced store m s' := by
  cases hs with
  | idle => exact h
  | @due job rest _ hagenda hs =>
    have hrest : Traced store m { s with agenda := rest } :=
      h.setAgenda rest fun p hp => .inl (pending_of_mem_tail hagenda p hp)
    exact hrest.perform (h.jobs job (pending_head hagenda)) hs
  | putOff hagenda =>
    exact h.setAgenda _ fun p hp => .inl (pending_putOff hagenda ▸ ⟨p.1, hp⟩)

/-! ## Loads start -/

/-- A load waits for a load of the graph that is not older than the mark. -/
theorem awaitGraph (h : Traced store m s) (hl : l ∈ s.loads) (hsome : l.base ≠ [])
    (hnew : m.graphLoads ≤ g) :
    Traced store m (awaitGraph s g l.id) ∧ Retains s (awaitGraph s g l.id) := by
  have hretains : Retains s (Engine.awaitGraph s g l.id) := retains_setGraphLoad (some g) _
  have hwaits := h.setGraphLoad l.id (some g)
  refine ⟨{ hwaits with waiters := ?_ }, hretains⟩
  intro w hw
  obtain hold | hlast := List.mem_append.mp hw
  · exact hwaits.waiters w hold
  · obtain rfl := List.mem_singleton.mp hlast
    obtain ⟨l', hl', hid, -, hbase⟩ := hretains.loads l hl
    exact ⟨l', hl', hid, hbase hsome, fun _ => hnew⟩

/-- A load of the graph starts, which later loads may join. -/
theorem startGraph (h : Traced store m s) (f : Flight Unit) (hf : f.id = s.graphs.started) :
    Traced store m { s with graphs := { s.graphs with
      flights := s.graphs.flights ++ [f], started := s.graphs.started + 1 } } :=
  { h with
    passed := { h.passed with graphLoads := Nat.le_succ_of_le h.passed.graphLoads }
    underWay := by
      intro f' hf' hattached
      obtain hold | hnew := List.mem_append.mp hf'
      · exact h.underWay f' hold hattached
      · obtain rfl := List.mem_singleton.mp hnew
        exact hf ▸ h.passed.graphLoads
    jobs := fun j hj => (h.jobs j hj).retained (.of_same (Nat.le_succ _) rfl rfl) }

theorem requestGraph (h : Traced store m s) (hl : l ∈ s.loads) (hsome : l.base ≠ []) :
    Traced store m (requestGraph cfg store s l.id) ∧
      Retains s (requestGraph cfg store s l.id) := by
  unfold Engine.requestGraph
  have hstored := ReadThrough.Subsides.stored s.graphs true () (some cfg.ttl) s.now
  obtain ⟨found, hholds, hrequest⟩ | ⟨f, hf, hrequest⟩ | ⟨-, hrequest⟩ :=
    ReadThrough.request_cases s.graphs true () (some cfg.ttl) s.now
  · -- the graph is kept
    rw [hrequest]
    dsimp only
    refine ⟨(h.setGraphs hstored).schedule 0 _ ?_,
      .of_same (Nat.le_of_eq hstored.started.symm) rfl rfl⟩
    refine ⟨l, hl, rfl, hsome, fun found' hfound' _ => ?_⟩
    obtain rfl := Except.ok.inj hfound'
    exact h.graph found hholds
  · -- a load of the graph is under way
    rw [hrequest]
    dsimp only
    obtain ⟨hmem, hattached, -⟩ := ReadThrough.mem_of_attached? hf
    have hgraphs := hstored.trans (.join _ f.id)
    obtain ⟨htraced, hretains⟩ :=
      (h.setGraphs hgraphs).awaitGraph hl hsome (h.underWay f hmem hattached)
    refine ⟨htraced, Retains.trans ?_ hretains⟩
    exact .of_same (Nat.le_of_eq hgraphs.started.symm) rfl rfl
  · rw [hrequest]
    dsimp only
    have hstarted : Traced store m { s with graphs :=
        { (s.graphs.stored true () (some cfg.ttl) s.now).2 with
          flights := s.graphs.flights ++ [⟨s.graphs.started, (), some cfg.ttl, 1, 0, true⟩]
          started := s.graphs.started + 1 } } := (h.setGraphs hstored).startGraph _ rfl
    have hprovides : Provides store (staged .graph (loadGraph store)) _ := provides_loadGraph
    obtain ⟨hsubsides, -⟩ := hprovides _ hstarted.recorded
    obtain ⟨l', hl', hid, -, hbase⟩ := (Retains.subsides hsubsides).loads l hl
    have hfetched := (hstarted.subsides hsubsides).schedule 0 (.settleGraph s.graphs.started _)
      ⟨hsubsides.graphs.started ▸ Nat.lt_succ_self _,
        fun _ hfound _ => hprovides.gets hstarted hfound⟩
    obtain ⟨htraced, hretains⟩ := hfetched.awaitGraph hl' (hbase hsome) h.passed.graphLoads
    rw [hid] at htraced hretains
    refine ⟨htraced, Retains.trans ?_ hretains⟩
    have hnoted := Retains.subsides hsubsides
    exact ⟨Nat.le_trans (Nat.le_succ _) hnoted.graphLoads, hnoted.loads, hnoted.calls⟩

theorem fetchOwnGraph (h : Traced store m s) (hl : l ∈ s.loads) (hsome : l.base ≠ []) :
    Traced store m (fetchOwnGraph store s l.id) ∧ Retains s (fetchOwnGraph store s l.id) := by
  have hprovides : Provides store (staged .graph (loadGraph store)) _ := provides_loadGraph
  obtain ⟨hsubsides, -⟩ := hprovides s h.recorded
  have hretains := Retains.subsides hsubsides
  obtain ⟨l', hl', hid, -, hbase⟩ := hretains.loads l hl
  refine ⟨(h.subsides hsubsides).schedule 2 _ ?_, hretains.trans (.of_same (Nat.le_refl _) rfl rfl)⟩
  exact ⟨l', hl', hid, hbase hsome, fun _ hfound _ => hprovides.gets h hfound⟩

/-- A load that starts now and needs no graph ends. -/
theorem concludeEarly (h : Traced store m s)
    (hjob : (endJob l outcome).Traced m (s.drawn store m.statements) s) (expanding : Bool) :
    Traced store m (concludeEarly s l expanding outcome) ∧
      Retains s (concludeEarly s l expanding outcome) := by
  obtain ⟨turns, hconclude⟩ := concludeEarly_eq s l expanding outcome
  rw [hconclude]
  exact ⟨h.schedule turns _ hjob, .of_same (Nat.le_refl _) rfl rfl⟩

/-- A load that has its base issues goes on to the graph. -/
theorem turnToGraph (cfg : Settings) (h : Traced store m s) (hl : l ∈ s.loads)
    (hsome : l.base ≠ []) (control : Control) :
    let s' := match s.calledOff? l.id with
      | some (signal, reason) => s.schedule 0 (.resume l.id (.error (.aborted signal reason)))
      | none =>
        match control with
        | .shared _ => Engine.requestGraph cfg store s l.id
        | .own .. => Engine.fetchOwnGraph store s l.id
    Traced store m s' ∧ Retains s s' := by
  dsimp only
  split
  · refine ⟨h.schedule 0 _ ?_, .of_same (Nat.le_refl _) rfl rfl⟩
    exact ⟨l, hl, rfl, hsome, fun _ hfound => nomatch hfound⟩
  · split
    · exact h.requestGraph hl hsome
    · exact h.fetchOwnGraph hl hsome

/-- A load that was added to the others starts. -/
theorem startLoad (cfg : Settings) (s : State) (l : Load)
    (h : Traced store m { s with loads := s.loads ++ [l] }) :
    Traced store m (startLoad cfg store s l) ∧
      Retains { s with loads := s.loads ++ [l] } (startLoad cfg store s l) := by
  have hl : l ∈ s.loads ++ [l] := List.mem_append_right _ (List.mem_singleton.mpr rfl)
  have hown := (h.loads l hl).own
  have hprovides : Provides store (fetchBase store l.id l.query) _ := provides_fetchBase l.query
  obtain ⟨hsubsides, -⟩ := hprovides _ h.recorded
  have hgets := fun base => hprovides.gets (a := base) h
  have hfetched := h.subsides hsubsides
  have hretains := Retains.subsides hsubsides
  unfold Engine.startLoad
  generalize fetchBase store l.id l.query { s with loads := s.loads ++ [l] } = fetched at *
  obtain ⟨base, s'⟩ := fetched
  dsimp only at hfetched hretains hgets ⊢
  -- the load is among those of the first state, and jobs may speak of it in the second
  have hend : ∀ outcome : Except LoadFailure Outcome,
      (∀ out, outcome = .ok out → (s'.drawn store m.statements).Gives l.query out) →
      (endJob l outcome).Traced m (s'.drawn store m.statements) s' := by
    intro outcome hgives
    exact (endJob_traced hl hown fun out hout _ => hgives out hout).retained hretains
  split
  · rename_i e
    obtain ⟨htraced, hretains'⟩ :=
      hfetched.concludeEarly (hend (.error e) fun _ hout => nomatch hout) false
    exact ⟨htraced, hretains.trans hretains'⟩
  · rename_i issues hexpansion
    obtain ⟨htraced, hretains'⟩ := hfetched.concludeEarly (hend (.ok ⟨issues, none⟩) <| by
      intro out hout
      obtain rfl := Except.ok.inj hout
      exact Draws.gives_of_not_expanding (hgets issues rfl) hexpansion) false
    exact ⟨htraced, hretains.trans hretains'⟩
  · rename_i e hexpansion
    obtain ⟨htraced, hretains'⟩ :=
      hfetched.concludeEarly (hend (.ok ⟨[], some (emptyReport e 0)⟩) <| by
        intro out hout
        obtain rfl := Except.ok.inj hout
        exact Draws.gives_of_base_nil (hgets [] rfl) hexpansion) true
    exact ⟨htraced, hretains.trans hretains'⟩
  · rename_i issues e hsome hexpansion
    have hsome : issues ≠ [] := hsome
    obtain ⟨l', hl', hid, hquery, -⟩ := hretains.loads l hl
    have hbased : Traced store m (s'.modifyLoad l.id fun l => { l with base := issues }) := by
      refine hfetched.modifyLoad (fun _ => ⟨rfl, rfl⟩) fun l₀ hl₀ hid₀ => ⟨fun _ => hsome, ?_⟩
      obtain rfl := hfetched.eq_of_id hl' hl₀ (hid₀.trans hid.symm)
      have htraced := hfetched.loads l₀ hl₀
      refine ⟨fun _ _ => ?_, htraced.ended, htraced.subscribers, htraced.own⟩
      exact hquery ▸ hgets issues rfl
    have hretains' : Retains s' (s'.modifyLoad l.id fun l => { l with base := issues }) :=
      .modifyLoad (fun _ => ⟨rfl, rfl⟩) fun _ _ _ _ => hsome
    have hchanged : { l' with base := issues } ∈
        (s'.modifyLoad l.id fun l => { l with base := issues }).loads :=
      List.mem_map.mpr ⟨l', hl', if_pos hid⟩
    obtain ⟨htraced, hretains''⟩ := hbased.turnToGraph cfg hchanged hsome l.control
    rw [hid] at htraced hretains''
    exact ⟨htraced, (hretains.trans hretains').trans hretains''⟩

end Traced

end IssueQuery.Engine
