import IssueQuery.Proofs.Engine.Aborts

/-!
# Loads that start keep an engine faithful

A load that starts is counted as if the job that ends it were under way from the start. Once the
load is provided for, that job is done: nobody depends on it any more.

* `Faithful.requestGraph`  a shared load turns to the graph;
* `Faithful.startLoad`     a load starts;
* `undisturbed_startLoad`  a load that starts leaves calls and other loads alone.
-/

namespace IssueQuery.Engine

variable {answers : Answers} {store : Store} {cfg : Settings} {s s' : State} {l : Load} {c : Call}
  {J : Job → Prop} {job : Job} {i id g : Nat} {outcome : Except LoadFailure Outcome}
  {graph : Except LoadFailure Graph} {q : Query} {text : Text} {signal : Option Text}

namespace Faithful

/-- A job under way is put on the agenda, and others stay under way. -/
theorem scheduleAmong (h : Faithful answers s fun j => j = job ∨ J j ∨ s.Pending j) (turns : Nat) :
    Faithful answers (s.schedule turns job) fun j => J j ∨ (s.schedule turns job).Pending j := by
  apply (h.agenda (s.agenda ++ [(turns, job)])).congr
  intro j
  have hpending : (s.schedule turns job).Pending j ↔ j = job ∨ s.Pending j := pending_schedule turns
  rw [hpending]
  exact or_left_comm

/-! ## Loads turn to the graph -/

/-- A load waits for a load of the graph that is under way. -/
theorem awaitGraph (h : Faithful answers s fun j => j = .settle l.id outcome ∨ J j)
    (hl : l ∈ s.loads) (hbased : l.Based answers) (hgraph : J (.settleGraph g graph)) :
    Faithful answers (awaitGraph s g l.id) J := by
  have hsound := h.loads l hl
  have hwaits : Faithful answers
      { s.modifyLoad l.id fun l => { l with graphLoad := some g } with
        graphWaiters := s.graphWaiters ++ [(g, l.id)] }
      fun j => j = .settle l.id outcome ∨ J j := by
    apply h.modifyLoad hl _ ⟨rfl, rfl, rfl, .inl rfl⟩
    · exact
        { below := hsound.below
          ended := hsound.ended
          based := fun _ => hbased
          subscribers := hsound.subscribers
          own := hsound.own }
    · exact fun _ => rfl
    · intro f hf hattached hid
      obtain ⟨-, hended, -⟩ := h.joinable_of_id hl hf hattached hid
      exact ⟨rfl, hended⟩
    · exact fun i hi hended => .inr ⟨hended, hi⟩
    · exact fun _ _ => ⟨_, .inl rfl, rfl⟩
    · exact fun w hw _ => List.mem_append_left _ hw
  -- the job that was to end the load is not needed: the graph will go on with it
  apply hwaits.done
  · exact fun _ _ _ _ hserves => False.elim hserves
  · intro l' hl' _ _ hid
    obtain rfl | ⟨-, hother⟩ := mem_modifyLoad h.distinct hl hl'
    · exact ⟨_, hgraph, rfl, List.mem_append_right _ (List.mem_singleton.mpr rfl)⟩
    · exact absurd (Eq.symm hid) hother
  · intro _ _ _ _ hsame
    cases hsame

/-- A load starts a load of the graph, and waits for it. -/
theorem startGraph (hsteady : Steady store answers)
    (h : Faithful answers s fun j => j = .settle l.id outcome ∨ J j ∨ s.Pending j)
    (hl : l ∈ s.loads) (hbased : l.Based answers) (hon : s.calledOff? l.id = none)
    (graphs : ReadThrough Unit Graph)
    (hholds : ∀ graph, graphs.store.Holds () graph → answers.graph = .ok graph)
    (hflights : ∀ f ∈ graphs.flights, f ∈ s.graphs.flights ∨ f.id = g) :
    let fetched := staged .graph (loadGraph store) { s with graphs := graphs }
    let s' := Engine.awaitGraph (fetched.2.schedule 0 (.settleGraph g fetched.1)) g l.id
    Faithful answers s' fun j => J j ∨ s'.Pending j := by
  have hyields : Yields l.id (staged .graph (loadGraph store)) _ := yields_loadGraph hsteady
  obtain ⟨hframe, hresult⟩ := hyields { s with graphs := graphs }
  dsimp only
  rw [hresult hon]
  -- the load of the graph is under way before the cache says so
  let J' : Job → Prop := fun j => j = .settleGraph g answers.graph ∨ J j ∨ s.Pending j
  have hunderWay : Faithful answers s fun j => j = .settle l.id outcome ∨ J' j := by
    apply h.announce
    rintro _ rfl
    rfl
  have hstarted : Faithful answers { s with graphs := graphs } fun j =>
      j = .settle l.id outcome ∨ J' j := by
    apply hunderWay.setGraphs _ hholds
    intro f hf hattached
    obtain hold | rfl := hflights f hf
    · exact hunderWay.underWay f hold hattached
    · exact ⟨answers.graph, .inr (.inl rfl)⟩
  have hfetched := hstarted.frame hframe
  have hl' : l ∈ (staged .graph (loadGraph store) { s with graphs := graphs }).2.loads := by
    rw [hframe.loads]
    exact hl
  have hwaits : Faithful answers _ J' := hfetched.awaitGraph hl' hbased (.inl rfl)
  have hpending : s.Pending =
      (staged .graph (loadGraph store) { s with graphs := graphs }).2.Pending :=
    (pending_congr hframe.agenda).symm
  simp only [J', hpending] at hwaits
  exact hwaits.scheduleAmong 0

/-- A shared load gets the graph, or waits for it. -/
theorem requestGraph (hsteady : Steady store answers)
    (h : Faithful answers s fun j => j = .settle l.id outcome ∨ J j ∨ s.Pending j)
    (hl : l ∈ s.loads) (hbased : l.Based answers) (hon : s.calledOff? l.id = none) :
    Faithful answers (requestGraph cfg store s l.id)
      fun j => J j ∨ (requestGraph cfg store s l.id).Pending j := by
  have hstored : ∀ graph, (s.graphs.stored true () (some cfg.ttl) s.now).2.store.Holds () graph →
      answers.graph = .ok graph := fun graph hholds => h.graph graph (ReadThrough.holds_stored hholds)
  unfold Engine.requestGraph
  obtain ⟨graph, hheld, hrequest⟩ | ⟨f, hattached, hrequest⟩ | ⟨-, hrequest⟩ :=
    s.graphs.request_cases true () (some cfg.ttl) s.now
  · -- the graph is kept: the load goes on with it
    rw [hrequest]
    dsimp only
    have hkept := h.setGraphs _ hstored h.underWay
    have hnext := hkept.replace (.resume l.id (.ok graph))
      ⟨l, hl, rfl, fun _ => ⟨hbased, (h.graph graph hheld).symm⟩⟩
      (fun _ hserves => False.elim hserves) (fun _ _ _ hfurthers => hfurthers) rfl
    exact hnext.scheduleAmong 0
  · -- a load of the graph is under way: the load waits for it
    rw [hrequest]
    dsimp only
    obtain ⟨hf, hon, -⟩ := ReadThrough.mem_of_attached? hattached
    obtain ⟨graph, hgraph⟩ := h.underWay f hf hon
    have hjoined := h.setGraphs ((s.graphs.stored true () (some cfg.ttl) s.now).2.modify f.id
      fun f => { f with waiters := f.waiters + 1 }) hstored <| by
      intro f' hf' hattached'
      obtain ⟨f₀, hf₀, hid, -, hattached₀, -⟩ := ReadThrough.exists_of_mem_join hf'
      rw [← hid]
      exact h.underWay f₀ hf₀ (hattached₀.trans hattached')
    obtain hsettle | hpending := hgraph
    · cases hsettle
    · exact hjoined.awaitGraph hl hbased hpending
  · -- neither of them: the load starts a load of the graph
    rw [hrequest]
    dsimp only
    apply h.startGraph hsteady hl hbased hon
    · exact hstored
    · intro f hf
      obtain hold | hnew := List.mem_append.mp hf
      · exact .inl hold
      · exact .inr (congrArg Flight.id (List.mem_singleton.mp hnew))

/-- A load of its own gets a graph of its own. -/
theorem fetchOwnGraph (hsteady : Steady store answers)
    (h : Faithful answers s fun j => j = endJob l outcome ∨ J j ∨ s.Pending j)
    (hl : l ∈ s.loads) (hbased : l.Based answers) (hon : s.calledOff? l.id = none) :
    Faithful answers (fetchOwnGraph store s l.id)
      fun j => J j ∨ (fetchOwnGraph store s l.id).Pending j := by
  have hyields : Yields l.id (staged .graph (loadGraph store)) _ := yields_loadGraph hsteady
  obtain ⟨hframe, hresult⟩ := hyields s
  have hfetched := h.frame hframe
  rw [← pending_congr hframe.agenda] at hfetched
  have hl' : l ∈ (staged .graph (loadGraph store) s).2.loads := by
    rw [hframe.loads]
    exact hl
  -- the job that goes on with the load takes over from the one that was to end it
  have hnext := hfetched.replace (.resume l.id answers.graph)
    ⟨l, hl', rfl, fun _ => ⟨hbased, rfl⟩⟩
    (fun i => (endJob_serves hfetched.distinct hl').mp)
    (fun l' hl'' hshared => (endJob_furthers hfetched.distinct hl' hl'' hshared).mp)
    endJob_settlesGraph
  have hfetch : Engine.fetchOwnGraph store s l.id =
      (staged .graph (loadGraph store) s).2.schedule 2 (.resume l.id answers.graph) := by
    rw [← hresult hon]
    rfl
  rw [hfetch]
  exact hnext.scheduleAmong 2

end Faithful

/-! ## Loads start -/

theorem concludeEarly_eq (s : State) (l : Load) (expanding : Bool)
    (outcome : Except LoadFailure Outcome) :
    ∃ turns, concludeEarly s l expanding outcome = s.schedule turns (endJob l outcome) := by
  unfold concludeEarly endJob
  cases l.control with
  | shared aborted => exact ⟨_, rfl⟩
  | own call signal => exact ⟨_, rfl⟩

/-- To change the load that came last is the same as to have added it changed. -/
theorem Frame.modifyLast (hframe : Frame { s with loads := s.loads ++ [l] } s')
    (hfresh : ∀ l' ∈ s.loads, l'.id ≠ l.id) (change : Load → Load) :
    Frame { s with loads := s.loads ++ [change l] } (s'.modifyLoad l.id change) where
  signals := hframe.signals
  queryFlights := hframe.queryFlights
  queriesStarted := hframe.queriesStarted
  queriesHold := hframe.queriesHold
  graphFlights := hframe.graphFlights
  graphsHold := hframe.graphsHold
  expanding := hframe.expanding
  loads := by
    have hloads : s'.loads = s.loads ++ [l] := hframe.loads
    have hold : s.loads.map (fun l' => if l'.id = l.id then change l' else l') = s.loads := by
      rw [← List.map_id s.loads, List.map_map]
      exact List.map_congr_left fun l' hl' => if_neg (hfresh l' hl')
    rw [State.modifyLoad, hloads, List.map_append, hold, List.map_singleton, if_pos rfl]
  graphWaiters := hframe.graphWaiters
  calls := hframe.calls
  agenda := hframe.agenda

/-- A load that has its base issues turns to the graph. -/
theorem Faithful.expandLoad (hsteady : Steady store answers)
    (h : Faithful answers { s with loads := s.loads ++ [l] }
      fun j => j = endJob l outcome ∨ J j ∨ s.Pending j)
    (hframe : Frame { s with loads := s.loads ++ [l] } s') (hbased : l.Based answers)
    (hwanted : l.Wanted s) :
    let s'' := match s'.calledOff? l.id with
      | some (signal, reason) => s'.schedule 0 (.resume l.id (.error (.aborted signal reason)))
      | none =>
        match l.control with
        | .shared _ => Engine.requestGraph cfg store s' l.id
        | .own .. => Engine.fetchOwnGraph store s' l.id
    Faithful answers s'' fun j => J j ∨ s''.Pending j := by
  have hready := h.frame hframe
  have hpending : s.Pending = s'.Pending := (pending_congr hframe.agenda).symm
  have hl : l ∈ s'.loads := by
    rw [hframe.loads]
    exact List.mem_append_right _ (List.mem_singleton.mpr rfl)
  -- nothing aborts while the base issues are fetched
  have hon : s'.calledOff? l.id = none :=
    (calledOff?_eq_none (load?_eq_some hready.distinct hl)).mpr (hwanted.congr hframe.signals)
  dsimp only
  rw [hon]
  rw [hpending] at hready
  cases hcontrol : l.control with
  | shared aborted =>
    have hend : endJob l outcome = .settle l.id outcome := by rw [endJob, hcontrol]
    rw [hend] at hready
    exact hready.requestGraph hsteady hl hbased hon
  | own call signal => exact hready.fetchOwnGraph hsteady hl hbased hon

/-- A load that starts is brought to its end by a job, whatever its base issues turn out to be. -/
theorem Faithful.startLoad (hsteady : Steady store answers)
    (h : ∀ base, Faithful answers { s with loads := s.loads ++ [{ l with base := base }] }
      fun j => j = endJob l (answers.outcome l.query) ∨ J j ∨ s.Pending j)
    (hfresh : ∀ l' ∈ s.loads, l'.id ≠ l.id) (hwanted : l.Wanted s) :
    Faithful answers (startLoad cfg store s l)
      fun j => J j ∨ (startLoad cfg store s l).Pending j := by
  have hl : l ∈ s.loads ++ [l] := List.mem_append_right _ (List.mem_singleton.mpr rfl)
  have hon : ({ s with loads := s.loads ++ [l] } : State).calledOff? l.id = none :=
    (calledOff?_eq_none (load?_eq_some (h l.base).distinct hl)).mpr hwanted
  have hyields : Yields l.id (fetchBase store l.id l.query) _ := yields_fetchBase hsteady l.query
  obtain ⟨hframe, hresult⟩ := hyields { s with loads := s.loads ++ [l] }
  unfold Engine.startLoad
  cases hfetch : fetchBase store l.id l.query { s with loads := s.loads ++ [l] } with
  | mk result s' =>
    rw [hfetch] at hframe hresult
    obtain rfl : result = answers.base l.query := hresult hon
    have hpending : s.Pending = s'.Pending := (pending_congr hframe.agenda).symm
    -- the ends that need no graph: the job announced at the start is scheduled as it is
    have hearly : ∀ expanding, Faithful answers
        (concludeEarly s' l expanding (answers.outcome l.query))
        fun j => J j ∨ (concludeEarly s' l expanding (answers.outcome l.query)).Pending j := by
      intro expanding
      obtain ⟨turns, heq⟩ := concludeEarly_eq s' l expanding (answers.outcome l.query)
      have hfetched := (h l.base).frame hframe
      rw [hpending] at hfetched
      rw [heq]
      exact hfetched.scheduleAmong turns
    cases hbase : answers.base l.query with
    | error e =>
      rw [answers.outcome_of_base_error hbase] at hearly
      exact hearly false
    | ok issues =>
      cases hexpansion : l.query.expansion with
      | none =>
        rw [answers.outcome_of_not_expanding hbase hexpansion] at hearly
        exact hearly false
      | some e =>
        cases issues with
        | nil =>
          rw [answers.outcome_of_base_nil hbase hexpansion] at hearly
          exact hearly true
        | cons first rest =>
          obtain ⟨s'', hbased⟩ : ∃ s'', s'.modifyLoad l.id
            (fun l => { l with base := first :: rest }) = s'' := ⟨_, rfl⟩
          have hframe' := hframe.modifyLast hfresh fun l => { l with base := first :: rest }
          rw [hbased] at hframe'
          dsimp only
          rw [hbased]
          apply (h (first :: rest)).expandLoad hsteady hframe'
          · exact ⟨e, hexpansion,
              answers.outcome_of_expanding hbase (List.cons_ne_nil _ _) hexpansion⟩
          · exact hwanted

/-- The states have the same calls, signals and loads of queries that have not ended. -/
structure Undisturbed (s s' : State) : Prop where
  calls : s'.calls = s.calls
  signals : s'.signals = s.signals
  flights : s'.queries.flights = s.queries.flights
  started : s'.queries.started = s.queries.started

theorem Undisturbed.trans {s'' : State} (h : Undisturbed s s') (h' : Undisturbed s' s'') :
    Undisturbed s s'' where
  calls := h'.calls.trans h.calls
  signals := h'.signals.trans h.signals
  flights := h'.flights.trans h.flights
  started := h'.started.trans h.started

theorem Frame.undisturbed (h : Frame s s') : Undisturbed s s' :=
  ⟨h.calls, h.signals, h.queryFlights, h.queriesStarted⟩

theorem undisturbed_startLoad (hsteady : Steady store answers) :
    Undisturbed s (startLoad cfg store s l) := by
  have hgraph : ∀ s, Undisturbed s (staged .graph (loadGraph store) s).2 := by
    intro s
    have hyields : Yields 0 (staged .graph (loadGraph store)) _ := yields_loadGraph hsteady
    exact (hyields s).1.undisturbed
  -- the graph may be kept, under way or missing, but it has a cache of its own
  have hrequest : ∀ s, Undisturbed s (requestGraph cfg store s l.id) := by
    intro s
    unfold requestGraph
    split
    · exact ⟨rfl, rfl, rfl, rfl⟩
    · exact ⟨rfl, rfl, rfl, rfl⟩
    · rename_i graphs _
      have hfetched := hgraph { s with graphs := graphs }
      exact ⟨hfetched.calls, hfetched.signals, hfetched.flights, hfetched.started⟩
  have hearly : ∀ s expanding outcome, Undisturbed s (concludeEarly s l expanding outcome) := by
    intro s expanding outcome
    obtain ⟨turns, heq⟩ := concludeEarly_eq s l expanding outcome
    rw [heq]
    exact ⟨rfl, rfl, rfl, rfl⟩
  have hyields : Yields l.id (fetchBase store l.id l.query) _ := yields_fetchBase hsteady l.query
  have hfetched := (hyields { s with loads := s.loads ++ [l] }).1.undisturbed
  unfold startLoad
  cases hfetch : fetchBase store l.id l.query { s with loads := s.loads ++ [l] } with
  | mk base s' =>
    rw [hfetch] at hfetched
    have hs' : Undisturbed s s' := ⟨hfetched.calls, hfetched.signals, hfetched.flights,
      hfetched.started⟩
    dsimp only
    split
    · exact hs'.trans (hearly s' false _)
    · exact hs'.trans (hearly s' false _)
    · exact hs'.trans (hearly s' true _)
    · rename_i issues _ _ _
      have hbased : Undisturbed s (s'.modifyLoad l.id fun l => { l with base := issues }) :=
        ⟨hs'.calls, hs'.signals, hs'.flights, hs'.started⟩
      split
      · exact ⟨hs'.calls, hs'.signals, hs'.flights, hs'.started⟩
      · split
        · exact hbased.trans (hrequest _)
        · have hown := hbased.trans (hgraph _)
          exact ⟨hown.calls, hown.signals, hown.flights, hown.started⟩

end IssueQuery.Engine
