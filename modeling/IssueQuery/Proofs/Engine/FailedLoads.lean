import IssueQuery.Proofs.Engine.NewestLoads

/-!
# Loads that fail

The inquiries of a load follow a plan, and the first one that fails is the last one: the load has then
come to its failure, or is to go on with it in place of the graph. A failure stays, and it is all that
the load comes to and all that is told of it.

* `Planned`          what is asked for a load, in which order;
* `Chart.Fails`      the load of the chart fails;
* `Lawful.of_fault`  an inquiry that fails is the last one, and the load fails with it;
* `Logged.closed`    nothing more is asked for a load that fails;
* `Logged.exists_charts` charts for all runs at once;
* `Current.run`      what there is of a text stays that of its newest load;
* `Charted.rejected` what the calls of a load that fails get.
-/

namespace IssueQuery.Engine

variable {store : Store} {cfg : Settings} {m : Mark} {F : Charts} {s : State} {l : Load} {c : Call}
  {q : Query} {base : List Issue} {off : Prop} {chart chart' : Chart} {load i k n : Nat}
  {a b : Inquiry} {before after first : List (Inquiry × Nat)} {made : List Inquiry}
  {cause : StageCause} {e : LoadFailure} {outcome : Except LoadFailure Outcome}
  {past : Nat → List (StoreCall × Nat)}

/-! ## Plans -/

/-- What is asked in a fetch that begins with the inquiry: a part of the batch from its beginning, and
if that is more than the first inquiry, then for the issues which this gave. -/
def Fetching (store : Store) (a : Inquiry) (n : Nat) (made : List Inquiry) : Prop :=
  ∃ ids, made ≠ [] ∧ made <+: batch a ids ∧ (made ≠ [a] →
    ∃ found, (given store n).Reads a.statement Issue.ofRow found ∧ ids = found.map Issue.id)

/-- What is asked for a load of the query: a fetch of what the query selects, the graph at most, and a
fetch of what was found along it at most. -/
def Planned (store : Store) (q : Query) (made : List (Inquiry × Nat)) : Prop :=
  ∃ selection first own more n k, q.select = .ok selection ∧
    Fetching store (.selected selection) n first ∧
    (own = [] ∨ ∃ j, own = [(Inquiry.graph, j)]) ∧
    (more = [] ∨ ∃ ids, ids ≠ [] ∧ Fetching store (.withIds ids) k more) ∧
    made = first.zipIdx n ++ own ++ more.zipIdx k

theorem Gathers.fetching {result : Except LoadFailure (List Issue)}
    (h : Gathers store a n made result) : Fetching store a n made := by
  cases h with
  | failed ids before b cause hinitial hfit hfault hfound =>
    refine ⟨ids, by simp, hinitial, fun hmore => hfound ?_⟩
    rintro rfl
    -- the first inquiry of the batch is the one that the fetch begins with
    obtain rfl : b = a := (List.cons_prefix_cons.mp hinitial).1
    exact hmore rfl
  | cut signal reason hfit => exact ⟨[], by simp, List.prefix_refl _, fun hmore => absurd rfl hmore⟩
  | whole issues hreads hfit =>
    exact ⟨_, by simp [batch], List.prefix_refl _, fun _ => ⟨_, hreads, (Issue.map_id_bare issues).symm⟩⟩

theorem Pursues.fetching (h : Pursues store n made outcome) :
    made = [] ∨ ∃ ids, ids ≠ [] ∧ Fetching store (.withIds ids) n made := by
  cases h with
  | off signal reason => exact .inl rfl
  | nothing out => exact .inl rfl
  | failed ids hne made e hgathers => exact .inr ⟨ids, hne, hgathers.fetching⟩
  | found ids hne made issues hgathers out => exact .inr ⟨ids, hne, hgathers.fetching⟩

theorem Lawful.planned (h : Lawful store q base off chart) (hmade : chart.made ≠ []) :
    Planned store q chart.made := by
  have hopened {made : List (Inquiry × Nat)} {source : Except LoadFailure Graph}
      {more : List Inquiry} {k : Nat} (h : Opened store q base off made source)
      (hmore : more = [] ∨ ∃ ids, ids ≠ [] ∧ Fetching store (.withIds ids) k more) :
      Planned store q (made ++ more.zipIdx k) := by
    obtain ⟨first, own, ⟨-, -, selection, first, n, hselect, hgathers, rfl⟩, hsourced, rfl⟩ := h
    exact ⟨selection, first, own, more, n, k, hselect, hgathers.fetching, hsourced.own_cases, hmore,
      rfl⟩
  have hfetched {selection : Selection} {first : List Inquiry} {n : Nat}
      {result : Except LoadFailure (List Issue)} (hselect : q.select = .ok selection)
      (hgathers : Gathers store (.selected selection) n first result) :
      Planned store q (first.zipIdx n) :=
    ⟨selection, first, [], [], n, 0, hselect, hgathers.fetching, .inl rfl, .inl rfl, by simp⟩
  cases h with
  | blank isOver => exact absurd rfl hmade
  | early hselect hgathers hends hbase hoff => exact hfetched hselect hgathers
  | based hbased =>
    obtain ⟨-, -, selection, first, n, hselect, hgathers, rfl⟩ := hbased
    exact hfetched hselect hgathers
  | waiting h => simpa using hopened (k := 0) h (.inl rfl)
  | broken h => simpa using hopened (k := 0) h (.inl rfl)
  | resumed h hpursues hoff => exact hopened h hpursues.fetching

/-! ## Failures -/

/-- The load has come to the failure, or is to go on with it in place of the graph. -/
def Chart.Fails (chart : Chart) (e : LoadFailure) : Prop :=
  chart.fate = some (.error e) ∨ chart.source = some (.error e)

theorem Chart.Fails.grows (h : chart.Fails e) (hgrows : chart.Grows chart') : chart'.Fails e :=
  h.imp (hgrows.fate _) (hgrows.source _)

/-- A load that fails comes to nothing but its failure. -/
theorem Lawful.eq_of_fails (h : Lawful store q base off chart) (hfails : chart.Fails e)
    (hfate : chart.fate = some outcome) : outcome = .error e := by
  obtain hcame | hsource := hfails
  · exact Option.some.inj (hfate.symm.trans hcame)
  · cases h with
    | blank _ | early _ _ _ _ _ | based _ => cases hsource
    | waiting _ => cases hfate
    | broken hopened =>
      cases hsource
      exact (Option.some.inj hfate).symm
    | resumed _ _ _ => cases hsource

/-- An inquiry that fails stands behind those that have fit answers. -/
theorem exists_behind_of_fault {more : List (Inquiry × Nat)} (hfit : Fit store first)
    (hsame : first ++ more = before ++ (b, k) :: after) (hfault : b.fault? store k = some cause) :
    ∃ before', more = before' ++ (b, k) :: after := by
  obtain ⟨rest, -, hmore⟩ | ⟨rest, rfl, hrest⟩ := List.append_eq_append_iff.mp hsame
  · exact ⟨rest, hmore⟩
  · cases rest with
    | nil => exact ⟨[], hrest.symm⟩
    | cons p rest =>
      obtain ⟨rfl, -⟩ := List.cons.inj hrest
      have hnone := hfit (b, k) (List.mem_append_right _ List.mem_cons_self)
      exact nomatch hnone.symm.trans hfault

/-- If only one inquiry is left behind those, then it is that. -/
theorem eq_last_of_fault {p : Inquiry × Nat} (hfit : Fit store first)
    (hsame : first ++ [p] = before ++ (b, k) :: after) (hfault : b.fault? store k = some cause) :
    after = [] ∧ p = (b, k) := by
  obtain ⟨before', hlast⟩ := exists_behind_of_fault hfit hsame hfault
  cases before' with
  | nil =>
    obtain ⟨rfl, rfl⟩ := List.cons.inj hlast
    exact ⟨rfl, rfl⟩
  | cons r rest => exact absurd (List.cons.inj hlast).2 (by simp)

theorem not_fit_of_fault (hsame : first = before ++ (b, k) :: after)
    (hfault : b.fault? store k = some cause) : ¬ Fit store first := by
  intro hfit
  obtain ⟨before', hnone⟩ :=
    exists_behind_of_fault hfit ((List.append_nil first).trans hsame) hfault
  exact absurd hnone (by simp)

theorem Gathers.of_fault {result : Except LoadFailure (List Issue)}
    (h : Gathers store a n made result) (hmade : made.zipIdx n = before ++ (b, k) :: after)
    (hfault : b.fault? store k = some cause) :
    after = [] ∧ result = .error (.ofStep b.stage cause) := by
  cases h with
  | failed ids before' b' cause' hinitial hfit hfault' hfound =>
    rw [List.zipIdx_append] at hmade
    obtain ⟨hlast, hsame⟩ := eq_last_of_fault hfit hmade hfault
    obtain ⟨rfl, rfl⟩ := Prod.mk.inj hsame
    obtain rfl := Option.some.inj (hfault'.symm.trans hfault)
    exact ⟨hlast, rfl⟩
  | cut signal reason hfit => exact absurd hfit (not_fit_of_fault hmade hfault)
  | whole issues hreads hfit => exact absurd hfit (not_fit_of_fault hmade hfault)

theorem Pursues.of_fault (h : Pursues store n made outcome)
    (hmade : made.zipIdx n = before ++ (b, k) :: after) (hfault : b.fault? store k = some cause) :
    after = [] ∧ outcome = .error (.ofStep b.stage cause) := by
  cases h with
  | off signal reason => exact absurd hmade (by simp)
  | nothing out => exact absurd hmade (by simp)
  | failed ids hne made e hgathers =>
    obtain ⟨hlast, hsame⟩ := hgathers.of_fault hmade hfault
    exact ⟨hlast, congrArg Except.error (Except.error.inj hsame)⟩
  | found ids hne made issues hgathers out =>
    exact nomatch (hgathers.of_fault hmade hfault).2

/-- A fetch that gave issues had fit answers only. -/
theorem Gathers.fit {issues : List Issue} (h : Gathers store a n made (.ok issues)) :
    Fit store (made.zipIdx n) := by
  cases h with
  | whole issues hreads hfit => exact hfit

/-- A load that goes on with a graph had fit answers only. -/
theorem Opened.fit {graph : Graph} {made : List (Inquiry × Nat)}
    (h : Opened store q base off made (.ok graph)) : Fit store made := by
  obtain ⟨first, own, ⟨-, -, selection, first, n, -, hgathers, rfl⟩, hsourced, rfl⟩ := h
  refine fit_append.mpr ⟨hgathers.fit, ?_⟩
  obtain ⟨rfl, -⟩ | ⟨j, rfl, hgraph⟩ := hsourced
  · exact fun _ hp => nomatch hp
  · obtain ⟨found, -, hfits⟩ | ⟨cause, hfails, -⟩ := graphOf_cases store j
    · exact List.forall_mem_singleton.mpr hfits
    · exact nomatch hgraph.trans hfails

/-- If a load that is to go on with a graph has made an inquiry that fails, then it is the one for the
graph, and there is none. -/
theorem Opened.of_fault {source : Except LoadFailure Graph} {made : List (Inquiry × Nat)}
    (h : Opened store q base off made source) (hmade : made = before ++ (b, k) :: after)
    (hfault : b.fault? store k = some cause) :
    after = [] ∧ source = .error (.ofStep b.stage cause) := by
  obtain ⟨first, own, ⟨-, -, selection, first, n, -, hgathers, rfl⟩, hsourced, rfl⟩ := h
  obtain ⟨rfl, -⟩ | ⟨j, rfl, rfl⟩ := hsourced
  · rw [List.append_nil] at hmade
    exact absurd hgathers.fit (not_fit_of_fault hmade hfault)
  · obtain ⟨hlast, hsame⟩ := eq_last_of_fault hgathers.fit hmade hfault
    obtain ⟨rfl, rfl⟩ := Prod.mk.inj hsame
    obtain ⟨graph, -, hnone⟩ | ⟨cause', hgraph, hsome⟩ := graphOf_cases store j
    · exact nomatch hnone.symm.trans hfault
    · obtain rfl := Option.some.inj (hsome.symm.trans hfault)
      exact ⟨hlast, hgraph⟩

/-- An inquiry that fails is the last one of its load, and the load fails in its step. -/
theorem Lawful.of_fault (h : Lawful store q base off chart)
    (hmade : chart.made = before ++ (b, k) :: after) (hfault : b.fault? store k = some cause) :
    after = [] ∧ chart.Fails (.ofStep b.stage cause) := by
  cases h with
  | blank isOver => exact absurd hmade (by simp [Chart.blank])
  | early hselect hgathers hends hbase hoff =>
    obtain ⟨hlast, rfl⟩ := hgathers.of_fault hmade hfault
    cases hends
    exact ⟨hlast, .inl rfl⟩
  | based hbased =>
    obtain ⟨-, -, selection, first, n, -, hgathers, rfl⟩ := hbased
    exact absurd hgathers.fit (not_fit_of_fault hmade hfault)
  | waiting hopened =>
    obtain ⟨hlast, rfl⟩ := hopened.of_fault hmade hfault
    exact ⟨hlast, .inr rfl⟩
  | broken hopened =>
    obtain ⟨hlast, hsame⟩ := hopened.of_fault hmade hfault
    obtain rfl := Except.error.inj hsame
    exact ⟨hlast, .inl rfl⟩
  | resumed hopened hpursues hoff =>
    obtain ⟨before', hmore⟩ := exists_behind_of_fault hopened.fit hmade hfault
    obtain ⟨hlast, rfl⟩ := hpursues.of_fault hmore hfault
    exact ⟨hlast, .inl rfl⟩

/-! ## What becomes of a load that fails -/

theorem run_append (cfg : Settings) (store : Store) (s : State) (events more : List Event) :
    run cfg store s (events ++ more) = run cfg store (run cfg store s events) more :=
  List.foldl_append

theorem ledger_append (cfg : Settings) (store : Store) (load : Nat) (s : State)
    (events more : List Event) :
    ledger cfg store load s (events ++ more) =
      ledger cfg store load s events ++ ledger cfg store load (run cfg store s events) more := by
  induction events generalizing s with
  | nil => rfl
  | cons event rest ih =>
    rw [List.cons_append, ledger, ledger, ih, List.append_assoc]
    rfl

/-- Nothing is asked in a turn in which a load ends because there is no graph. -/
theorem Performed.journal_of_graphless {e : LoadFailure}
    (h : Performed cfg store s (.resume load (.error e)) s') : s'.journal = s.journal := by
  cases h with
  | unknown => rfl
  | @graphless _ l =>
    obtain ⟨turns, hconclude⟩ := conclude_eq s l (.error e)
    rw [hconclude]
    rfl

namespace Logged

theorem share_eq_nil (h : Logged store past F s) (hload : load < s.queries.started)
    (hfails : (F.loads load).Fails e) (event : Event) : share cfg store load s event = [] := by
  by_cases hasker : s.asker event = some load
  · cases event with
    | call text signal =>
      obtain rfl : s.queries.started = load := Option.some.inj hasker
      exact absurd hload (Nat.lt_irrefl _)
    | tick =>
      obtain ⟨graph, rest, hagenda⟩ := exists_resume_of_asker hasker
      -- the load has not come to anything yet, so it fails for want of the graph
      have hdue : s.due load ≠ 0 := by simp [State.due, hagenda, Job.resumes]
      have hsource : (F.loads load).source = some graph :=
        h.charted.jobs (.resume load graph) (pending_head hagenda)
      obtain hfate | hfailed := hfails
      · cases (h.ahead load hdue).symm.trans hfate
      · obtain rfl : graph = .error e := Option.some.inj (hsource.symm.trans hfailed)
        have hresume : Engine.step cfg store s .tick =
            resume cfg store { s with agenda := rest } load (.error e) := by
          simp [Engine.step, Engine.tick, hagenda, Engine.perform]
        have hjournal : (Engine.step cfg store s .tick).journal = s.journal ++ [] := by
          rw [hresume, (performed_resume cfg store _ load _).journal_of_graphless, List.append_nil]
        exact share_of_asker hasker hjournal
    | abort _ _ | invalidate | invalidateGraph | advance _ | close => cases hasker
  · exact share_of_other hasker

/-- Nothing more is asked for a load that fails. -/
theorem closed (h : Logged store past F s) (ht : Traced store m s)
    (hload : load < s.queries.started) (hfails : (F.loads load).Fails e) (events : List Event) :
    ledger cfg store load s events = [] := by
  induction events generalizing s F past with
  | nil => rfl
  | cons event rest ih =>
    obtain ⟨F', hgrows, hstep⟩ := h.step cfg ht event
    rw [ledger, h.share_eq_nil hload hfails, List.nil_append]
    exact ih hstep (ht.step event) (Nat.lt_of_lt_of_le hload (ht.grows cfg event).2.1)
      (hfails.grows (hgrows.loads load))

/-- There are charts for every run from the state, and the charts of a run that goes on only grow. -/
theorem exists_charts (cfg : Settings) (h : Logged store past F s) (ht : Traced store m s) :
    ∃ G : List Event → Charts, G [] = F ∧ ∀ events,
      Logged store (fun load => past load ++ ledger cfg store load s events) (G events)
        (Engine.run cfg store s events) ∧
      ∀ more, (G events).Grows (G (events ++ more)) := by
  -- a node of the tree of all runs: what was asked up to there, the charts and the state
  let Node := { x : (Nat → List (StoreCall × Nat)) × Charts × State //
    Logged store x.1 x.2.1 x.2.2 ∧ Traced store m x.2.2 }
  have hnext (x : Node) (event : Event) : ∃ y : Node,
      y.1.1 = (fun load => x.1.1 load ++ share cfg store load x.1.2.2 event) ∧
      y.1.2.2 = Engine.step cfg store x.1.2.2 event ∧ x.1.2.1.Grows y.1.2.1 := by
    obtain ⟨F', hgrows, hstep⟩ := x.2.1.step cfg x.2.2 event
    exact ⟨⟨(_, F', _), hstep, x.2.2.step event⟩, rfl, rfl, hgrows⟩
  choose next hpast hstate hgrows using hnext
  let start : Node := ⟨(past, F, s), h, ht⟩
  have hrun (events : List Event) (x : Node) :
      (events.foldl next x).1.1 =
        (fun load => x.1.1 load ++ ledger cfg store load x.1.2.2 events) ∧
      (events.foldl next x).1.2.2 = Engine.run cfg store x.1.2.2 events ∧
      x.1.2.1.Grows (events.foldl next x).1.2.1 := by
    induction events generalizing x with
    | nil => exact ⟨funext fun load => (List.append_nil _).symm, rfl, .refl _⟩
    | cons event rest ih =>
      obtain ⟨hpast', hstate', hgrows'⟩ := ih (next x event)
      rw [List.foldl_cons, hpast', hstate', hpast, hstate, ledger_cons]
      exact ⟨rfl, rfl, (hgrows x event).trans hgrows'⟩
  refine ⟨fun events => (events.foldl next start).1.2.1, rfl, fun events => ⟨?_, fun more => ?_⟩⟩
  · obtain ⟨hpast', hstate', -⟩ := hrun events start
    have hlogged := (events.foldl next start).2.1
    rw [hpast', hstate'] at hlogged
    exact hlogged
  · dsimp only
    rw [List.foldl_append]
    exact (hrun more _).2.2

end Logged

/-- What there is of a text stays that of its newest load in all runs. -/
theorem Current.run (hon : cfg.disabled = false) (htidy : Tidy store s) {G : List Event → Charts}
    (hcharted : ∀ events, Charted store (G events) (Engine.run cfg store s events))
    (hgrows : ∀ events more, (G events).Grows (G (events ++ more))) {past : List Event}
    (h : Current (G past) (Engine.run cfg store s past)) (events : List Event) :
    Current (G (past ++ events)) (Engine.run cfg store s (past ++ events)) := by
  induction events generalizing past with
  | nil => rwa [List.append_nil]
  | cons event rest ih =>
    have hstep : Engine.run cfg store s (past ++ [event]) =
        Engine.step cfg store (Engine.run cfg store s past) event :=
      run_append cfg store s past [event]
    have hbefore : Tidy store (Engine.run cfg store s past) := htidy.run hon past
    have hnext := h.step (hgrows past [event]) (hcharted past) hbefore (hbefore.shape hon event)
    rw [← hstep] at hnext
    simpa using ih hnext

/-- A call that a load serves which fails gets its failure, unless the signal of the call aborts, and
then the load is over. -/
theorem Charted.rejected (h : Charted store F s) (hl : l ∈ s.loads)
    (hfails : (F.loads l.id).Fails e) (hserver : F.server i = some l.id)
    (hc : s.calls[i]? = some c) (hquiet : s.reason? c.signal = none)
    {result : Except Rejection Result} (hsettled : c.settled = some result) :
    result = .error (.failed c.text (.execute e)) ∧ (F.loads l.id).isOver = true := by
  obtain ⟨outcome, htold, hgot⟩ :=
    (h.calls i c hc).settled hquiet result hsettled l.id hserver
  obtain rfl := (h.loads l hl).lawful.eq_of_fails hfails htold.1
  refine ⟨?_, htold.2⟩
  cases result with
  | ok result => exact nomatch hgot
  | error rejection => exact congrArg Except.error (Except.error.inj hgot)

end IssueQuery.Engine
