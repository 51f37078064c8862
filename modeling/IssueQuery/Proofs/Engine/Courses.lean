import IssueQuery.Proofs.Engine.Advancing
import IssueQuery.Proofs.Engine.Ledger

/-!
# The course of each load

Over a whole run the inquiries of a chart are the ledger of its load, entry by entry. So a ledger can
be read off the chart, which says what became of each statement and what the load came to.

* `Charted.step`  the charts go on with every event;
* `Logged`        the charts agree with the engine and with the ledgers;
* `Logged.run`    they still do after a run;
* `Load.Serves`   a load and the calls that it serves.
-/

namespace IssueQuery.Engine

variable {store : Store} {cfg : Settings} {m : Mark} {F F' : Charts} {s s' : State}
  {l : Load} {q : Query} {base : List Issue} {off : Prop} {chart : Chart} {load : Nat}
  {c : Call} {i : Nat} {graph : Except LoadFailure Graph} {asker : Option Nat}
  {agenda : List (Nat × Job)} {past : Nat → List (StoreCall × Nat)}

/-! ## Events -/

/-- Which jobs are on the agenda before makes no difference. -/
theorem Advances.of_agenda (h : Advances store asker F F' { s with agenda := agenda } s') :
    Advances store asker F F' s s' :=
  ⟨h.grows, h.charted, h.others, h.made⟩

/-- An event that is neither a call nor a turn lets nothing come up. -/
theorem lulls_step (cfg : Settings) (store : Store) (s : State) {event : Event}
    (hcall : ∀ text signal, event ≠ .call text signal) (htick : event ≠ .tick) :
    Lulls s (Engine.step cfg store s event) := by
  cases event with
  | call text signal => exact absurd rfl (hcall text signal)
  | tick => exact absurd rfl htick
  | abort signal reason => exact .meanwhile ((Meanwhile.refl s).abort signal reason)
  | invalidate => exact .of_same rfl rfl rfl (.invalidateAll _) (.invalidate _ ()) rfl rfl
  | invalidateGraph =>
    exact .of_same rfl rfl rfl (subsides_invalidateEach s.queries s.expanding) (.invalidate _ ())
      rfl rfl
  | advance span => exact .of_frame (frame_advance s span) rfl
  | close => exact .of_frame (frame_close s) rfl

namespace Charted

/-- A job that does not go on with the graph asks nothing. -/
theorem perform (h : Charted store F s) {job : Job} (hjob : job.Charted store F)
    (hidle : ∀ load graph, job ≠ .resume load graph) (hs : Performed cfg store s job s') :
    ∃ F', Advances store none F F' s s' := by
  have hjournal : s'.journal = s.journal :=
    (hs.notes_of_idle hidle).journal.trans (List.append_nil _)
  cases job with
  | subscribe i => exact ⟨F, .of_charted (h.subscribe hs) hjournal⟩
  | settleGraph g graph => exact ⟨F, .of_charted (h.settleGraph hjob hs) hjournal⟩
  | deliverGraph load graph => exact ⟨F, .of_charted (h.deliverGraph hjob hs) hjournal⟩
  | deliver i outcome => exact ⟨F, .of_charted (h.deliver hjob hs) hjournal⟩
  | finish i outcome => exact ⟨F, .of_charted (h.finish hjob hs) hjournal⟩
  | resume load graph => exact absurd rfl (hidle load graph)
  | settle load outcome =>
    -- from now on the load is over
    have hover : (F.loads load).Grows { F.loads load with isOver := true } :=
      ⟨List.prefix_refl _, fun _ => id, fun _ => id, fun _ => rfl⟩
    refine ⟨_, .idle (Charts.grows_setLoad hover) (h.settle hjob hs) (fun k => ?_) hjournal⟩
    by_cases hk : k = load
    · rw [hk, Charts.setLoad_self]
      exact ⟨rfl, rfl⟩
    · rw [Charts.setLoad_of_ne F _ hk]
      exact ⟨rfl, rfl⟩

theorem tick (h : Charted store F s) (ht : Traced store m s)
    (hahead : ∀ load, s.due load ≠ 0 → (F.loads load).fate = none) (hs : Ticked cfg store s s') :
    ∃ F', Advances store (s.asker .tick) F F' s s' := by
  cases hs with
  | idle hagenda =>
    have hasker : s.asker .tick = none := by simp [State.asker, hagenda]
    rw [hasker]
    exact ⟨F, .of_charted h rfl⟩
  | @due job rest _ hagenda hs =>
    have hrest : Charted store F { s with agenda := rest } :=
      h.setAgenda rest fun p hp => .inl (pending_of_mem_tail hagenda p hp)
    have hjob := h.jobs job (pending_head hagenda)
    by_cases hresumes : ∃ load graph, job = .resume load graph
    · obtain ⟨load, graph, rfl⟩ := hresumes
      have hasker : s.asker .tick = some load := by simp [State.asker, hagenda]
      have hdue : s.due load ≠ 0 := by simp [State.due, hagenda, Job.resumes]
      -- a load that is to go on has not come to anything yet, so its chart may grow
      obtain ⟨l, hl, rfl, -⟩ := ht.jobs (.resume load graph) (pending_head hagenda)
      obtain ⟨F', hadvances⟩ :=
        hrest.resume ht.recorded ht.distinct hl hjob (hahead l.id hdue) hs
      rw [hasker]
      exact ⟨F', hadvances.of_agenda⟩
    · -- no other job makes a statement
      have hidle : ∀ load graph, job ≠ .resume load graph := fun load graph hsame =>
        hresumes ⟨load, graph, hsame⟩
      have hasker : s.asker .tick = none := by
        cases job with
        | resume load graph => exact absurd rfl (hidle load graph)
        | subscribe i | settle load outcome | settleGraph g graph | deliverGraph load graph
        | deliver i outcome | finish i outcome => simp [State.asker, hagenda]
      obtain ⟨F', hadvances⟩ := hrest.perform hjob hidle hs
      rw [hasker]
      exact ⟨F', hadvances.of_agenda⟩
  | putOff hagenda =>
    have hasker : s.asker .tick = none := by simp [State.asker, hagenda]
    rw [hasker]
    exact ⟨F, .of_charted (h.setAgenda _ fun p hp => .inl (pending_putOff hagenda ▸ ⟨p.1, hp⟩)) rfl⟩

/-- The charts go on with every event. If it starts a load, then that has asked something, and has not
gone on with a graph yet. -/
theorem step (cfg : Settings) (h : Charted store F s) (ht : Traced store m s)
    (hahead : ∀ load, s.due load ≠ 0 → (F.loads load).fate = none) (event : Event) :
    ∃ F', Advances store (s.asker event) F F' s (Engine.step cfg store s event) ∧
      ∀ load, s.queries.started ≤ load →
        load < (Engine.step cfg store s event).queries.started →
        (F'.loads load).made ≠ [] ∧
          ((F'.loads load).source = none ∨ (F'.loads load).fate = none) := by
  by_cases hcall : ∃ text signal, event = .call text signal
  · -- a call makes at most one load, the next one to be numbered
    obtain ⟨text, signal, rfl⟩ := hcall
    obtain ⟨F', hadvances, hnew⟩ := h.called ht (Engine.called cfg store s text signal)
    refine ⟨F', hadvances, fun load hload hstarted => ?_⟩
    have hnext := (ht.grows cfg (.call text signal)).2.2
    obtain hsame | hnew := hnew
    · exact absurd (Nat.lt_of_lt_of_eq hstarted hsame) (Nat.not_lt.mpr hload)
    · obtain rfl : load = s.queries.started := by omega
      exact hnew
  have hother : ∀ text signal, event ≠ .call text signal := fun text signal hsame =>
    hcall ⟨text, signal, hsame⟩
  -- no other event numbers a load
  have hstarted : (Engine.step cfg store s event).queries.started = s.queries.started := by
    obtain hmade | ⟨entries, hnotes⟩ := call_or_notes cfg store s event
    · exact absurd hmade hcall
    · exact hnotes.started
  obtain ⟨F', hadvances⟩ : ∃ F', Advances store (s.asker event) F F' s
      (Engine.step cfg store s event) := by
    by_cases htick : event = .tick
    · subst htick
      exact h.tick ht hahead (ticked cfg store s)
    · have hnotes : Notes s (Engine.step cfg store s event) [] := notes_of_quiet hother htick
      exact ⟨F, .of_charted (h.lulls (lulls_step cfg store s hother htick))
        (hnotes.journal.trans (List.append_nil _))⟩
  exact ⟨F', hadvances, fun load hload hless => absurd (hstarted ▸ hless) (Nat.not_lt.mpr hload)⟩

end Charted

/-! ## Loads stay -/

theorem ids_conclude (s : State) (l : Load) (outcome : Except LoadFailure Outcome) :
    (Engine.conclude s l outcome).loads.map Load.id = s.loads.map Load.id := by
  obtain ⟨turns, hconclude⟩ := conclude_eq s l outcome
  rw [hconclude]
  rfl

theorem Performed.ids {job : Job} (h : Performed cfg store s job s') :
    s'.loads.map Load.id = s.loads.map Load.id := by
  cases h with
  | subscribed | settled | deliveredGraph => exact Faithful.modifyLoad_ids fun _ _ _ => rfl
  | graphless | plain => exact ids_conclude s _ _
  | @expanded load l e found =>
    have hproceeds : Proceeds store load (expand cfg store load l.base e found) :=
      proceeds_expand cfg l.base e found
    exact (ids_conclude _ l _).trans (Lulls.meanwhile (hproceeds s).1).ids
  | finished => exact congrArg (List.map Load.id) (frame_finishWith ..).loads
  | unserved | toldLate | settledGraph | unawaited | unknown | delivered | deliveredLate
  | finishedLate => rfl

theorem ids_turnToGraph (cfg : Settings) (store : Store) (s : State) (l : Load) :
    (Engine.turnToGraph cfg store s l).loads.map Load.id = s.loads.map Load.id := by
  have hasked (s : State) :
      (staged .graph (loadGraph store) s).2.loads.map Load.id = s.loads.map Load.id :=
    (Lulls.meanwhile (meanwhile_loadGraph store s)).ids
  have hwaits (s : State) (g : Nat) :
      (Engine.awaitGraph s g l.id).loads.map Load.id = s.loads.map Load.id :=
    Faithful.modifyLoad_ids fun _ _ _ => rfl
  unfold Engine.turnToGraph
  split
  · rfl
  · split
    · unfold Engine.requestGraph
      split
      · rfl
      · exact hwaits _ _
      · exact (hwaits _ _).trans (hasked _)
    · exact hasked s

/-- A load that starts stands behind all others. -/
theorem ids_startLoad (cfg : Settings) (store : Store) (s : State) (l : Load) :
    (Engine.startLoad cfg store s l).loads.map Load.id = s.loads.map Load.id ++ [l.id] := by
  have hfetched : (fetchBase store l.id l.query { s with loads := s.loads ++ [l] }).2.loads.map
      Load.id = s.loads.map Load.id ++ [l.id] := by
    have hids := (Lulls.meanwhile (meanwhile_fetchBase store l.id l.query
      { s with loads := s.loads ++ [l] })).ids
    rw [hids, List.map_append]
    rfl
  obtain ⟨expanding, outcome, -, hstart⟩ | ⟨base, e, -, -, -, hstart⟩ :=
    startLoad_cases cfg store s l
  · rw [hstart, (concludeEarly_eq _ l expanding outcome).choose_spec]
    exact hfetched
  · rw [hstart, ids_turnToGraph]
    refine Eq.trans ?_ hfetched
    exact Faithful.modifyLoad_ids fun _ _ _ => rfl

theorem ids_join (s : State) (i load : Nat) :
    (Engine.join s i load).loads.map Load.id = s.loads.map Load.id := by
  obtain hjoin | hjoin := join_cases s i load <;> rw [hjoin]
  · exact Faithful.modifyLoad_ids fun _ _ _ => rfl
  · rfl

/-- A call leaves all loads, and if it starts one, then that is there, too. -/
theorem Called.ids {text : Text} {signal : Option Text}
    (hcalled : Called cfg store s text signal s') :
    s'.loads.map Load.id = s.loads.map Load.id ∧ s'.queries.started = s.queries.started ∨
      s'.loads.map Load.id = s.loads.map Load.id ++ [s.queries.started] := by
  cases hcalled with
  | rejected texts rejection lines hcause => exact .inl ⟨rfl, rfl⟩
  | kept texts queries out hon hqueries hholds => exact .inl ⟨rfl, hqueries.started⟩
  | joined texts queries load hon hqueries =>
    refine .inl ⟨ids_join _ _ _, ?_⟩
    rw [join_queries]
    exact hqueries.started
  | shared texts queries q hon hquery hstarted hholds hflights =>
    exact .inr ((ids_join _ _ _).trans (ids_startLoad cfg store _ _))
  | own texts q hoff hquery hquiet => exact .inr (ids_startLoad cfg store _ _)

/-- The loads that have started are all there. -/
def State.Numbered (s : State) : Prop := ∀ load < s.queries.started, ∃ l ∈ s.loads, l.id = load

theorem Traced.numbered_step (ht : Traced store m s) (h : s.Numbered) (event : Event) :
    (Engine.step cfg store s event).Numbered := by
  -- where no load is added and no number taken, there is nothing to show
  have hids (hids : (Engine.step cfg store s event).loads.map Load.id = s.loads.map Load.id)
      (hstarted : (Engine.step cfg store s event).queries.started = s.queries.started) :
      (Engine.step cfg store s event).Numbered := by
    intro load hload
    obtain ⟨l, hl, rfl⟩ := h load (hstarted ▸ hload)
    exact List.mem_map.mp (hids ▸ List.mem_map_of_mem hl)
  by_cases hcall : ∃ text signal, event = .call text signal
  · obtain ⟨text, signal, rfl⟩ := hcall
    obtain ⟨hsame, hstarted⟩ | hadded := (Engine.called cfg store s text signal).ids
    · exact hids hsame hstarted
    · intro load hload
      have hnext := (ht.grows cfg (.call text signal)).2.2
      refine List.mem_map.mp (hadded ▸ List.mem_append.mpr ?_)
      by_cases hold : load < s.queries.started
      · obtain ⟨l, hl, rfl⟩ := h load hold
        exact .inl (List.mem_map_of_mem hl)
      · obtain rfl : load = s.queries.started := by omega
        exact .inr (List.mem_singleton.mpr rfl)
  have hother : ∀ text signal, event ≠ .call text signal := fun text signal hsame =>
    hcall ⟨text, signal, hsame⟩
  obtain hmade | ⟨entries, hnotes⟩ := call_or_notes cfg store s event
  · exact absurd hmade hcall
  · refine hids ?_ hnotes.started
    by_cases htick : event = .tick
    · subst htick
      have hs : Ticked cfg store s (Engine.step cfg store s .tick) := ticked cfg store s
      generalize Engine.step cfg store s .tick = s' at hs ⊢
      cases hs with
      | idle | putOff => rfl
      | due _ hs => exact hs.ids
    · exact (lulls_step cfg store s hother htick).ids

/-! ## Charts and ledgers -/

/-- The ledgers so far are what the charts say, and a load that may still go on with the graph has not
come to anything. -/
structure Logged (store : Store) (past : Nat → List (StoreCall × Nat)) (F : Charts) (s : State) :
    Prop where
  charted : Charted store F s
  once : ∀ load, s.due load ≤ 1
  ahead : ∀ load, s.due load ≠ 0 → (F.loads load).fate = none
  begun : ∀ l ∈ s.loads, (F.loads l.id).made ≠ []
  numbered : s.Numbered
  past : ∀ load, past load = entries store (F.loads load).made

/-- A load with base issues that has not gone on with a graph has not come to anything. -/
theorem Lawful.fate_eq_none (h : Lawful store q base off chart) (hbase : base ≠ [])
    (hcourse : chart.source = none ∨ chart.fate = none) : chart.fate = none := by
  obtain hsource | hfate := hcourse
  · cases h with
    | early _ _ _ hnone _ => exact absurd hnone hbase
    | blank _ | based _ => rfl
    | waiting _ | broken _ | resumed _ _ _ => cases hsource
  · exact hfate

theorem entries_append (first more : List (Inquiry × Nat)) :
    entries store (first ++ more) = entries store first ++ entries store more :=
  List.map_append

namespace Logged

theorem step (cfg : Settings) (h : Logged store past F s) (ht : Traced store m s) (event : Event) :
    ∃ F', F.Grows F' ∧
      Logged store (fun load => past load ++ share cfg store load s event) F'
        (Engine.step cfg store s event) := by
  obtain ⟨F', hadvances, hnew⟩ := h.charted.step cfg ht h.ahead event
  have htraced : Traced store m (Engine.step cfg store s event) := ht.step event
  -- a load of the state behind was there before, or has just been started
  have hbegun : ∀ l ∈ (Engine.step cfg store s event).loads, (F'.loads l.id).made ≠ [] := by
    intro l hl
    by_cases hold : l.id < s.queries.started
    · obtain ⟨l₀, hl₀, habides⟩ := (ht.step_abides event).1 l hl hold
      rw [habides.id]
      exact (hadvances.grows.loads l₀.id).made_ne_nil (h.begun l₀ hl₀)
    · exact (hnew l.id (Nat.not_lt.mp hold) (htraced.below l hl)).1
  refine ⟨F', hadvances.grows,
    { charted := hadvances.charted
      once := ht.due_le_one h.once event
      ahead := fun load hdue => ?_
      begun := hbegun
      numbered := ht.numbered_step h.numbered event
      past := fun load => ?_ }⟩
  · by_cases hold : load < s.queries.started
    · have hstep : (Engine.step cfg store s event).due load +
          (if s.asker event = some load then 1 else 0) ≤ s.due load :=
        (ht.step_abides event).2 load hold
      have honce := h.once load
      -- the load can still go on, so it is not the one that went on now
      have hother : s.asker event ≠ some load := by
        intro hasker
        rw [if_pos hasker] at hstep
        omega
      rw [(hadvances.others load hother).2]
      exact h.ahead load (by omega)
    · obtain ⟨l, hl, rfl⟩ := htraced.exists_of_due hdue
      obtain ⟨text, signal, l₀, rfl, hlaunches, habides⟩ := ht.launched hl (Nat.not_lt.mp hold)
      have hbase : l.base ≠ [] := by
        intro hnone
        have hspent := hlaunches.due
        rw [← habides.id, if_pos (habides.base ▸ hnone)] at hspent
        omega
      exact (hadvances.charted.loads l hl).lawful.fate_eq_none hbase
        (hnew l.id (Nat.not_lt.mp hold) (htraced.below l hl)).2
  · obtain ⟨more, hmade, hjournal⟩ := hadvances.made
    by_cases hasker : s.asker event = some load
    · rw [share_of_asker hasker hjournal, h.past load, hmade load hasker, entries_append,
        show s.journal.length = s.asked from ht.recorded, zipIdx_entries]
    · rw [share_of_other hasker, List.append_nil, h.past load, (hadvances.others load hasker).1]

theorem run (cfg : Settings) (h : Logged store past F s) (ht : Traced store m s)
    (events : List Event) :
    ∃ F', F.Grows F' ∧ Logged store (fun load => past load ++ ledger cfg store load s events) F'
      (Engine.run cfg store s events) := by
  induction events generalizing s past F with
  | nil =>
    refine ⟨F, .refl F, ?_⟩
    simpa [ledger, Engine.run] using h
  | cons event rest ih =>
    obtain ⟨F₁, hgrows, hstep⟩ := h.step cfg ht event
    obtain ⟨F', hgrows', hrun⟩ := ih hstep (ht.step event)
    rw [ledger_cons]
    exact ⟨F', hgrows.trans hgrows', hrun⟩

/-- A load whose inquiries are charted is there. -/
theorem exists_load (h : Logged store past F s) (hmade : (F.loads load).made ≠ []) :
    ∃ l ∈ s.loads, l.id = load := by
  by_cases hstarted : load < s.queries.started
  · exact h.numbered load hstarted
  · rw [h.charted.unstarted load (Nat.not_lt.mp hstarted)] at hmade
    exact absurd rfl hmade

end Logged

/-! ## Loads and the calls that they serve -/

/-- The load is the call's own, or the call has joined it. -/
def Load.Serves (l : Load) (i : Nat) (c : Call) : Prop :=
  match l.control with
  | .own call _ => call = i
  | .shared _ => c.load = some l.id

/-- What serves a call is a load of its query, and the server of its chart. -/
theorem Charted.served (h : Charted store F s) (ht : Traced store m s)
    (hc : s.calls[i]? = some c) (hl : l ∈ s.loads) (hserves : l.Serves i c) :
    readQuery c.text = .ok l.query ∧ F.server i = some l.id := by
  unfold Load.Serves at hserves
  cases hcontrol : l.control with
  | shared aborted =>
    rw [hcontrol] at hserves
    obtain ⟨l', hl', hid, hquery, -⟩ := (ht.calls i c hc).loaded l.id hserves
    obtain rfl := ht.eq_of_id hl hl' hid
    exact ⟨hquery, (h.calls i c hc).joined l'.id hserves⟩
  | own k signal =>
    rw [hcontrol] at hserves
    obtain rfl : k = i := hserves
    obtain ⟨c', hc', hquery, -⟩ := (ht.loads l hl).own k signal hcontrol
    obtain rfl := Option.some.inj (hc.symm.trans hc')
    exact ⟨hquery, ((h.loads l hl).own k signal hcontrol).1⟩

/-- Nothing is known of a new engine. -/
def Charts.none : Charts := ⟨fun _ => .blank false, fun _ => .none, fun _ => .none⟩

theorem logged_new (store : Store) (now : Time) (ttl interval ttl' interval' : Option Time) :
    Logged store (fun _ => []) .none (.new now (.new now ttl interval) (.new now ttl' interval')) where
  charted :=
    { loads := fun _ hl => nomatch hl
      calls := fun _ _ hc => nomatch hc
      jobs := fun _ hj => nomatch hj.choose_spec
      isOver := fun _ hover => nomatch hover
      waiters := fun _ hw => nomatch hw
      underWay := fun _ hf => nomatch hf
      unstarted := fun _ _ => rfl
      unasked := fun _ _ => rfl
      asked := fun _ _ hg => nomatch hg
      unmade := fun _ _ => rfl }
  once := fun _ => by simp [State.due, State.Awaits, State.new]
  ahead := fun _ _ => rfl
  begun := fun _ hl => nomatch hl
  numbered := fun _ hload => nomatch hload
  past := fun _ => rfl

end IssueQuery.Engine
