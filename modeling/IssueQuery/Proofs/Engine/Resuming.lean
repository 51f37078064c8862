import IssueQuery.Proofs.Engine.Starting

/-!
# Loads that go on with the graph

Every statement that an engine gives to the store is given for one of its loads: for the load that a
call starts, or for the load that goes on with the graph. A load goes on with the graph once at most,
and until then it is what it was when it started.

* `State.asker`   for which load an event asks;
* `State.due`     how often a load may still go on with the graph;
* `Abides`        older loads are as they were, and go on no more often;
* `Launches`      a load has started;
* `Traced.step_abides` an event that asks for an older load uses its turn up.
-/

namespace IssueQuery.Engine

variable {cfg : Settings} {store : Store} {m : Mark} {s s' s'' : State} {l l' : Load} {job : Job}
  {event : Event} {load bound number : Nat} {outcome : Except LoadFailure Outcome}

/-! ## For whom the store is asked -/

/-- The load for which the store is asked during an event, if it is asked at all. -/
def State.asker (s : State) : Event → Option Nat
  | .call _ _ => some s.queries.started
  | .tick =>
    match s.agenda with
    | (0, .resume load _) :: _ => some load
    | _ => none
  | .abort .. | .invalidate | .invalidateGraph | .advance _ | .close => none

/-- An event that has no asker asks nothing. -/
theorem notes_of_asker (h : s.asker event = none) : Notes s (step cfg store s event) [] := by
  cases event with
  | call text signal => exact nomatch h
  | tick =>
    have hs : Ticked cfg store s (step cfg store s .tick) := ticked cfg store s
    generalize step cfg store s .tick = s' at hs ⊢
    cases hs with
    | idle | putOff => exact .of_eq rfl rfl
    | @due job rest _ hagenda hs =>
      have hrest : Notes s { s with agenda := rest } [] := .of_eq rfl rfl
      refine hrest.trans (hs.notes_of_idle fun id graph hjob => ?_)
      simp [State.asker, hagenda, hjob] at h
  | abort signal reason => exact notes_of_quiet (fun _ _ => nofun) nofun
  | invalidate => exact notes_of_quiet (fun _ _ => nofun) nofun
  | invalidateGraph => exact notes_of_quiet (fun _ _ => nofun) nofun
  | advance span => exact notes_of_quiet (fun _ _ => nofun) nofun
  | close => exact notes_of_quiet (fun _ _ => nofun) nofun

/-- A turn that has an asker is one in which this load goes on with a graph. -/
theorem exists_resume_of_asker (h : s.asker .tick = some load) :
    ∃ graph rest, s.agenda = (0, .resume load graph) :: rest := by
  simp only [State.asker] at h
  split at h
  · rename_i id graph rest hagenda
    obtain rfl := Option.some.inj h
    exact ⟨graph, rest, hagenda⟩
  · cases h

/-- Nothing but a call starts a load. -/
theorem call_or_notes (cfg : Settings) (store : Store) (s : State) (event : Event) :
    (∃ text signal, event = .call text signal) ∨
      ∃ entries, Notes s (step cfg store s event) entries := by
  by_cases hcall : ∃ text signal, event = .call text signal
  · exact .inl hcall
  · right
    by_cases htick : event = .tick
    · obtain ⟨entries, hnotes, -⟩ := tick_notes cfg store s
      exact ⟨entries, htick ▸ hnotes⟩
    · exact ⟨[], notes_of_quiet (fun text signal hsame => hcall ⟨text, signal, hsame⟩) htick⟩

/-- Events add to the journal and start loads, one at most, and take nothing back. -/
theorem Traced.grows (h : Traced store m s) (cfg : Settings) (event : Event) :
    s.journal <+: (Engine.step cfg store s event).journal ∧
      s.queries.started ≤ (Engine.step cfg store s event).queries.started ∧
      (Engine.step cfg store s event).queries.started ≤ s.queries.started + 1 := by
  have hnotes {entries : List StoreCall} (hn : Notes s (Engine.step cfg store s event) entries) :
      s.journal <+: (Engine.step cfg store s event).journal ∧
        s.queries.started ≤ (Engine.step cfg store s event).queries.started ∧
        (Engine.step cfg store s event).queries.started ≤ s.queries.started + 1 := by
    rw [hn.started, hn.journal]
    exact ⟨List.prefix_append _ _, Nat.le_refl _, Nat.le_succ _⟩
  obtain ⟨text, signal, rfl⟩ | ⟨entries, hn⟩ := call_or_notes cfg store s event
  · obtain hn | ⟨q, -, selection, entries, -, hstarted, hjournal, -⟩ :=
      call_notes cfg store h.below text signal
    · exact hnotes hn
    · exact ⟨hjournal ▸ List.prefix_append _ _, hstarted ▸ Nat.le_succ _, Nat.le_of_eq hstarted⟩
  · exact hnotes hn

theorem Traced.journal_run (h : Traced store m s) (events : List Event) :
    s.journal <+: (Engine.run cfg store s events).journal := by
  induction events generalizing s with
  | nil => exact List.prefix_refl _
  | cons event rest ih => exact (h.grows cfg event).1.trans (ih (h.step event))

/-! ## Loads that stay as they were -/

/-- The load is for the same query, and has the same base issues. -/
structure Load.Abides (l l' : Load) : Prop where
  id : l'.id = l.id
  query : l'.query = l.query
  base : l'.base = l.base

/-- Whether a load goes on with the graph in the job. -/
def Job.resumes (load : Nat) : Job → Bool
  | .resume id _ => id == load
  | .subscribe _ | .settle .. | .settleGraph .. | .deliverGraph .. | .deliver .. | .finish .. => false

/-- The load waits for the graph. -/
def State.Awaits (s : State) (load : Nat) : Prop :=
  ∃ l ∈ s.loads, l.id = load ∧ l.graphLoad.isSome

instance : Decidable (s.Awaits load) :=
  inferInstanceAs (Decidable (∃ l ∈ s.loads, l.id = load ∧ l.graphLoad.isSome))

/-- How often the load may still go on with the graph. -/
def State.due (s : State) (load : Nat) : Nat :=
  s.agenda.countP (fun p => p.2.resumes load) + if s.Awaits load then 1 else 0

/-- The loads are what they were, and those with numbers below the bound go on with the graph no more
often than before. -/
structure Abides (bound : Nat) (s s' : State) : Prop where
  loads : ∀ l' ∈ s'.loads, ∃ l ∈ s.loads, l.Abides l'
  due : ∀ load < bound, s'.due load ≤ s.due load

theorem Load.Abides.refl (l : Load) : l.Abides l := ⟨rfl, rfl, rfl⟩

theorem Load.Abides.trans {l'' : Load} (h : l.Abides l') (h' : l'.Abides l'') : l.Abides l'' :=
  ⟨h'.id.trans h.id, h'.query.trans h.query, h'.base.trans h.base⟩

theorem due_le (items : List (Nat × Job)) (hagenda : s'.agenda = s.agenda ++ items)
    (hitems : ∀ p ∈ items, p.2.resumes load = false) (hawaits : s'.Awaits load → s.Awaits load) :
    s'.due load ≤ s.due load := by
  have hnone : items.countP (fun p => p.2.resumes load) = 0 :=
    List.countP_eq_zero.mpr fun p hp => by rw [hitems p hp]; exact Bool.false_ne_true
  unfold State.due
  rw [hagenda, List.countP_append, hnone]
  by_cases h : s'.Awaits load
  · rw [if_pos h, if_pos (hawaits h), Nat.add_zero]
  · rw [if_neg h]
    exact Nat.le_add_right _ _

namespace Abides

theorem refl (bound : Nat) (s : State) : Abides bound s s :=
  ⟨fun l hl => ⟨l, hl, .refl l⟩, fun _ _ => Nat.le_refl _⟩

theorem trans (h : Abides bound s s') (h' : Abides bound s' s'') : Abides bound s s'' where
  loads := by
    intro l'' hl''
    obtain ⟨l', hl', habides'⟩ := h'.loads l'' hl''
    obtain ⟨l, hl, habides⟩ := h.loads l' hl'
    exact ⟨l, hl, habides.trans habides'⟩
  due := fun load hload => Nat.le_trans (h'.due load hload) (h.due load hload)

theorem of_same (hloads : s'.loads = s.loads) (hagenda : s'.agenda = s.agenda) :
    Abides bound s s' where
  loads := fun l hl => ⟨l, hloads ▸ hl, .refl l⟩
  due := fun _ _ => due_le [] (hagenda.trans (List.append_nil _).symm) (fun _ hp => nomatch hp)
    fun ⟨l, hl, hwaits⟩ => ⟨l, hloads ▸ hl, hwaits⟩

/-- Jobs are put on the agenda with which no load below the bound goes on. -/
theorem scheduleAll (bound : Nat) (s : State) (items : List (Nat × Job))
    (hitems : ∀ p ∈ items, ∀ load < bound, p.2.resumes load = false) :
    Abides bound s { s with agenda := s.agenda ++ items } where
  loads := (refl bound s).loads
  due := fun load hload => due_le items rfl (fun p hp => hitems p hp load hload) id

theorem schedule (bound : Nat) (s : State) (turns : Nat) (job : Job)
    (hjob : ∀ load < bound, job.resumes load = false) : Abides bound s (s.schedule turns job) :=
  scheduleAll bound s [(turns, job)] (List.forall_mem_singleton.mpr hjob)

/-- A load changes that may wait for the graph now if its number is not below the bound. -/
theorem modifyLoad (s : State) (number : Nat) {change : Load → Load}
    (hsame : ∀ l : Load, l.Abides (change l))
    (hwaits : number < bound → ∀ l : Load, (change l).graphLoad.isSome → l.graphLoad.isSome) :
    Abides bound s (s.modifyLoad number change) where
  loads := by
    intro l' hl'
    obtain ⟨l, hl, rfl⟩ := List.mem_map.mp hl'
    refine ⟨l, hl, ?_⟩
    split
    · exact hsame l
    · exact .refl l
  due := by
    intro load hload
    refine due_le [] (List.append_nil _).symm (fun _ hp => nomatch hp) ?_
    rintro ⟨l', hl', hid, hsome⟩
    obtain ⟨l, hl, rfl⟩ := List.mem_map.mp hl'
    refine ⟨l, hl, ?_⟩
    -- only the load of this number changes, and it waits after the change only if it did before
    by_cases hnumber : l.id = number
    · rw [if_pos hnumber] at hid hsome
      have hbound : number < bound := by
        rw [← hnumber, ← (hsame l).id, hid]
        exact hload
      exact ⟨(hsame l).id.symm.trans hid, hwaits hbound l hsome⟩
    · rw [if_neg hnumber] at hid hsome
      exact ⟨hid, hsome⟩

end Abides

/-! ## While the store is asked -/

theorem abides_turnAway (bound : Nat) (s : State) (signal reason : Text) (call : Nat) :
    Abides bound s (s.turnAway signal reason call) := by
  have hoff : ∀ (s : State) (load : Nat), Abides bound s (s.callOff load signal reason) := by
    intro s load
    have hmodified : Abides bound s (s.modifyLoad load fun l =>
        { l with control := .shared (some (signal, reason)), graphLoad := none }) :=
      .modifyLoad s load (fun _ => ⟨rfl, rfl, rfl⟩) fun _ _ hsome => nomatch hsome
    obtain ⟨graphs, waiters, hcallOff, -⟩ := callOff_eq s load signal reason
    rw [hcallOff]
    exact hmodified.trans (.of_same rfl rfl)
  have hdeparted (load : Nat) : Abides bound s (s.departed call load reason) := .of_same rfl rfl
  obtain hsame | ⟨-, load, -, -, hturned | hturned⟩ := turnAway_cases s signal reason call
  · rw [hsame]
    exact .refl bound s
  · rw [hturned]
    exact hdeparted load
  · rw [hturned]
    exact (hdeparted load).trans (hoff _ load)

theorem abides_abort (bound : Nat) (s : State) (signal reason : Text) :
    Abides bound s (s.abort signal reason) :=
  abort_keeps (P := fun s' => Abides bound s s') (.refl bound s) (fun _ => .of_same rfl rfl)
    fun s' i _ h => h.trans (abides_turnAway bound s' signal reason i)

theorem Meanwhile.abides (h : Meanwhile s s') : Abides bound s s' := by
  induction h with
  | refl => exact .refl bound _
  | notes _ journal asked lines ih => exact ih.trans (.of_same rfl rfl)
  | advance _ span ih => exact ih.trans (.of_same rfl rfl)
  | abort _ signal reason ih => exact ih.trans (abides_abort bound _ signal reason)

/-! ## Turns -/

theorem abides_conclude (bound : Nat) (s : State) (l : Load)
    (outcome : Except LoadFailure Outcome) : Abides bound s (conclude s l outcome) := by
  obtain ⟨turns, hconclude⟩ := conclude_eq s l outcome
  rw [hconclude]
  refine .schedule bound s turns _ fun load _ => ?_
  unfold endJob
  split <;> rfl

/-- A load goes on once the graph is delivered to it, instead of waiting for it. -/
theorem abides_deliveredGraph (bound : Nat) (s : State) {id : Nat} (graph : Except LoadFailure Graph)
    (hbefore : s.Awaits id) (waiters : List (Nat × Nat)) :
    Abides bound s ({ s.modifyLoad id fun l => { l with graphLoad := none } with
      graphWaiters := waiters }.schedule 1 (.resume id graph)) := by
  let freed := s.modifyLoad id fun l => { l with graphLoad := none }
  have hfreed : Abides bound s freed :=
    .modifyLoad s id (fun _ => ⟨rfl, rfl, rfl⟩) fun _ _ hsome => nomatch hsome
  refine ⟨hfreed.loads, fun load hload => ?_⟩
  by_cases hid : id = load
  · -- what the job adds is what the load gave up
    subst hid
    have hafter : ¬ freed.Awaits id := by
      rintro ⟨l', hl', hid', hsome⟩
      obtain ⟨l, hl, rfl⟩ := List.mem_map.mp hl'
      by_cases hid : l.id = id
      · rw [if_pos hid] at hsome
        exact nomatch hsome
      · rw [if_neg hid] at hid'
        exact hid hid'
    have hdue : s.due id = s.agenda.countP (fun p => p.2.resumes id) + 1 := by
      rw [State.due, if_pos hbefore]
    show (s.agenda ++ [(1, Job.resume id graph)]).countP (fun p : Nat × Job => p.2.resumes id) +
      (if freed.Awaits id then 1 else 0) ≤ s.due id
    rw [hdue, if_neg hafter, List.countP_append]
    simp [Job.resumes]
  · have hothers : (Job.resume id graph).resumes load = false := beq_eq_false_iff_ne.mpr hid
    refine Nat.le_trans (due_le [(1, .resume id graph)] rfl ?_ fun h => h) (hfreed.due load hload)
    exact List.forall_mem_singleton.mpr hothers

theorem Performed.abides (h : Performed cfg store s job s') (bound : Nat) : Abides bound s s' := by
  cases h with
  | unserved | unawaited | unknown | deliveredLate | finishedLate => exact .refl bound s
  | toldLate => exact .schedule bound s _ _ fun _ _ => rfl
  | subscribed => exact .modifyLoad s _ (fun _ => ⟨rfl, rfl, rfl⟩) fun _ _ => id
  | settled id outcome =>
    let kept : State := { s with queries := s.queries.settle id outcome.toOption s.now }
    have hkept : Abides bound s kept := .of_same rfl rfl
    have hended : Abides bound kept (kept.modifyLoad id fun l => { l with ended := some outcome }) :=
      .modifyLoad kept id (fun _ => ⟨rfl, rfl, rfl⟩) fun _ _ h => h
    -- the notices are told to calls, none of them takes a load further
    refine (hkept.trans hended).trans (.scheduleAll bound _ _ fun p hp load _ => ?_)
    obtain ⟨call, -, rfl⟩ := List.mem_map.mp hp
    unfold notice
    split <;> rfl
  | settledGraph g graph =>
    have hkept : Abides bound s { s with graphs := s.graphs.settle g graph.toOption s.now } :=
      .of_same rfl rfl
    refine hkept.trans (.scheduleAll bound _ _ fun p hp load _ => ?_)
    obtain ⟨w, -, rfl⟩ := List.mem_map.mp hp
    rfl
  | @deliveredGraph _ _ l graph hfound hwaits =>
    obtain ⟨hl, hid⟩ := mem_of_load? hfound
    exact abides_deliveredGraph bound s graph ⟨l, hl, hid, hwaits ▸ rfl⟩ _
  | graphless | plain => exact abides_conclude bound s _ _
  | @expanded id l e graph =>
    have hproceeds : Proceeds store id (expand cfg store id l.base e graph) :=
      proceeds_expand cfg l.base e graph
    exact (hproceeds s).1.abides.trans (abides_conclude bound _ l _)
  | @delivered call =>
    have hdeaf : Abides bound s (s.modifyCall call fun c => { c with listening := false }) :=
      .of_same rfl rfl
    exact hdeaf.trans (.schedule bound _ _ _ fun _ _ => rfl)
  | finished => exact .of_same (frame_finishWith ..).loads (frame_finishWith ..).agenda

/-- A turn in which a load goes on is one that was due. -/
theorem Ticked.due_le (hs : Ticked cfg store s s') (load : Nat) :
    s'.due load + (if s.asker .tick = some load then 1 else 0) ≤ s.due load := by
  cases hs with
  | idle hagenda => simp [State.asker, hagenda]
  | @due job rest _ hagenda hs =>
    -- the job that is performed is due no more, and performing it makes nothing due anew
    have hdue : s.due load = State.due { s with agenda := rest } load +
        if job.resumes load then 1 else 0 := by
      have hawaits : State.Awaits { s with agenda := rest } load ↔ s.Awaits load := Iff.rfl
      unfold State.due
      simp only [hawaits, hagenda, List.countP_cons]
      omega
    have hasker : s.asker .tick = some load ↔ job.resumes load = true := by
      simp only [State.asker, hagenda]
      cases job <;> simp [Job.resumes]
    have hrest := (hs.abides (load + 1)).due load (Nat.lt_succ_self load)
    rw [hdue]
    simp only [hasker]
    omega
  | @putOff turns job rest hagenda =>
    -- a job that goes back to the end is counted there as before
    have hdue : s.due load = State.due { s with agenda := rest ++ [(turns, job)] } load := by
      have hawaits : State.Awaits { s with agenda := rest ++ [(turns, job)] } load ↔
          s.Awaits load := Iff.rfl
      unfold State.due
      simp only [hawaits, hagenda, List.countP_cons, List.countP_append, List.countP_nil]
      omega
    rw [hdue]
    simp [State.asker, hagenda]

theorem Ticked.abides (hs : Ticked cfg store s s') (bound : Nat) : Abides bound s s' where
  loads := by
    cases hs with
    | idle | putOff => exact (Abides.refl bound s).loads
    | due _ hs => exact (hs.abides bound).loads
  due := fun load _ => Nat.le_trans (Nat.le_add_right _ _) (hs.due_le load)

/-! ## Loads that start -/

/-- A load that has just started waits for the graph, or goes on with it later. -/
theorem due_awaitGraph (s : State) (g load : Nat) :
    Abides load s (awaitGraph s g load) ∧ (awaitGraph s g load).due load ≤ s.due load + 1 := by
  constructor
  · have hwaits : Abides load s (s.modifyLoad load fun l => { l with graphLoad := some g }) :=
      .modifyLoad s load (fun _ => ⟨rfl, rfl, rfl⟩) fun hless => absurd hless (Nat.lt_irrefl _)
    exact hwaits.trans (.of_same rfl rfl)
  · have hagenda : (awaitGraph s g load).agenda = s.agenda := rfl
    unfold State.due
    rw [hagenda]
    split <;> omega

theorem due_resumed (s : State) (turns load : Nat) (graph : Except LoadFailure Graph) :
    Abides load s (s.schedule turns (.resume load graph)) ∧
      (s.schedule turns (.resume load graph)).due load ≤ s.due load + 1 := by
  constructor
  · exact .schedule load s turns _ fun _ hless => beq_eq_false_iff_ne.mpr (Nat.ne_of_gt hless)
  · have hawaits : (s.schedule turns (.resume load graph)).Awaits load ↔ s.Awaits load := Iff.rfl
    have hcount : (s.schedule turns (.resume load graph)).agenda.countP
        (fun p => p.2.resumes load) = s.agenda.countP (fun p => p.2.resumes load) + 1 := by
      simp [State.schedule, List.countP_append, Job.resumes]
    unfold State.due
    simp only [hawaits, hcount]
    omega

theorem due_behind (h : Abides (load + 1) s s') {extra : Nat}
    (h' : Abides load s' s'' ∧ s''.due load ≤ s'.due load + extra) :
    Abides load s s'' ∧ s''.due load ≤ s.due load + extra := by
  have hbelow : Abides load s s' := ⟨h.loads, fun n hn => h.due n (Nat.lt_succ_of_lt hn)⟩
  exact ⟨hbelow.trans h'.1,
    Nat.le_trans h'.2 (Nat.add_le_add_right (h.due load (Nat.lt_succ_self load)) extra)⟩

theorem due_turnToGraph (s : State) (l : Load) :
    Abides l.id s (turnToGraph cfg store s l) ∧
      (turnToGraph cfg store s l).due l.id ≤ s.due l.id + 1 := by
  have hasked (s : State) : Abides (l.id + 1) s (staged .graph (loadGraph store) s).2 :=
    (meanwhile_loadGraph store s).abides
  unfold turnToGraph
  split
  · exact due_resumed s 0 l.id _
  · split
    · have hcache (graphs : ReadThrough Unit Graph) :
          Abides (l.id + 1) s { s with graphs := graphs } := .of_same rfl rfl
      unfold requestGraph
      split
      · exact due_behind (hcache _) (due_resumed _ 0 l.id _)
      · exact due_behind (hcache _) (due_awaitGraph _ _ l.id)
      · refine due_behind ?_ (due_awaitGraph _ _ l.id)
        exact ((hcache _).trans (hasked _)).trans (.schedule _ _ 0 _ fun _ _ => rfl)
    · exact due_behind (hasked s) (due_resumed _ 2 l.id _)

/-- The engine when a load has been added that does not wait for the graph. -/
def State.withLoad (s : State) (l : Load) : State := { s with loads := s.loads ++ [l] }

theorem due_withLoad (s : State) (l : Load) (hgraph : l.graphLoad = none) (load : Nat) :
    (s.withLoad l).due load = s.due load := by
  have hawaits : (s.withLoad l).Awaits load ↔ s.Awaits load := by
    simp [State.Awaits, State.withLoad, or_and_right, exists_or, hgraph]
  have hagenda : (s.withLoad l).agenda = s.agenda := rfl
  unfold State.due
  simp only [hawaits, hagenda]

/-- To change the base of a load that was added last is to have added it with that base. -/
theorem abides_setBase (hnew : ∀ l' ∈ s.loads, l'.id ≠ l.id)
    (h : Abides bound (s.withLoad l) s') (hgraph : l.graphLoad = none) (base : List Issue) :
    Abides bound (s.withLoad { l with base := base })
      (s'.modifyLoad l.id fun l => { l with base := base }) where
  loads := by
    intro l'' hl''
    obtain ⟨l', hl', rfl⟩ := List.mem_map.mp hl''
    obtain ⟨l₀, hl₀, hid, hquery, hbase⟩ := h.loads l' hl'
    -- the base is set in the last load alone, for the others have another number
    obtain hold | hlast := List.mem_append.mp hl₀
    · rw [if_neg (hid ▸ hnew l₀ hold)]
      exact ⟨l₀, List.mem_append_left _ hold, hid, hquery, hbase⟩
    · obtain rfl := List.mem_singleton.mp hlast
      rw [if_pos hid]
      exact ⟨_, List.mem_append_right _ (List.mem_singleton.mpr rfl), hid, hquery, rfl⟩
  due := by
    intro load hload
    have hsame : (s.withLoad { l with base := base }).due load = (s.withLoad l).due load := by
      rw [due_withLoad s l hgraph, due_withLoad s { l with base := base } hgraph]
    rw [hsame]
    have hless : (s'.modifyLoad l.id fun l => { l with base := base }).due load ≤ s'.due load := by
      refine due_le [] (List.append_nil _).symm (fun _ hp => nomatch hp) ?_
      rintro ⟨l'', hl'', hid, hwaits⟩
      obtain ⟨l', hl', rfl⟩ := List.mem_map.mp hl''
      refine ⟨l', hl', ?_⟩
      split at hid <;> simp_all
    exact Nat.le_trans hless (h.due load hload)

/-- A load that starts without anything may go on with the graph once if it has base issues, which
are those that it fetched. -/
theorem due_startLoad (hnew : ∀ l' ∈ s.loads, l'.id ≠ l.id) (hbase : l.base = [])
    (hgraph : l.graphLoad = none) :
    ∃ base, (base ≠ [] →
        (fetchBase store l.id l.query (s.withLoad l)).1 = .ok base) ∧
      Abides l.id (s.withLoad { l with base := base }) (startLoad cfg store s l) ∧
      (startLoad cfg store s l).due l.id ≤ s.due l.id + if base = [] then 0 else 1 := by
  have hfetched (bound : Nat) : Abides bound (s.withLoad l)
      (fetchBase store l.id l.query (s.withLoad l)).2 :=
    (meanwhile_fetchBase store l.id l.query _).abides
  have hdue (base : List Issue) : (s.withLoad { l with base := base }).due l.id = s.due l.id :=
    due_withLoad s { l with base := base } hgraph l.id
  obtain ⟨expanding, outcome, -, hstart⟩ | ⟨base, e, hfound, hne, -, hstart⟩ :=
    startLoad_cases cfg store s l
  · refine ⟨[], fun h => absurd rfl h, ?_⟩
    obtain ⟨turns, hconclude⟩ := concludeEarly_eq
      (fetchBase store l.id l.query (s.withLoad l)).2 l expanding outcome
    -- a load that ends early takes no load further
    have hend : ∀ load, (endJob l outcome).resumes load = false := by
      intro load
      unfold endJob
      split <;> rfl
    have hsame : { l with base := [] } = l := by rw [← hbase]
    have hended := (hfetched (l.id + 1)).trans (.schedule _ _ turns _ fun load _ => hend load)
    rw [← hconclude] at hended
    rw [hstart, ← hdue [], hsame]
    exact due_behind hended ⟨.refl _ _, Nat.le_refl _⟩
  · refine ⟨base, fun _ => hfound, ?_⟩
    rw [hstart, ← hdue base, if_neg hne]
    exact due_behind (abides_setBase hnew (hfetched _) hgraph base) (due_turnToGraph _ l)

/-! ## Calls and other events -/

theorem abides_join (bound : Nat) (s : State) (call load : Nat) :
    Abides bound s (join s call load) := by
  have hcalls (change : Call → Call) : Abides bound s (s.modifyCall call change) := .of_same rfl rfl
  obtain hjoin | hjoin := join_cases s call load <;> rw [hjoin]
  · exact (hcalls _).trans (.modifyLoad _ load (fun _ => ⟨rfl, rfl, rfl⟩) fun _ _ => id)
  · exact (hcalls _).trans (.schedule bound _ 0 _ fun _ _ => rfl)

/-- Only a load that has started may still go on with the graph. -/
theorem Traced.exists_of_due (h : Traced store m s) (hdue : s.due load ≠ 0) :
    ∃ l ∈ s.loads, l.id = load := by
  by_contra hnone
  have hjobs : s.agenda.countP (fun p => p.2.resumes load) = 0 := by
    refine List.countP_eq_zero.mpr fun p hp hresumes => ?_
    obtain ⟨turns, job⟩ := p
    cases job with
    | resume id graph =>
      obtain ⟨l, hl, hid, -⟩ := h.jobs _ ⟨turns, hp⟩
      exact hnone ⟨l, hl, hid.trans (eq_of_beq hresumes)⟩
    | subscribe call | settle id outcome | settleGraph g graph | deliverGraph id graph
    | deliver call outcome | finish call outcome => exact nomatch hresumes
  have hawaits : ¬ s.Awaits load := by
    rintro ⟨l, hl, hid, -⟩
    exact hnone ⟨l, hl, hid⟩
  rw [State.due, hjobs, if_neg hawaits] at hdue
  exact hdue rfl

/-- A load that has not started yet does not go on with the graph. -/
theorem Traced.due_eq_zero (h : Traced store m s) (hload : s.queries.started ≤ load) :
    s.due load = 0 := by
  by_contra hdue
  obtain ⟨l, hl, rfl⟩ := h.exists_of_due hdue
  exact Nat.not_lt.mpr hload (h.below l hl)

/-- The load has started between the states, and nothing else has come up. If it has base issues, then
it may go on with the graph once, and these were asked for. -/
structure Launches (store : Store) (s s' : State) (l : Load) : Prop where
  id : l.id = s.queries.started
  loads : ∀ l' ∈ s'.loads, (∃ l₀ ∈ s.loads, l₀.Abides l') ∨ l.Abides l'
  older : ∀ load < l.id, s'.due load ≤ s.due load
  due : s'.due l.id ≤ if l.base = [] then 0 else 1
  begun : Unfailing store → l.base ≠ [] → ∃ statements,
    s'.journal = s.journal ++ statements.map ranEntry ∧ Begun store l.query s.asked statements l.base

/-- What happens behind the start of a load makes no difference, if it starts and asks nothing. -/
theorem Launches.before (h : Launches store s s' l) (hjournal : s''.journal = s'.journal)
    (hs : Abides (l.id + 1) s' s'') : Launches store s s'' l where
  id := h.id
  loads := by
    intro l'' hl''
    obtain ⟨l', hl', habides⟩ := hs.loads l'' hl''
    obtain ⟨l₀, hl₀, hold⟩ | hlast := h.loads l' hl'
    · exact .inl ⟨l₀, hl₀, hold.trans habides⟩
    · exact .inr (hlast.trans habides)
  older := fun load hload =>
    Nat.le_trans (hs.due load (Nat.lt_succ_of_lt hload)) (h.older load hload)
  due := Nat.le_trans (hs.due l.id (Nat.lt_succ_self _)) h.due
  begun := by
    rw [hjournal]
    exact h.begun

theorem Traced.launches (h : Traced store m s) (text : Text)
    (signal : Option Text) (texts : List Text) (queries : ReadThrough Text Outcome) (q : Query)
    (control : Control) :
    ∃ l : Load, l.query = q ∧
      Launches store s (Engine.startLoad cfg store (s.made text signal texts queries)
        ⟨s.queries.started, q, control, [], none, [], none⟩) l := by
  let made := s.made text signal texts queries
  let l : Load := ⟨s.queries.started, q, control, [], none, [], none⟩
  have hmade (load : Nat) : made.due load = s.due load := rfl
  have hnew : ∀ l' ∈ made.loads, l'.id ≠ l.id := h.fresh_started
  obtain ⟨base, hbase, habides, hdue⟩ : ∃ base, (base ≠ [] →
      (fetchBase store l.id l.query (made.withLoad l)).1 = .ok base) ∧
      Abides l.id (made.withLoad { l with base := base }) (Engine.startLoad cfg store made l) ∧
      (Engine.startLoad cfg store made l).due l.id ≤
        made.due l.id + if base = [] then 0 else 1 := due_startLoad hnew rfl rfl
  refine ⟨{ l with base := base }, rfl, rfl, fun l' hl' => ?_, fun load hload => ?_, ?_,
    fun hstore hne => begun_startLoad hstore h.recorded (hbase hne)⟩
  · obtain ⟨l₀, hl₀, habides⟩ := habides.loads l' hl'
    obtain hold | hlast := List.mem_append.mp hl₀
    · exact .inl ⟨l₀, hold, habides⟩
    · exact .inr (List.mem_singleton.mp hlast ▸ habides)
  · rw [← hmade, ← due_withLoad made { l with base := base } rfl]
    exact habides.due load hload
  · -- nothing was due for a load of this number before
    rw [hmade, h.due_eq_zero (Nat.le_refl _), Nat.zero_add] at hdue
    exact hdue

/-- A call starts one load at most. -/
theorem Called.launches {text : Text} {signal : Option Text}
    (hcalled : Called cfg store s text signal s') (h : Traced store m s) :
    (∀ bound, Abides bound s s') ∨
      ∃ l, readQuery text = .ok l.query ∧ Launches store s s' l := by
  have hmade (texts : List Text) (queries : ReadThrough Text Outcome) (bound : Nat) :
      Abides bound s (s.made text signal texts queries) := .of_same rfl rfl
  cases hcalled with
  | rejected texts rejection lines hcause =>
    exact .inl fun bound => (hmade texts s.queries bound).trans (.of_same rfl rfl)
  | kept texts queries out hon hqueries hholds =>
    exact .inl fun bound =>
      (hmade texts queries bound).trans (.schedule bound _ 0 _ fun _ _ => rfl)
  | joined texts queries load hon hqueries =>
    exact .inl fun bound => (hmade texts queries bound).trans (abides_join bound _ _ load)
  | shared texts queries q hon hquery hstarted hholds =>
    obtain ⟨l, rfl, hl⟩ := h.launches text signal texts queries q (.shared none)
    refine .inr ⟨l, hquery, hl.before ?_ (abides_join _ _ _ _)⟩
    rw [join_journal]
  | own texts q hoff hquery hquiet =>
    obtain ⟨l, rfl, hl⟩ := h.launches text signal texts s.queries.startUnshared.2 q
      (.own s.calls.length signal)
    exact .inr ⟨l, hquery, hl⟩

/-- An event leaves the loads alone that were there before, and uses up a turn of the load for which
it asks. -/
theorem Traced.step_abides (h : Traced store m s) (event : Event) :
    (∀ l' ∈ (Engine.step cfg store s event).loads, l'.id < s.queries.started →
      ∃ l ∈ s.loads, l.Abides l') ∧
    ∀ load < s.queries.started, (Engine.step cfg store s event).due load +
      (if s.asker event = some load then 1 else 0) ≤ s.due load := by
  have hquiet {s' : State} (hs : Abides s.queries.started s s') (hasker : s.asker event = none) :
      (∀ l' ∈ s'.loads, l'.id < s.queries.started → ∃ l ∈ s.loads, l.Abides l') ∧
      ∀ load < s.queries.started, s'.due load +
        (if s.asker event = some load then 1 else 0) ≤ s.due load := by
    refine ⟨fun l' hl' _ => hs.loads l' hl', fun load hload => ?_⟩
    rw [hasker]
    exact hs.due load hload
  cases event with
  | call text signal =>
    -- a call asks for its own new load only
    have hother : ∀ load < s.queries.started, s.asker (.call text signal) ≠ some load :=
      fun load hload hsame => Nat.ne_of_gt hload (Option.some.inj hsame)
    obtain habides | ⟨l, -, hl⟩ := (called cfg store s text signal).launches h
    · refine ⟨fun l' hl' _ => (habides 0).loads l' hl', fun load hload => ?_⟩
      rw [if_neg (hother load hload)]
      exact (habides (load + 1)).due load (Nat.lt_succ_self load)
    · refine ⟨fun l' hl' hless => ?_, fun load hload => ?_⟩
      · refine (hl.loads l' hl').resolve_right fun hlast => ?_
        exact absurd (hlast.id.trans hl.id) (Nat.ne_of_lt hless)
      · rw [if_neg (hother load hload)]
        exact hl.older load (hl.id ▸ hload)
  | tick =>
    have hticked := ticked cfg store s
    exact ⟨fun l' hl' _ => (hticked.abides 0).loads l' hl', fun load _ => hticked.due_le load⟩
  | abort signal reason => exact hquiet (abides_abort _ s signal reason) rfl
  | invalidate => exact hquiet (.of_same rfl rfl) rfl
  | invalidateGraph => exact hquiet (.of_same rfl rfl) rfl
  | advance span => exact hquiet (.of_same rfl rfl) rfl
  | close => exact hquiet (.of_same rfl rfl) rfl

/-- A load goes on with the graph once at most. -/
theorem Traced.due_le_one (h : Traced store m s)
    (honce : ∀ load, s.due load ≤ 1) (event : Event) (load : Nat) :
    (Engine.step cfg store s event).due load ≤ 1 := by
  by_cases hold : load < s.queries.started
  · have hstep : (Engine.step cfg store s event).due load +
        (if s.asker event = some load then 1 else 0) ≤ s.due load :=
      (h.step_abides event).2 load hold
    have hless := honce load
    omega
  by_cases hlater : (Engine.step cfg store s event).queries.started ≤ load
  · rw [(h.step event).due_eq_zero hlater]
    exact Nat.zero_le 1
  -- the load has just started, so the event is a call
  obtain ⟨text, signal, rfl⟩ | ⟨entries, hnotes⟩ := call_or_notes cfg store s event
  · obtain habides | ⟨l, -, hl⟩ := (called cfg store s text signal).launches h
    · refine Nat.le_trans ((habides (load + 1)).due load (Nat.lt_succ_self load)) (honce load)
    · have hnext := (h.grows cfg (.call text signal)).2.2
      obtain rfl : load = l.id := by
        rw [hl.id]
        omega
      refine Nat.le_trans hl.due ?_
      split <;> omega
  · rw [hnotes.started] at hlater
    omega

end IssueQuery.Engine
