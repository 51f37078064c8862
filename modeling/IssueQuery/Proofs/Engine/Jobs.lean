import IssueQuery.Proofs.Engine.Changes
import IssueQuery.Proofs.Engine.Performing

/-!
# Jobs keep an engine faithful

A job in hand is counted among the jobs under way until what it does is done: whoever depended on it
depends on a job that it put on the agenda, or on nothing more.

* `Faithful.perform` every job keeps an engine faithful;
* `Faithful.tick`    so does a turn, whether the job is done or put off.
-/

namespace IssueQuery.Engine

variable {answers : Answers} {store : Store} {cfg : Settings} {s s' : State} {l : Load} {c : Call}
  {J J' : Job → Prop} {job : Job} {i id g : Nat} {outcome : Except LoadFailure Outcome}
  {graph : Except LoadFailure Graph}

/-! ## Putting jobs on the agenda -/

theorem pending_append (items : List (Nat × Job)) {j : Job} :
    ({ s with agenda := s.agenda ++ items } : State).Pending j ↔
      (∃ p ∈ items, p.2 = j) ∨ s.Pending j := by
  simp only [State.Pending, List.mem_append]
  constructor
  · rintro ⟨turns, hold | hnew⟩
    · exact .inr ⟨turns, hold⟩
    · exact .inl ⟨(turns, j), hnew, rfl⟩
  · rintro (⟨p, hp, rfl⟩ | ⟨turns, hold⟩)
    · exact ⟨p.1, .inr hp⟩
    · exact ⟨turns, .inl hold⟩

theorem pending_schedule (turns : Nat) {j : Job} :
    (s.schedule turns job).Pending j ↔ j = job ∨ s.Pending j := by
  rw [State.schedule, pending_append]
  simp [eq_comm]

namespace Faithful

/-- A job under way is put on the agenda. -/
theorem schedule (h : Faithful answers s fun j => j = job ∨ s.Pending j) (turns : Nat) :
    Faithful answers (s.schedule turns job) (s.schedule turns job).Pending :=
  (h.agenda (s.agenda ++ [(turns, job)])).congr fun _ => pending_schedule turns

/-- Jobs that were announced are put on the agenda. -/
theorem scheduleAll {items : List (Nat × Job)}
    (h : Faithful answers s fun j => (∃ p ∈ items, p.2 = j) ∨ s.Pending j) :
    Faithful answers { s with agenda := s.agenda ++ items }
      ({ s with agenda := s.agenda ++ items } : State).Pending :=
  (h.agenda (s.agenda ++ items)).congr fun _ => pending_append items

end Faithful

/-! ## Calls get their results -/

/-- A call whose signal has not aborted gets what its load gives. -/
theorem resultOf_of_quiet (hquiet : s.reason? c.signal = none) :
    (resultOf s c outcome).map Result.outcome =
      outcome.mapError fun e => .failed c.text (.execute e) := by
  unfold resultOf
  rw [hquiet]
  cases outcome with
  | ok out => rfl
  | error e => cases e <;> rfl

theorem frame_logResult (result : Except Rejection Result) : Frame s (logResult cfg s result) := by
  cases result with
  | ok r => exact frame_notes s _ _ _
  | error rejection =>
    cases rejection with
    | failed text failure => exact frame_notes s _ _ _
    | aborted reason => exact Frame.refl s

/-- The line about the result of a call changes nothing that a call or a load depends on. -/
theorem frame_finishWith (cfg : Settings) (s : State) (i : Nat) (result : Except Rejection Result) :
    Frame (s.settleCall i result) (finishWith cfg s i result) :=
  frame_logResult result

theorem Performed.agenda_of_finish (h : Performed cfg store s (.finish i outcome) s') :
    s'.agenda = s.agenda := by
  cases h with
  | finished => exact (frame_finishWith cfg s i _).agenda
  | finishedLate => rfl

/-- A call that has its result has the right one. -/
theorem Call.Sound.settle (hc : c.Sound answers s) {result : Except Rejection Result}
    (hright : s.reason? c.signal = none → result.map Result.outcome = answers.expected c.text) :
    Call.Sound answers s { c with settled := some result, listening := false } where
  loaded := by
    intro id hid
    obtain ⟨l, hl, hlid, hquery, aborted, hcontrol, -⟩ := hc.loaded id hid
    exact ⟨l, hl, hlid, hquery, aborted, hcontrol, fun hwaits => nomatch hwaits.1⟩
  listens := fun hlistens => nomatch hlistens
  settled := by
    intro result' hresult hquiet
    obtain rfl : result = result' := Option.some.inj hresult
    exact hright hquiet

namespace Faithful

theorem settleCall (h : Faithful answers s J) {result : Except Rejection Result}
    (hright : ∀ c, s.calls[i]? = some c → c.settled = none ∧ (s.reason? c.signal = none →
      result.map Result.outcome = answers.expected c.text)) :
    Faithful answers (s.settleCall i result) J := by
  apply h.modifyCall
  intro c hc
  obtain ⟨hunsettled, hright⟩ := hright c hc
  exact ⟨⟨rfl, rfl, fun _ => id, fun _ => hunsettled⟩, (h.calls i c hc).settle hright⟩

theorem finish (h : Faithful answers s fun j => j = .finish i outcome ∨ J j)
    (hs : Performed cfg store s (.finish i outcome) s') : Faithful answers s' J := by
  obtain ⟨c, hc, hsound⟩ := h.jobs _ (.inl rfl)
  -- what is left to show each time: nobody waits for the job any more
  have hend : ∀ s' : State, (Faithful answers s' fun j => j = .finish i outcome ∨ J j) →
      (∀ c', s'.calls[i]? = some c' → c'.settled.isSome) → Faithful answers s' J := by
    intro s' h' hsettled
    apply h'.doneServing rfl
    rintro _ c' hc' hwaits rfl
    have hsome := hsettled c' hc'
    rw [hwaits.1] at hsome
    cases hsome
  cases hs with
  | finishedLate _ hsettled =>
    -- the call has its result already, so it does not wait for this one
    exact hend _ h fun c' hc' => Option.isSome_iff_ne_none.mpr (hsettled c' hc')
  | @finished _ c' _ hc' hnone =>
    obtain rfl := Option.some.inj (hc.symm.trans hc')
    -- the job is sound, so a call whose signal is quiet gets the right result
    have hgot : Faithful answers (s.settleCall i (resultOf s c outcome))
        fun j => j = .finish i outcome ∨ J j := by
      apply h.settleCall
      intro c' hc'
      obtain rfl := Option.some.inj (hc.symm.trans hc')
      refine ⟨hnone, fun hquiet => ?_⟩
      obtain ⟨q, hquery, rfl⟩ := hsound ⟨hnone, hquiet⟩
      rw [resultOf_of_quiet hquiet, answers.expected_of_readQuery hquery]
    apply (hend _ hgot _).frame (frame_finishWith cfg s i _)
    intro c' hc'
    rw [State.settleCall, State.modifyCall, List.getElem?_modify, hc] at hc'
    simp only [if_true] at hc'
    obtain rfl := Option.some.inj hc'
    rfl

theorem deliver (h : Faithful answers s fun j => j = .deliver i outcome ∨ s.Pending j)
    (hs : Performed cfg store s (.deliver i outcome) s') : Faithful answers s' s'.Pending := by
  obtain ⟨c, hc, hsound⟩ := h.jobs _ (.inl rfl)
  cases hs with
  | deliveredLate _ hc₀ hsettled =>
    apply h.doneServing rfl
    rintro _ c' hc' hwaits rfl
    obtain rfl := Option.some.inj (hc₀.symm.trans hc')
    exact nomatch hsettled.symm.trans hwaits.1
  | delivered _ hopen =>
    -- the job that finishes the call takes the place of this one
    have hnext : Faithful answers s fun j => j = .finish i outcome ∨ s.Pending j := by
      apply h.replace (.finish i outcome) ⟨c, hc, hsound⟩
      · exact fun _ => id
      · exact fun _ _ _ => id
      · rfl
    have hdeaf : Faithful answers (s.modifyCall i fun c => { c with listening := false })
        fun j => j = .finish i outcome ∨ s.Pending j := by
      apply hnext.modifyCall
      intro c hc
      have hsound := h.calls i c hc
      refine ⟨⟨rfl, rfl, fun _ => id, id⟩, hsound.loaded, (fun hlistens => nomatch hlistens), ?_⟩
      exact hsound.settled
    exact hdeaf.schedule 1

/-- A call that waits for a load may be told the outcome of the load. -/
theorem finish_sound (h : Faithful answers s J) (hc : s.calls[i]? = some c) (hl : l ∈ s.loads)
    (hload : c.load = some l.id) (hright : l.Wanted s → outcome = answers.outcome l.query) :
    (Job.finish i outcome).Sound answers s := by
  refine ⟨c, hc, fun hwaits => ?_⟩
  obtain ⟨l', hl', hid, hquery, aborted, hcontrol, hon⟩ := (h.calls i c hc).loaded l.id hload
  obtain rfl := List.inj_on_of_nodup_map h.distinct hl' hl hid
  refine ⟨l'.query, hquery, hright ?_⟩
  rw [Load.Wanted, hcontrol]
  exact hon hwaits

theorem subscribe (h : Faithful answers s fun j => j = .subscribe i ∨ s.Pending j)
    (hs : Performed cfg store s (.subscribe i) s') : Faithful answers s' s'.Pending := by
  have hserves : ∀ (s : State) i', (Job.subscribe i).Serves s i' → i = i' :=
    fun _ _ hserves => hserves.1
  cases hs with
  | unserved hnone =>
    -- nobody without a load relies on the job
    apply h.doneServing rfl
    rintro _ c hc - ⟨rfl, c', hc', hsome⟩
    obtain ⟨id, hload⟩ := Option.isSome_iff_exists.mp hsome
    obtain ⟨l, hl, rfl, -⟩ := (h.calls i c' hc').loaded id hload
    rw [hc', Option.bind_some, hload, Option.bind_some, load?_eq_some h.distinct hl] at hnone
    cases hnone
  | @toldLate _ c l outcome hc hload hl hended =>
    -- the load has ended meanwhile, and what it ended with is right
    have hnext : Faithful answers s fun j => j = .finish i outcome ∨ s.Pending j := by
      apply h.replace (.finish i outcome)
      · exact h.finish_sound hc hl hload ((h.loads l hl).ended outcome hended)
      · exact hserves s
      · exact fun _ _ _ hfurthers => False.elim hfurthers
      · rfl
    exact hnext.schedule 1
  | subscribed hc hload hl hended =>
    -- the load itself will tell the call
    apply (h.addSubscriber hl hended hc hload).doneServing rfl
    intro i' _ _ _ hserves'
    obtain rfl := hserves _ i' hserves'
    exact .inr (told_addSubscriber hl hended)

end Faithful

/-! ## Loads end -/

theorem notice_serves (s s' : State) : (notice s outcome i).2.Serves s' i := by
  unfold notice
  split <;> rfl

theorem notice_sound (h : (Job.finish i outcome).Sound answers s) :
    (notice s outcome i).2.Sound answers s := by
  unfold notice
  split <;> exact h

namespace Faithful

/-- The outcome of a load is kept, if it is one. -/
theorem keepOutcome (h : Faithful answers s J) (hl : l ∈ s.loads)
    (hright : l.Wanted s → outcome = answers.outcome l.query) :
    Faithful answers { s with queries := s.queries.settle l.id outcome.toOption s.now } J := by
  apply h.setQueries
  · exact Nat.le_of_eq ReadThrough.settle_started.symm
  · intro text out hholds
    obtain ⟨hvalue, f, hf, hid, rfl, hattached⟩ | hold := ReadThrough.holds_settle hholds
    · -- the load may be joined, so it was not called off
      obtain ⟨hcontrol, -, hquery⟩ := h.joinable_of_id hl hf hattached hid
      have hwanted : l.Wanted s := by rw [Load.Wanted, hcontrol]
      rw [answers.expected_of_readQuery hquery, ← hright hwanted]
      cases outcome with
      | error e => cases hvalue
      | ok out' =>
        obtain rfl : out' = out := Option.some.inj hvalue
        rfl
    · exact h.results text out hold
  · exact fun f hf => h.joinable f (ReadThrough.mem_settle_flights.mp hf).1

/-- A load that nobody may join ends, and jobs tell the calls that are to be told. -/
theorem endLoad (h : Faithful answers s fun j => j = .settle l.id outcome ∨ J j)
    (hl : l ∈ s.loads) (hright : l.Wanted s → outcome = answers.outcome l.query)
    (hdetached : ∀ f ∈ s.queries.flights, f.id ≠ l.id)
    (htold : ∀ i ∈ l.subscribers, ∃ j, J j ∧ j.Serves s i) :
    Faithful answers (s.modifyLoad l.id fun l => { l with ended := some outcome }) J := by
  have hsound := h.loads l hl
  have hended : Faithful answers (s.modifyLoad l.id fun l => { l with ended := some outcome })
      fun j => j = .settle l.id outcome ∨ J j := by
    apply h.modifyLoad hl s.graphWaiters ⟨rfl, rfl, rfl, .inl rfl⟩
    · exact
        { below := hsound.below
          ended := by
            intro outcome' houtcome hwanted
            obtain rfl : outcome = outcome' := Option.some.inj houtcome
            exact hright hwanted
          based := hsound.based
          subscribers := hsound.subscribers
          own := hsound.own }
    · exact fun _ => rfl
    · exact fun f hf _ hid => absurd hid (hdetached f hf)
    · intro i hi _
      obtain ⟨j, hj, hserves⟩ := htold i hi
      exact .inl ⟨j, .inr hj, hserves⟩
    · intro _ hnone
      cases hnone
    · exact fun w hw _ => hw
  -- the job that ends the load promised nothing but this
  apply hended.done
  · exact fun _ _ _ _ hserves => False.elim hserves
  · intro l' hl' _ hnone hid
    obtain rfl | ⟨-, hother⟩ := mem_modifyLoad h.distinct hl hl'
    · cases hnone
    · exact absurd (Eq.symm hid) hother
  · intro _ _ _ _ hsame
    cases hsame

theorem settle (h : Faithful answers s fun j => j = .settle id outcome ∨ s.Pending j)
    (hs : Performed cfg store s (.settle id outcome) s') : Faithful answers s' s'.Pending := by
  obtain ⟨l, hl, rfl, hright⟩ := h.jobs _ (.inl rfl)
  -- the notices are announced first, so that nobody is forgotten when the load ends
  have htold : Faithful answers s fun j => j = .settle l.id outcome ∨
      (∃ p ∈ l.subscribers.map (notice s outcome), p.2 = j) ∨ s.Pending j := by
    apply h.announce
    rintro _ ⟨_, hp, rfl⟩
    obtain ⟨i, hi, rfl⟩ := List.mem_map.mp hp
    obtain ⟨c, hc, hload⟩ := (h.loads l hl).subscribers i hi
    exact notice_sound (h.finish_sound hc hl hload hright)
  have hended := (htold.keepOutcome hl hright).endLoad hl hright
    (fun _ hf => (ReadThrough.mem_settle_flights.mp hf).2)
    (by
      intro i hi
      exact ⟨_, .inl ⟨_, List.mem_map_of_mem hi, rfl⟩, notice_serves s _⟩)
  cases hs with
  | settled =>
    rw [load?_eq_some h.distinct hl]
    exact hended.scheduleAll

/-- The graph is kept, if it is one. -/
theorem keepGraph (h : Faithful answers s J) (g : Nat) :
    Faithful answers { s with graphs := s.graphs.settle g answers.graph.toOption s.now } J := by
  apply h.setGraphs
  · intro graph hholds
    obtain ⟨hvalue, -⟩ | hold := ReadThrough.holds_settle hholds
    · cases hgraph : answers.graph with
      | error e =>
        rw [hgraph] at hvalue
        cases hvalue
      | ok graph' =>
        rw [hgraph] at hvalue
        exact congrArg Except.ok (Option.some.inj hvalue)
    · exact h.graph graph hold
  · exact fun f hf => h.underWay f (ReadThrough.mem_settle_flights.mp hf).1

theorem settleGraph (h : Faithful answers s fun j => j = .settleGraph g graph ∨ s.Pending j)
    (hs : Performed cfg store s (.settleGraph g graph) s') : Faithful answers s' s'.Pending := by
  obtain rfl : graph = answers.graph := h.jobs _ (.inl rfl)
  let told := s.graphWaiters.filter fun w => w.1 == g
  let items := told.map fun w => (0, Job.deliverGraph w.2 answers.graph)
  have htold : Faithful answers s
      fun j => j = .settleGraph g answers.graph ∨ (∃ p ∈ items, p.2 = j) ∨ s.Pending j := by
    apply h.announce
    rintro _ ⟨_, hp, rfl⟩
    obtain ⟨w, -, rfl⟩ := List.mem_map.mp hp
    rfl
  have hdone : Faithful answers
      { s with graphs := s.graphs.settle g answers.graph.toOption s.now }
      fun j => (∃ p ∈ items, p.2 = j) ∨ s.Pending j := by
    apply (htold.keepGraph g).done
    · exact fun _ _ _ _ hserves => False.elim hserves
    · -- a load that waited for this graph is told by a job of its own
      rintro l - - - ⟨hload, hwaits⟩
      have hmem : (g, l.id) ∈ told := List.mem_filter.mpr ⟨hwaits, beq_self_eq_true g⟩
      exact ⟨_, .inl ⟨_, List.mem_map_of_mem hmem, rfl⟩, rfl, by rw [hload]; rfl⟩
    · intro f hf _ graph hsame
      have hother : f.id ≠ g := (ReadThrough.mem_settle_flights.mp hf).2
      exact absurd (Job.settleGraph.inj hsame).1.symm hother
  cases hs with
  | settledGraph => exact hdone.scheduleAll

theorem deliverGraph (h : Faithful answers s fun j => j = .deliverGraph id graph ∨ s.Pending j)
    (hs : Performed cfg store s (.deliverGraph id graph) s') : Faithful answers s' s'.Pending := by
  obtain rfl : graph = answers.graph := h.jobs _ (.inl rfl)
  cases hs with
  | @deliveredGraph _ _ l _ hfound hload =>
    obtain ⟨hl, rfl⟩ := mem_of_load? hfound
    have hsound := h.loads l hl
    have hbased : l.Based answers := hsound.based (by rw [hload]; rfl)
    -- the load goes on before it stops waiting, so that it is furthered all the time
    have hnext : Faithful answers s fun j => j = .resume l.id answers.graph ∨ s.Pending j := by
      apply h.replace (.resume l.id answers.graph)
      · exact ⟨l, hl, rfl, fun _ => ⟨hbased, rfl⟩⟩
      · exact fun _ hserves => False.elim hserves
      · exact fun _ _ _ hfurthers => hfurthers.1
      · rfl
    have hfree : Faithful answers
        { s.modifyLoad l.id fun l => { l with graphLoad := none } with
          graphWaiters := s.graphWaiters.filter fun w => w.2 != l.id }
        fun j => j = .resume l.id answers.graph ∨ s.Pending j := by
      apply hnext.modifyLoad hl _ ⟨rfl, rfl, rfl, .inl rfl⟩
      · exact
          { below := hsound.below
            ended := hsound.ended
            based := fun hnone => nomatch hnone
            subscribers := hsound.subscribers
            own := hsound.own }
      · exact fun _ => rfl
      · intro f hf hattached hid
        obtain ⟨-, hended, -⟩ := h.joinable_of_id hl hf hattached hid
        exact ⟨rfl, hended⟩
      · exact fun i hi hended => .inr ⟨hended, hi⟩
      · exact fun _ _ => ⟨_, .inl rfl, rfl⟩
      · intro w hw hother
        exact List.mem_filter.mpr ⟨hw, by simpa using hother⟩
    exact hfree.schedule 1
  | unawaited _ hnone =>
    apply h.done
    · exact fun _ _ _ _ hserves => False.elim hserves
    · -- the load that is to be told does not wait any more
      rintro l hl - - ⟨rfl, hwaits⟩
      rw [load?_eq_some h.distinct hl, Option.bind_some] at hnone
      rw [hnone] at hwaits
      cases hwaits
    · intro _ _ _ _ hsame
      cases hsame

end Faithful

/-- A load ends with an outcome that is right if the load is wanted. -/
theorem endJob_sound (h : Faithful answers s J) (hl : l ∈ s.loads)
    (hright : l.Wanted s → outcome = answers.outcome l.query) :
    (endJob l outcome).Sound answers s := by
  unfold endJob
  split
  · exact ⟨l, hl, rfl, hright⟩
  · rename_i call signal hcontrol
    obtain ⟨c, hc, hsignal, hquery⟩ := (h.loads l hl).own call signal hcontrol
    refine ⟨c, hc, fun hwaits => ⟨l.query, hquery, hright ?_⟩⟩
    rw [Load.Wanted, hcontrol]
    exact hsignal ▸ hwaits.2

/-- The end of a load serves the same calls as the job that goes on with the load. -/
theorem endJob_serves (hdistinct : (s.loads.map Load.id).Nodup) (hl : l ∈ s.loads) :
    (endJob l outcome).Serves s i ↔ (Job.resume l.id graph).Serves s i := by
  unfold endJob
  constructor
  · intro hserves
    split at hserves
    · exact False.elim hserves
    · rename_i call signal hcontrol
      obtain rfl : call = i := hserves
      exact ⟨l, hl, rfl, signal, hcontrol⟩
  · rintro ⟨l', hl', hid, signal, hown⟩
    obtain rfl := List.inj_on_of_nodup_map hdistinct hl' hl hid
    rw [hown]
    rfl

theorem endJob_furthers (hdistinct : (s.loads.map Load.id).Nodup) (hl : l ∈ s.loads) {l' : Load}
    (hl' : l' ∈ s.loads) (hshared : l'.control = .shared none) :
    (endJob l outcome).Furthers s l' ↔ (Job.resume l.id graph).Furthers s l' := by
  unfold endJob
  constructor
  · intro hfurthers
    split at hfurthers
    · exact hfurthers
    · exact False.elim hfurthers
  · intro hid
    obtain rfl := List.inj_on_of_nodup_map hdistinct hl hl' hid
    rw [hshared]
    rfl

theorem endJob_settlesGraph : (endJob l outcome).settlesGraph = false := by
  unfold endJob
  split <;> rfl

namespace Faithful

/-- The load that a job goes on with ends with an outcome that is right if the load is wanted. -/
theorem conclude (h : Faithful answers s fun j => j = .resume l.id graph ∨ s.Pending j)
    (hl : l ∈ s.loads) (hright : l.Wanted s → outcome = answers.outcome l.query) :
    Faithful answers (conclude s l outcome) (conclude s l outcome).Pending := by
  obtain ⟨turns, heq⟩ := conclude_eq s l outcome
  have hnext : Faithful answers s fun j => j = endJob l outcome ∨ s.Pending j := by
    apply h.replace (endJob l outcome) (endJob_sound h hl hright)
    · exact fun i => (endJob_serves h.distinct hl).mpr
    · exact fun l' hl' hshared => (endJob_furthers h.distinct hl hl' hshared).mpr
    · rfl
  rw [heq]
  exact hnext.schedule turns

theorem resume (hsteady : Steady store answers)
    (h : Faithful answers s fun j => j = .resume id graph ∨ s.Pending j)
    (hs : Performed cfg store s (.resume id graph) s') : Faithful answers s' s'.Pending := by
  obtain ⟨l, hl, rfl, hsound⟩ := h.jobs _ (.inl rfl)
  have hfound := load?_eq_some h.distinct hl
  cases hs with
  | unknown _ hnone => cases hnone.symm.trans hfound
  | graphless e hfound' =>
    obtain rfl := Option.some.inj (hfound.symm.trans hfound')
    apply h.conclude hl
    intro hwanted
    obtain ⟨⟨e', -, houtcome⟩, hgraph⟩ := hsound hwanted
    rw [houtcome, ← hgraph]
    rfl
  | plain graph hfound' hnone =>
    obtain rfl := Option.some.inj (hfound.symm.trans hfound')
    apply h.conclude hl
    intro hwanted
    obtain ⟨⟨e', hsome, -⟩, -⟩ := hsound hwanted
    rw [hnone] at hsome
    cases hsome
  | @expanded _ _ e graph hfound' hexpansion =>
    obtain rfl := Option.some.inj (hfound.symm.trans hfound')
    have hyields : Yields l.id (expand cfg store l.id l.base e graph) _ :=
      yields_expand hsteady cfg l.base e graph
    obtain ⟨hframe, hresult⟩ := hyields s
    have hnext := h.frame hframe
    rw [← pending_congr hframe.agenda] at hnext
    have hl' : l ∈ (expand cfg store l.id l.base e graph s).2.loads := hframe.loads ▸ hl
    have hright : l.Wanted (expand cfg store l.id l.base e graph s).2 →
        (expand cfg store l.id l.base e graph s).1 = answers.outcome l.query := by
      intro hwanted
      -- a load that is wanted behind the expansion was not called off before it
      have hoff : s.calledOff? l.id = none := by
        rw [← hframe.calledOff?]
        exact (calledOff?_eq_none (load?_eq_some hnext.distinct hl')).mpr hwanted
      obtain ⟨⟨e', hsome, houtcome⟩, hgraph⟩ := hsound ((calledOff?_eq_none hfound).mp hoff)
      obtain rfl : e' = e := Option.some.inj (hsome.symm.trans hexpansion)
      rw [houtcome, ← hgraph, hresult hoff]
      rfl
    exact hnext.conclude hl' hright

/-! ## Turns -/

/-- Every job keeps an engine faithful. -/
theorem perform (hsteady : Steady store answers)
    (h : Faithful answers s fun j => j = job ∨ s.Pending j) (hs : Performed cfg store s job s') :
    Faithful answers s' s'.Pending := by
  cases job with
  | subscribe call => exact h.subscribe hs
  | settle id outcome => exact h.settle hs
  | settleGraph g graph => exact h.settleGraph hs
  | deliverGraph id graph => exact h.deliverGraph hs
  | resume id graph => exact h.resume hsteady hs
  | deliver call outcome => exact h.deliver hs
  | finish call outcome =>
    rw [pending_congr hs.agenda_of_finish]
    exact h.finish hs

/-- A turn keeps an engine faithful. -/
theorem tick (hsteady : Steady store answers) (h : Faithful answers s s.Pending)
    (hs : Ticked cfg store s s') : Faithful answers s' s'.Pending := by
  cases hs with
  | idle => exact h
  | @due _ rest _ hagenda hs =>
    -- the first job is done: it leaves the agenda, but still counts
    exact ((h.agenda rest).congr fun _ => (pending_iff hagenda).symm).perform hsteady hs
  | putOff hagenda =>
    -- the first job is put off: the same jobs are under way
    rw [pending_putOff hagenda]
    exact h.agenda _

end Faithful

end IssueQuery.Engine
