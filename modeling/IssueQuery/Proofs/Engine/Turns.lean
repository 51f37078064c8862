import IssueQuery.Proofs.Engine.Jobs
import IssueQuery.Proofs.Engine.Meanwhile

/-!
# Turns come to an end

Jobs put jobs on the agenda, but only such as are nearer to the result of a call. So the agenda is
empty after a number of turns: each turn takes a job off it and puts finitely many lesser ones on,
whatever the store answers.

* `Performed.effect`     what a job can do to the calls and the loads under way;
* `Performed.adds`       what it can put on the agenda;
* `exists_agenda_empty`  the agenda is empty in the end, and stays so.
-/

namespace IssueQuery.Engine

variable {answers : Answers} {store : Store} {cfg : Settings} {s s' : State} {job : Job}

/-! ## What a job does -/

/-- How many kinds of jobs there may be between the job and the result of a call. -/
def Job.rank : Job → Nat
  | .finish .. => 0
  | .deliver .. | .subscribe _ => 1
  | .settle .. => 2
  | .resume .. => 3
  | .deliverGraph .. => 4
  | .settleGraph .. => 5

/-- The change leaves alone what the call is for and what it waits for, and the call does not lose
what it got. -/
structure MeekChange (change : Call → Call) : Prop where
  text : ∀ c, (change c).text = c.text
  signal : ∀ c, (change c).signal = c.signal
  load : ∀ c, (change c).load = c.load
  settled : ∀ c, (change c).settled = none → c.settled = none

theorem meekChange_settle (result : Except Rejection Result) :
    MeekChange fun c => { c with settled := some result, listening := false } :=
  ⟨fun _ => rfl, fun _ => rfl, fun _ => rfl, fun _ hnone => nomatch hnone⟩

/-- What a job can do if nothing aborts meanwhile: at most one call changes, and loads end. -/
structure Effect (s s' : State) : Prop where
  signals : s'.signals = s.signals
  flights : ∀ f ∈ s'.queries.flights, f ∈ s.queries.flights
  started : s'.queries.started = s.queries.started
  calls : s'.calls = s.calls ∨ ∃ i change, s'.calls = s.calls.modify i change ∧ MeekChange change

theorem Effect.refl (s : State) : Effect s s :=
  ⟨rfl, fun _ => id, rfl, .inl rfl⟩

/-- Work that keeps the frame does less, whatever is put on the agenda. -/
theorem Frame.effect (hframe : Frame s s') (turns : Nat) (job : Job) :
    Effect s (s'.schedule turns job) :=
  ⟨hframe.signals, fun _ hf => hframe.queryFlights ▸ hf, hframe.queriesStarted, .inl hframe.calls⟩

theorem effect_conclude (hframe : Frame s s') (l : Load) (outcome : Except LoadFailure Outcome) :
    Effect s (conclude s' l outcome) := by
  obtain ⟨turns, hconclude⟩ := conclude_eq s' l outcome
  rw [hconclude]
  exact hframe.effect _ _

/-- What a job can do to the calls and the loads under way, if nothing else happens to them while a
load that goes on asks the store. -/
theorem Performed.effect (h : Performed cfg store s job s')
    (hresume : ∀ id graph, job = .resume id graph →
      ∀ base e found, Frame s (expand cfg store id base e found s).2) : Effect s s' := by
  cases h with
  | unserved | unawaited | unknown | deliveredLate | finishedLate => exact Effect.refl s
  | toldLate => exact (Frame.refl s).effect _ _
  | subscribed => exact ⟨rfl, fun _ => id, rfl, .inl rfl⟩
  | settled id outcome =>
    refine ⟨rfl, ?_, ReadThrough.settle_started, .inl rfl⟩
    -- the load that settles goes, the others stay
    intro f hf
    have hstays : f ∈ (s.queries.settle id outcome.toOption s.now).flights := hf
    exact (ReadThrough.mem_settle_flights.mp hstays).1
  | settledGraph =>
    -- the cache of the graph is no part of an effect
    exact ⟨rfl, fun _ => id, rfl, .inl rfl⟩
  | deliveredGraph => exact ⟨rfl, fun _ hf => hf, rfl, .inl rfl⟩
  | graphless | plain => exact effect_conclude (Frame.refl s) _ _
  | expanded => exact effect_conclude (hresume _ _ rfl _ _ _) _ _
  | @delivered call =>
    exact ⟨rfl, fun _ hf => hf, rfl, .inr ⟨call, _, rfl, fun _ => rfl, fun _ => rfl, fun _ => rfl,
      fun _ => id⟩⟩
  | @finished call c outcome =>
    -- the call gets its result, and then the result is logged
    have hlogged := frame_finishWith cfg s call (resultOf s c outcome)
    exact ⟨hlogged.signals, fun _ hf => hlogged.queryFlights ▸ hf, hlogged.queriesStarted,
      .inr ⟨call, _, hlogged.calls, meekChange_settle _⟩⟩

/-- A steady store disturbs nobody who asks it. -/
theorem Performed.effect_of_steady (h : Performed cfg store s job s')
    (hsteady : Steady store answers) : Effect s s' := by
  refine h.effect fun id _ _ base e found => ?_
  have hyields : Yields id (expand cfg store id base e found) _ :=
    yields_expand hsteady cfg base e found
  exact (hyields s).1

/-- A job that asks the store for nothing disturbs nobody but those that it is about. -/
theorem Performed.effect_of_idle (h : Performed cfg store s job s')
    (hidle : ∀ id graph, job ≠ .resume id graph) : Effect s s' :=
  h.effect fun id graph hsame => absurd hsame (hidle id graph)

/-! ## What a job puts on the agenda -/

/-- All that is put on the agenda between the states is of lesser rank. -/
def Adds (s s' : State) (rank : Nat) : Prop :=
  ∃ new, s'.agenda = s.agenda ++ new ∧ ∀ p ∈ new, p.2.rank < rank

theorem adds_nothing (hsame : s'.agenda = s.agenda) (rank : Nat) : Adds s s' rank :=
  ⟨[], by rw [hsame, List.append_nil], fun _ hp => nomatch hp⟩

theorem adds_schedule (hsame : s'.agenda = s.agenda) {rank : Nat} (turns : Nat)
    (hless : job.rank < rank) : Adds s (s'.schedule turns job) rank := by
  refine ⟨[(turns, job)], congrArg (· ++ _) hsame, ?_⟩
  intro p hp
  obtain rfl := List.mem_singleton.mp hp
  exact hless

/-- A load ends with a job of lesser rank than the one that goes on with it. -/
theorem adds_conclude (hsame : s'.agenda = s.agenda) (l : Load)
    (outcome : Except LoadFailure Outcome) : Adds s (conclude s' l outcome) 3 := by
  unfold conclude
  split
  · exact adds_schedule hsame _ (Nat.lt_succ_self _)
  · exact adds_schedule hsame _ (Nat.zero_lt_succ _)

/-- A job puts nothing on the agenda but jobs of lesser rank. -/
theorem Performed.adds (h : Performed cfg store s job s') : Adds s s' job.rank := by
  cases h with
  | unserved | unawaited | unknown | deliveredLate | finishedLate => exact adds_nothing rfl _
  | toldLate | deliveredGraph | delivered => exact adds_schedule rfl _ (Nat.lt_succ_self _)
  | subscribed => exact adds_nothing rfl 1
  | settled =>
    refine ⟨_, rfl, fun p hp => ?_⟩
    obtain ⟨call, -, rfl⟩ := List.mem_map.mp hp
    unfold notice
    split <;> simp [Job.rank]
  | settledGraph =>
    refine ⟨_, rfl, fun p hp => ?_⟩
    obtain ⟨w, -, rfl⟩ := List.mem_map.mp hp
    exact Nat.lt_succ_self _
  | graphless | plain => exact adds_conclude rfl _ _
  | @expanded id l e graph =>
    -- whatever happens while the store is asked, the agenda stays
    have hproceeds : Proceeds store id (expand cfg store id l.base e graph) :=
      proceeds_expand cfg l.base e graph
    exact adds_conclude (hproceeds s).1.agenda _ _
  | finished => exact adds_nothing (frame_finishWith ..).agenda 0

/-! ## Running the agenda -/

/-- The turns that the jobs of a rank on an agenda take. -/
def turnsOf (rank : Nat) : List (Nat × Job) → Nat
  | [] => 0
  | (turns, job) :: rest => (if job.rank = rank then turns + 1 else 0) + turnsOf rank rest

theorem turnsOf_append (rank : Nat) (agenda agenda' : List (Nat × Job)) :
    turnsOf rank (agenda ++ agenda') = turnsOf rank agenda + turnsOf rank agenda' := by
  induction agenda with
  | nil => rw [List.nil_append, turnsOf, Nat.zero_add]
  | cons p rest ih => rw [List.cons_append, turnsOf, turnsOf, ih, Nat.add_assoc]

theorem turnsOf_eq_zero {rank : Nat} {agenda : List (Nat × Job)}
    (h : ∀ p ∈ agenda, p.2.rank < rank) : turnsOf rank agenda = 0 := by
  induction agenda with
  | nil => rfl
  | cons p rest ih =>
    have hfirst := h p List.mem_cons_self
    rw [turnsOf, if_neg (Nat.ne_of_lt hfirst), ih fun p hp => h p (List.mem_cons_of_mem _ hp)]

/-- A turn shortens the agenda at the rank of its job, and not at higher ranks. -/
theorem Ticked.turnsOf_lt (hs : Ticked cfg store s s') (h : s.agenda ≠ []) :
    ∃ job : Job, turnsOf job.rank s'.agenda < turnsOf job.rank s.agenda ∧
      ∀ rank, job.rank < rank → turnsOf rank s'.agenda = turnsOf rank s.agenda := by
  cases hs with
  | idle hnone => exact absurd hnone h
  | @due job rest _ hagenda hs =>
    -- the job is done: its own turn goes, and all new jobs are of lesser rank
    obtain ⟨new, hnew, hless⟩ := hs.adds
    refine ⟨job, ?_, fun rank hrank => ?_⟩
    · have hnone := turnsOf_eq_zero hless
      rw [hagenda, hnew, turnsOf_append, turnsOf, if_pos rfl, hnone]
      dsimp only
      omega
    · have hnone : turnsOf rank new = 0 :=
        turnsOf_eq_zero fun p hp => Nat.lt_trans (hless p hp) hrank
      rw [hagenda, hnew, turnsOf_append, turnsOf, if_neg (Nat.ne_of_lt hrank), hnone]
      dsimp only
      omega
  | @putOff turns job rest hagenda =>
    -- the job is put off: it goes to the end with one turn less
    refine ⟨job, ?_, fun rank hrank => ?_⟩
    · rw [hagenda, turnsOf_append, turnsOf, turnsOf, turnsOf, if_pos rfl, if_pos rfl]
      omega
    · have hne := Nat.ne_of_lt hrank
      rw [hagenda, turnsOf_append, turnsOf, turnsOf, turnsOf, if_neg hne, if_neg hne]
      omega

/-- What is on an agenda, by ranks, the highest one first. -/
def burden (agenda : List (Nat × Job)) : Nat × Nat × Nat × Nat × Nat × Nat :=
  (turnsOf 5 agenda, turnsOf 4 agenda, turnsOf 3 agenda, turnsOf 2 agenda, turnsOf 1 agenda,
    turnsOf 0 agenda)

/-- A turn lightens the agenda, whatever number of lesser jobs it puts there. -/
theorem burden_tick (cfg : Settings) (store : Store) (h : s.agenda ≠ []) :
    WellFoundedRelation.rel (burden (tick cfg store s).agenda) (burden s.agenda) := by
  obtain ⟨job, hless, hsame⟩ := (ticked cfg store s).turnsOf_lt h
  have hsame₁ := hsame 1
  have hsame₂ := hsame 2
  have hsame₃ := hsame 3
  have hsame₄ := hsame 4
  have hsame₅ := hsame 5
  simp only [WellFoundedRelation.rel, burden, Prod.lex_def, InvImage, sizeOf_nat]
  -- The first rank at which the two differ is that of the job.
  cases job <;> simp only [Job.rank] at hless hsame₁ hsame₂ hsame₃ hsame₄ hsame₅ <;> omega

/-- The agenda is empty after some turns, and stays empty. -/
theorem exists_agenda_empty (cfg : Settings) (store : Store) (s : State) :
    ∃ n, ∀ m, n ≤ m → (ticks cfg store m s).agenda = [] := by
  by_cases hempty : s.agenda = []
  · refine ⟨0, fun m _ => ?_⟩
    have hstays : ticks cfg store m s = s := by
      cases m with
      | zero => rfl
      | succ m => rw [ticks, if_pos (by rw [hempty]; rfl)]
    rw [hstays, hempty]
  · -- the burden decreases with every turn, and that order is well-founded
    have hlighter := burden_tick cfg store hempty
    obtain ⟨n, hn⟩ := exists_agenda_empty cfg store (tick cfg store s)
    refine ⟨n + 1, fun m hm => ?_⟩
    cases m with
    | zero => exact absurd hm (Nat.not_succ_le_zero n)
    | succ m =>
      rw [ticks, if_neg (by simpa using hempty)]
      exact hn m (Nat.le_of_succ_le_succ hm)
termination_by burden s.agenda
decreasing_by exact hlighter

end IssueQuery.Engine
