import IssueQuery.Proofs.Engine.Charts
import IssueQuery.Proofs.Engine.Settling

/-!
# A call alone gets its result

Where one call is made of an engine that has just been made, each job leads to one other at most:
one load is under way, it waits for one graph, and it tells one call. So there is a bound on the
turns that the agenda can take, and it lies below those that are waited for.

* `weight`          the turns that an agenda can take if no job leads to two;
* `State.Narrow`    what keeps jobs from leading to two, and is kept by every turn;
* `Ticked.weight_lt` a turn makes the agenda lighter;
* `drain_settles`   the call gets something, whatever the store answers;
* `drain_journal`   nothing is done with the store but to give it statements.
-/

namespace IssueQuery.Engine

variable {cfg : Settings} {store : Store} {s s' s'' : State} {job : Job} {more : Nat}
  {l : Load}

/-! ## How many jobs there can be -/

/-- The turns that the jobs on an agenda can take, with those that they lead to. A job leads to one
of lesser rank at most, and that lets two turns pass at most. -/
def weight (agenda : List (Nat × Job)) : Nat := (agenda.map fun p => p.1 + 1 + 3 * p.2.rank).sum

@[simp] theorem weight_nil : weight [] = 0 := rfl

@[simp] theorem weight_cons (turns : Nat) (job : Job) (rest : List (Nat × Job)) :
    weight ((turns, job) :: rest) = turns + 1 + 3 * job.rank + weight rest := by
  simp [weight]

@[simp] theorem weight_append (agenda agenda' : List (Nat × Job)) :
    weight (agenda ++ agenda') = weight agenda + weight agenda' := by
  simp [weight]

theorem weight_le_of_length {agenda : List (Nat × Job)} {bound : Nat} (hlength : agenda.length ≤ 1)
    (hjobs : ∀ p ∈ agenda, p.1 + 1 + 3 * p.2.rank ≤ bound) : weight agenda ≤ bound := by
  obtain hnone | ⟨p, hp⟩ := (Nat.le_one_iff_eq_zero_or_eq_one.mp hlength).imp
    List.length_eq_zero_iff.mp List.length_eq_one_iff.mp
  · rw [hnone]
    exact Nat.zero_le bound
  · rw [hp, weight_cons, weight_nil]
    exact hjobs p (hp ▸ List.mem_cons_self)

/-- Whether the job is that of a call which asks to be told. -/
def Job.asks : Job → Bool
  | .subscribe _ => true
  | .settle .. | .settleGraph .. | .deliverGraph .. | .resume .. | .deliver .. | .finish .. => false

/-- How many calls are about to ask to be told. -/
def State.asking (s : State) : Nat := s.agenda.countP fun p => p.2.asks

/-- One load waits for the graph at most, and each load has one call to tell at most, with those
that are about to ask and some more. -/
structure State.Narrow (s : State) (more : Nat) : Prop where
  waiters : s.graphWaiters.length ≤ 1
  told : ∀ l ∈ s.loads, l.subscribers.length + s.asking + more ≤ 1

/-- Between the states no call comes up, none asks to be told, and no load begins to wait for the
graph. -/
structure NoWider (s s' : State) : Prop where
  calls : s'.calls.length = s.calls.length
  loads : ∀ l' ∈ s'.loads, ∃ l ∈ s.loads, l'.subscribers = l.subscribers
  waiters : s'.graphWaiters.length ≤ s.graphWaiters.length
  asking : s'.asking = s.asking

theorem State.Narrow.noWider (h : s.Narrow more) (hs : NoWider s s') : s'.Narrow more where
  waiters := Nat.le_trans hs.waiters h.waiters
  told := by
    intro l' hl'
    obtain ⟨l, hl, hsubscribers⟩ := hs.loads l' hl'
    rw [hsubscribers, hs.asking]
    exact h.told l hl

namespace NoWider

theorem of_same (hcalls : s'.calls.length = s.calls.length) (hloads : s'.loads = s.loads)
    (hwaiters : s'.graphWaiters = s.graphWaiters) (hagenda : s'.agenda = s.agenda) :
    NoWider s s' where
  calls := hcalls
  loads := fun l' hl' => ⟨l', hloads ▸ hl', rfl⟩
  waiters := Nat.le_of_eq (congrArg List.length hwaiters)
  asking := by rw [State.asking, hagenda, State.asking]

theorem refl (s : State) : NoWider s s := .of_same rfl rfl rfl rfl

theorem trans (h : NoWider s s') (h' : NoWider s' s'') : NoWider s s'' where
  calls := h'.calls.trans h.calls
  loads := by
    intro l'' hl''
    obtain ⟨l', hl', hsubscribers'⟩ := h'.loads l'' hl''
    obtain ⟨l, hl, hsubscribers⟩ := h.loads l' hl'
    exact ⟨l, hl, hsubscribers'.trans hsubscribers⟩
  waiters := Nat.le_trans h'.waiters h.waiters
  asking := h'.asking.trans h.asking

theorem added (s : State) {new : List (Nat × Job)} (hnew : ∀ p ∈ new, p.2.asks = false) :
    NoWider s { s with agenda := s.agenda ++ new } where
  calls := rfl
  loads := fun l' hl' => ⟨l', hl', rfl⟩
  waiters := Nat.le_refl _
  asking := by
    have hnone : new.countP (fun p => p.2.asks) = 0 :=
      List.countP_eq_zero.mpr fun p hp hasks => Bool.false_ne_true ((hnew p hp).symm.trans hasks)
    rw [State.asking, List.countP_append, hnone, State.asking, Nat.add_zero]

theorem schedule (s : State) (turns : Nat) (hjob : job.asks = false) :
    NoWider s (s.schedule turns job) :=
  added s fun _ hp => List.mem_singleton.mp hp ▸ hjob

theorem modifyLoad (s : State) (id : Nat) (change : Load → Load)
    (hchange : ∀ l, (change l).subscribers = l.subscribers) :
    NoWider s (s.modifyLoad id change) where
  calls := rfl
  loads := by
    intro l' hl'
    obtain ⟨l, hl, rfl⟩ := List.mem_map.mp hl'
    refine ⟨l, hl, ?_⟩
    split
    · exact hchange l
    · rfl
  waiters := Nat.le_refl _
  asking := rfl

theorem modifyCall (s : State) (call : Nat) (change : Call → Call) :
    NoWider s (s.modifyCall call change) :=
  .of_same (List.length_modify ..) rfl rfl rfl

theorem frame (h : Frame s s') : NoWider s s' :=
  .of_same (congrArg List.length h.calls) h.loads h.graphWaiters h.agenda

end NoWider

theorem callOff_waiters (s : State) (load : Nat) (signal reason : Text) :
    (s.callOff load signal reason).graphWaiters.length ≤ s.graphWaiters.length := by
  obtain ⟨graphs, waiters, hcallOff, -, hwaiters, -⟩ := callOff_eq s load signal reason
  rw [hcallOff]
  exact hwaiters.length_le

/-- While the store is asked, loads stop waiting for the graph at most. -/
theorem Meanwhile.noWider (h : Meanwhile s s') : NoWider s s' where
  calls := (Lulls.meanwhile h).callCount
  loads := by
    intro l' hl'
    obtain ⟨change, hloads, hchange⟩ := h.loads
    rw [hloads] at hl'
    obtain ⟨l, hl, rfl⟩ := List.mem_map.mp hl'
    refine ⟨l, hl, ?_⟩
    obtain hsame | ⟨cause, hsame⟩ := hchange l <;> rw [hsame]
  waiters := by
    induction h with
    | refl => exact Nat.le_refl _
    | notes _ _ _ _ ih => exact ih
    | advance _ _ ih => exact ih
    | abort _ signal reason ih =>
      -- an abort turns callers away one by one, and each takes at most a waiter with it
      refine abort_keeps (P := fun s' => s'.graphWaiters.length ≤ _) ih (fun _ => ih) ?_
      intro s' i _ hless
      refine Nat.le_trans ?_ hless
      obtain hsame | ⟨-, load, -, -, hturned | hturned⟩ := turnAway_cases s' signal reason i
      · rw [hsame]
      · rw [hturned]
        exact Nat.le_refl _
      · rw [hturned]
        exact callOff_waiters _ load signal reason
  asking := by rw [State.asking, h.agenda, State.asking]

/-! ## What a job does -/

theorem meanwhile_expand (cfg : Settings) (store : Store) (load : Nat) (base : List Issue)
    (e : Expansion) (graph : Graph) (s : State) :
    Meanwhile s (expand cfg store load base e graph s).2 := by
  have hproceeds : Proceeds store load (expand cfg store load base e graph) :=
    proceeds_expand cfg base e graph
  exact (hproceeds s).1

/-- A load that ends has one call to tell at most. -/
theorem State.Narrow.subscribers_le (h : s.Narrow more) (id : Nat) :
    (((s.load? id).map Load.subscribers).getD []).length ≤ 1 := by
  cases hl : s.load? id with
  | none => exact Nat.zero_le 1
  | some l =>
    have htold := h.told l (mem_of_load? hl).1
    rw [Option.map_some, Option.getD_some]
    omega

/-- A load that comes to its end takes no more turns for that than the job that goes on with it. -/
theorem weight_conclude (s : State) (l : Load) (outcome : Except LoadFailure Outcome) :
    ∃ new, (conclude s l outcome).agenda = s.agenda ++ new ∧ weight new ≤ 9 := by
  unfold conclude
  split <;> exact ⟨_, rfl, by simp [Job.rank]⟩

/-- A job adds jobs to the agenda that take no more turns than it accounts for. -/
theorem Performed.weight_le (hs : Performed cfg store s job s') (h : s.Narrow more) :
    ∃ new, s'.agenda = s.agenda ++ new ∧ weight new ≤ 3 * job.rank := by
  cases hs with
  | unserved | subscribed | unawaited | unknown | deliveredLate | finishedLate =>
    exact ⟨[], (List.append_nil _).symm, Nat.zero_le _⟩
  | toldLate | deliveredGraph | delivered => exact ⟨_, rfl, by simp [Job.rank]⟩
  | settled id outcome =>
    -- the load has one call to tell at most, so this is one job at most
    refine ⟨_, rfl, weight_le_of_length ?_ fun p hp => ?_⟩
    · rw [List.length_map]
      exact h.subscribers_le id
    · obtain ⟨call, -, rfl⟩ := List.mem_map.mp hp
      unfold notice
      split <;> simp [Job.rank]
  | settledGraph =>
    refine ⟨_, rfl, weight_le_of_length ?_ fun p hp => ?_⟩
    · rw [List.length_map]
      exact Nat.le_trans (List.length_filter_le _ _) h.waiters
    · obtain ⟨w, -, rfl⟩ := List.mem_map.mp hp
      simp [Job.rank]
  | graphless | plain => exact weight_conclude s _ _
  | @expanded id l e found =>
    rw [← (meanwhile_expand cfg store id l.base e found s).agenda]
    exact weight_conclude _ l _
  | finished => exact ⟨[], by rw [List.append_nil]; exact (frame_finishWith ..).agenda, Nat.zero_le _⟩

theorem noWider_conclude (s : State) (l : Load) (outcome : Except LoadFailure Outcome) :
    NoWider s (conclude s l outcome) := by
  unfold conclude
  split <;> exact .schedule s _ rfl

/-- Only a call that asks to be told makes a load tell one more. -/
theorem Performed.noWider (hs : Performed cfg store s job s') (hjob : job.asks = false) :
    NoWider s s' := by
  cases hs with
  | unserved | toldLate | subscribed => cases hjob
  | unawaited | unknown | deliveredLate | finishedLate => exact .refl s
  | settled id outcome =>
    have hkept : NoWider s { s with queries := s.queries.settle id outcome.toOption s.now } :=
      .of_same rfl rfl rfl rfl
    have hended := hkept.trans
      (.modifyLoad _ id (fun l => { l with ended := some outcome }) fun _ => rfl)
    refine hended.trans (.added _ fun p hp => ?_)
    obtain ⟨call, -, rfl⟩ := List.mem_map.mp hp
    unfold notice
    split <;> rfl
  | settledGraph g graph =>
    have hkept : NoWider s { s with graphs := s.graphs.settle g graph.toOption s.now } :=
      .of_same rfl rfl rfl rfl
    refine hkept.trans (.added _ fun p hp => ?_)
    obtain ⟨w, -, rfl⟩ := List.mem_map.mp hp
    rfl
  | @deliveredGraph id =>
    have htold := NoWider.modifyLoad s id (fun l => { l with graphLoad := none }) fun _ => rfl
    refine (htold.trans ?_).trans (.schedule _ 1 rfl)
    exact ⟨rfl, fun l' hl' => ⟨l', hl', rfl⟩, List.length_filter_le _ _, rfl⟩
  | graphless | plain => exact noWider_conclude s _ _
  | @expanded id l e found =>
    exact (meanwhile_expand cfg store id l.base e found s).noWider.trans (noWider_conclude _ l _)
  | @delivered call => exact .trans (.modifyCall s call _) (.schedule _ 1 rfl)
  | @finished call => exact .trans (.modifyCall s call _) (.frame (frame_finishWith ..))

theorem State.Narrow.less (h : s.Narrow 1) : s.Narrow 0 :=
  ⟨h.waiters, fun l hl => Nat.le_of_succ_le (h.told l hl)⟩

/-- Where one more call may ask, a load may tell one more. -/
theorem State.Narrow.subscribed (h : s.Narrow 1) (load call : Nat) :
    (s.modifyLoad load fun l => { l with subscribers := l.subscribers ++ [call] }).Narrow 0 := by
  refine ⟨h.waiters, fun l' hl' => ?_⟩
  obtain ⟨l, hl, rfl⟩ := List.mem_map.mp hl'
  have htold := h.told l hl
  show _ + s.asking + 0 ≤ 1
  split
  · simp only [List.length_append, List.length_singleton]
    omega
  · omega

/-- A call that asks to be told is the one that the load tells. -/
theorem Performed.narrow_of_asks (hs : Performed cfg store s job s') (hjob : job.asks = true)
    (h : s.Narrow 1) : s'.Narrow 0 := by
  cases hs with
  | unserved => exact h.less
  | toldLate => exact h.less.noWider (.schedule s 1 rfl)
  | @subscribed call => exact h.subscribed _ call
  | settled | settledGraph | deliveredGraph | unawaited | unknown | graphless | plain | expanded
  | delivered | deliveredLate | finished | finishedLate => cases hjob

/-! ## Turns -/

/-- The first job comes off the agenda to be done, and if it was to ask, one more may ask. -/
theorem State.Narrow.tail (h : s.Narrow 0) {turns : Nat} {rest : List (Nat × Job)}
    (hagenda : s.agenda = (turns, job) :: rest) :
    State.Narrow { s with agenda := rest } job.asks.toNat := by
  refine ⟨h.waiters, fun l hl => ?_⟩
  have htold := h.told l hl
  rw [State.asking, hagenda, List.countP_cons] at htold
  show _ + rest.countP _ + _ ≤ 1
  cases hasks : job.asks with
  | false =>
    simp only [hasks, Bool.toNat_false, Bool.false_eq_true, if_false] at htold ⊢
    exact htold
  | true =>
    simp only [hasks, Bool.toNat_true, if_true] at htold ⊢
    omega

theorem Ticked.narrow (hs : Ticked cfg store s s') (h : s.Narrow 0) : s'.Narrow 0 := by
  cases hs with
  | idle => exact h
  | @due job rest _ hagenda hs =>
    have hrest := h.tail hagenda
    cases hjob : job.asks with
    | false =>
      rw [hjob] at hrest
      exact hrest.noWider (hs.noWider hjob)
    | true =>
      -- the one call that may still ask has asked now
      rw [hjob] at hrest
      exact hs.narrow_of_asks hjob hrest
  | @putOff turns job rest hagenda =>
    have hasking : State.asking { s with agenda := rest ++ [(turns, job)] } = s.asking := by
      simp [State.asking, hagenda, List.countP_cons]
    exact ⟨h.waiters, fun l hl => hasking ▸ h.told l hl⟩

/-- A turn makes the agenda lighter. -/
theorem Ticked.weight_lt (hs : Ticked cfg store s s') (h : s.Narrow 0) (hagenda : s.agenda ≠ []) :
    weight s'.agenda < weight s.agenda := by
  cases hs with
  | idle hnone => exact absurd hnone hagenda
  | due hfirst hs =>
    -- what the job leads to weighs three turns a rank at most, and its own turn is gone
    obtain ⟨new, hnew, hlight⟩ := hs.weight_le (h.tail hfirst)
    rw [hnew, hfirst]
    simp only [weight_append, weight_cons]
    omega
  | putOff hfirst =>
    rw [hfirst]
    simp only [weight_append, weight_cons, weight_nil]
    omega

/-- In as many turns as its weight the agenda is empty. -/
theorem ticks_agenda_empty {n : Nat} (h : s.Narrow 0) (hn : weight s.agenda ≤ n) :
    (ticks cfg store n s).agenda = [] := by
  induction n generalizing s with
  | zero =>
    cases hagenda : s.agenda with
    | nil => exact hagenda
    | cons p rest =>
      obtain ⟨turns, job⟩ := p
      rw [hagenda, weight_cons] at hn
      omega
  | succ n ih =>
    rw [ticks]
    split
    · exact List.isEmpty_iff.mp ‹_›
    · rename_i hsome
      have hticked := ticked cfg store s
      have hlighter := hticked.weight_lt h (by simpa using hsome)
      exact ih (hticked.narrow h) (by omega)

/-! ## A load that starts -/

/-- A load that starts is told to no call yet. It puts one job on the agenda at most, and waits for
one graph at most. -/
structure SetsOut (s s' : State) : Prop where
  calls : s'.calls.length = s.calls.length
  loads : ∀ l' ∈ s'.loads, ∃ l ∈ s.loads, l'.subscribers = l.subscribers
  waiters : s'.graphWaiters.length ≤ s.graphWaiters.length + 1
  asking : s'.asking = s.asking
  agenda : ∃ new, s'.agenda = s.agenda ++ new ∧ weight new ≤ 16

theorem State.Narrow.setsOut (h : s.Narrow more) (hwaiters : s.graphWaiters = [])
    (hs : SetsOut s s') : s'.Narrow more where
  waiters := by simpa [hwaiters] using hs.waiters
  told := by
    intro l' hl'
    obtain ⟨l, hl, hsubscribers⟩ := hs.loads l' hl'
    rw [hsubscribers, hs.asking]
    exact h.told l hl

namespace SetsOut

theorem of_noWider (h : NoWider s s') {new : List (Nat × Job)}
    (hagenda : s'.agenda = s.agenda ++ new) (hlight : weight new ≤ 16) : SetsOut s s' :=
  ⟨h.calls, h.loads, Nat.le_succ_of_le h.waiters, h.asking, new, hagenda, hlight⟩

/-- The load puts a job on the agenda, and does nothing else that counts. -/
theorem schedule (h : NoWider s s') (hagenda : s'.agenda = s.agenda) (turns : Nat)
    (hjob : job.asks = false) (hlight : turns + 1 + 3 * job.rank ≤ 16) :
    SetsOut s (s'.schedule turns job) :=
  .of_noWider (h.trans (.schedule s' turns hjob)) (congrArg (· ++ [(turns, job)]) hagenda)
    (by simpa using hlight)

/-- What does not begin to wait for the graph may do so. -/
theorem awaitGraph (h : NoWider s s') {new : List (Nat × Job)}
    (hagenda : s'.agenda = s.agenda ++ new) (hlight : weight new ≤ 16) (g load : Nat) :
    SetsOut s (awaitGraph s' g load) := by
  have hwaits := h.trans
    (.modifyLoad s' load (fun l => { l with graphLoad := some g }) fun _ => rfl)
  refine ⟨hwaits.calls, hwaits.loads, ?_, hwaits.asking, new, hagenda, hlight⟩
  show (s'.graphWaiters ++ [(g, load)]).length ≤ _
  rw [List.length_append]
  exact Nat.succ_le_succ h.waiters

theorem requestGraph (h : NoWider s s') (hagenda : s'.agenda = s.agenda) (load : Nat) :
    SetsOut s (requestGraph cfg store s' load) := by
  have hgraphs (graphs : ReadThrough Unit Graph) : NoWider s { s' with graphs := graphs } :=
    h.trans (.of_same rfl rfl rfl rfl)
  unfold Engine.requestGraph
  split
  · rename_i graph graphs _
    exact .schedule (hgraphs graphs) hagenda 0 rfl (by simp [Job.rank])
  · rename_i g graphs _
    exact .awaitGraph (hgraphs graphs) (hagenda.trans (List.append_nil _).symm) (Nat.zero_le _)
      g load
  · rename_i g graphs _
    have hasks := meanwhile_loadGraph store { s' with graphs := graphs }
    generalize staged .graph (loadGraph store) { s' with graphs := graphs } = loaded at hasks
    obtain ⟨graph, s''⟩ := loaded
    have hnoted := ((hgraphs graphs).trans hasks.noWider).trans
      (.schedule s'' 0 (rfl : (Job.settleGraph g graph).asks = false))
    exact .awaitGraph hnoted (congrArg (· ++ [_]) (hasks.agenda.trans hagenda))
      (Nat.le_of_eq rfl) g load

theorem turnToGraph (h : NoWider s s') (hagenda : s'.agenda = s.agenda) (l : Load) :
    SetsOut s (turnToGraph cfg store s' l) := by
  unfold Engine.turnToGraph
  split
  · exact .schedule h hagenda 0 rfl (by simp [Job.rank])
  · split
    · exact .requestGraph h hagenda l.id
    · have hasks := meanwhile_loadGraph store s'
      unfold Engine.fetchOwnGraph
      generalize staged .graph (loadGraph store) s' = loaded at hasks
      exact .schedule (h.trans hasks.noWider) (hasks.agenda.trans hagenda) 2 rfl
        (by simp [Job.rank])

theorem concludeEarly (h : NoWider s s') (hagenda : s'.agenda = s.agenda) (l : Load)
    (expanding : Bool) (outcome : Except LoadFailure Outcome) :
    SetsOut s (concludeEarly s' l expanding outcome) := by
  unfold Engine.concludeEarly
  split
  · exact .schedule h hagenda _ rfl (by cases expanding <;> simp [Job.rank])
  · exact .schedule h hagenda _ rfl (by cases expanding <;> simp [Job.rank])

theorem startLoad (cfg : Settings) (store : Store) (s : State) (l : Load) :
    SetsOut { s with loads := s.loads ++ [l] } (startLoad cfg store s l) := by
  have hfetched := meanwhile_fetchBase store l.id l.query { s with loads := s.loads ++ [l] }
  obtain ⟨expanding, outcome, -, hstart⟩ | ⟨base, e, -, -, -, hstart⟩ :=
    startLoad_cases cfg store s l
  · rw [hstart]
    exact .concludeEarly hfetched.noWider hfetched.agenda l expanding outcome
  · rw [hstart]
    have hbase := hfetched.noWider.trans
      (.modifyLoad _ l.id (fun l => { l with base := base }) fun _ => rfl)
    exact .turnToGraph hbase hfetched.agenda l

end SetsOut

/-! ## A first call -/

/-- One call was made of the engine, and the jobs on its agenda do not take many turns. -/
structure State.Light (s : State) (more bound : Nat) : Prop where
  narrow : s.Narrow more
  calls : s.calls.length = 1
  light : weight s.agenda ≤ bound

theorem State.Light.less {bound bound' : Nat} (h : s.Light 1 bound) (hle : bound ≤ bound') :
    s.Light 0 bound' :=
  ⟨h.narrow.less, h.calls, Nat.le_trans h.light hle⟩

/-- A call that joins a load asks to be told at once, or in a turn. -/
theorem State.Light.join {bound : Nat} (h : s.Light 1 bound) (call load : Nat) :
    (join s call load).Light 0 (bound + 4) := by
  have hwaits (change : Call → Call) : NoWider s (s.modifyCall call change) :=
    .modifyCall s call change
  obtain hjoin | hjoin := join_cases s call load <;> rw [hjoin]
  · exact ⟨(h.narrow.noWider (hwaits _)).subscribed load call, (hwaits _).calls.trans h.calls,
      Nat.le_add_right_of_le h.light⟩
  · refine ⟨⟨h.narrow.waiters, fun l hl => ?_⟩, (hwaits _).calls.trans h.calls, ?_⟩
    · have htold := h.narrow.told l hl
      rw [State.asking, State.schedule, List.countP_append]
      exact htold
    · rw [State.schedule, weight_append]
      exact Nat.add_le_add_right h.light 4

/-- A load starts where nothing else is under way. -/
theorem light_startLoad (hcalls : s.calls.length = 1) (hloads : s.loads = [])
    (hwaiters : s.graphWaiters = []) (hagenda : s.agenda = []) (hl : l.subscribers = []) :
    (startLoad cfg store s l).Light 1 16 := by
  have hsets := SetsOut.startLoad cfg store s l
  have halone : State.Narrow { s with loads := s.loads ++ [l] } 1 := by
    refine ⟨by rw [hwaiters]; exact Nat.zero_le 1, fun l' hl' => ?_⟩
    rw [hloads] at hl'
    obtain rfl := List.mem_singleton.mp hl'
    rw [hl, State.asking, hagenda]
    exact Nat.le_refl 1
  obtain ⟨new, hnew, hlight⟩ := hsets.agenda
  rw [hagenda, List.nil_append] at hnew
  exact ⟨halone.setsOut hwaiters hsets, hsets.calls.trans hcalls, hnew ▸ hlight⟩

/-- Where there is no load, nobody waits for one. -/
theorem State.Narrow.of_idle (hloads : s.loads = []) (hwaiters : s.graphWaiters = []) :
    s.Narrow more :=
  ⟨by rw [hwaiters]; exact Nat.zero_le 1, fun l hl => by rw [hloads] at hl; cases hl⟩

theorem Called.light {now : Time} {text : Text} {signal : Option Text}
    (h : Called cfg store (.initial now) text signal s) : s.Light 0 20 := by
  cases h with
  | rejected texts rejection lines hcause => exact ⟨.of_idle rfl rfl, rfl, Nat.zero_le _⟩
  | kept texts queries out hon hqueries hholds =>
    exact ⟨.of_idle rfl rfl, rfl, Nat.le_of_ble_eq_true rfl⟩
  | joined texts queries load hon hqueries =>
    have hidle : ((State.initial now).made text signal texts queries).Light 1 16 :=
      ⟨.of_idle rfl rfl, rfl, Nat.zero_le _⟩
    exact hidle.join _ load
  | shared texts queries q hon hquery hstarted hholds hflights =>
    exact State.Light.join (light_startLoad rfl rfl rfl rfl rfl) _ _
  | own texts q hoff hquery hquiet =>
    exact State.Light.less (light_startLoad rfl rfl rfl rfl rfl) (by decide)

/-- The turns that are waited for are enough for a first call. -/
theorem drain_agenda (cfg : Settings) (store : Store) (now : Time) (text : Text)
    (signal : Option Text) :
    (drain cfg store (call cfg store (.initial now) text signal)).agenda = [] := by
  have hlight := (called cfg store (.initial now) text signal).light
  unfold drain
  refine ticks_agenda_empty hlight.narrow ?_
  have hpatience : 16 * (1 + 1) ≤ patience (call cfg store (.initial now) text signal) := by
    rw [patience, hlight.calls]
    omega
  exact Nat.le_trans hlight.light (Nat.le_trans (by decide) hpatience)

/-- A call that is made of an engine that has just been made gets something, whatever the store
answers. -/
theorem drain_settles (cfg : Settings) (store : Store) (now : Time) (text : Text)
    (signal : Option Text) :
    ∃ result, (drain cfg store (call cfg store (.initial now) text signal)).result? 0 =
      some result := by
  have hsound : Sound cfg store _ (.initial now) := sound_new now none none none none
  have hempty := drain_agenda cfg store now text signal
  rw [drain, ticks_eq_run] at hempty ⊢
  obtain ⟨hcalled, -⟩ := hsound.run [.call text signal]
  obtain ⟨hdrained, hcalls⟩ := hcalled.run
    (List.replicate (patience (call cfg store (.initial now) text signal)) .tick)
  have hlight := (called cfg store (.initial now) text signal).light
  have hmade := List.getElem?_eq_getElem (hlight.calls ▸ Nat.zero_lt_one)
  -- nothing is left to do, so the call has got something
  obtain ⟨c', hc', -, -⟩ := hcalls 0 _ hmade
  obtain ⟨result, hresult⟩ := Option.ne_none_iff_exists'.mp
    (hdrained.attended.settled_of_agenda hempty hc')
  exact ⟨result, (congrArg (Option.bind · Call.settled) hc').trans hresult⟩

/-! ## What is noted -/

/-- The entries are of statements. -/
def Stated (entries : List StoreCall) : Prop :=
  ∀ e ∈ entries, ∃ sql params, e = .statement sql params

theorem stated_nil : Stated [] := List.forall_mem_nil _

theorem Attached.stated {entries : List StoreCall} (h : Attached entries) : Stated entries := by
  intro e he
  obtain ⟨statement, -, rfl | rfl⟩ := h e he
  · exact ⟨_, _, rfl⟩
  · exact ⟨_, _, rfl⟩

theorem Fetched.stated {entries : List StoreCall} {statement : Statement}
    (h : Fetched statement entries) : Stated entries := by
  obtain ⟨first, more, rfl, hfirst, hmore⟩ := h
  intro e he
  obtain rfl | hrest := List.mem_cons.mp he
  · obtain rfl | rfl := hfirst
    · exact ⟨_, _, rfl⟩
    · exact ⟨_, _, rfl⟩
  · exact hmore.stated e hrest

theorem Notes.stated {entries : List StoreCall} (h : Notes s s' entries) (hs : Stated s.journal)
    (hentries : Stated entries) : Stated s'.journal := by
  rw [h.journal]
  intro e he
  exact (List.mem_append.mp he).elim (hs e) (hentries e)

theorem stated_ticks (h : Stated s.journal) (n : Nat) : Stated (ticks cfg store n s).journal := by
  induction n generalizing s with
  | zero => exact h
  | succ n ih =>
    rw [ticks]
    split
    · exact h
    · obtain ⟨entries, hnotes, rfl | ⟨ids, -, hfetched⟩⟩ := tick_notes cfg store s
      · exact ih (hnotes.stated h stated_nil)
      · exact ih (hnotes.stated h hfetched.stated)

/-- Nothing is done with the store for a first call but to give it statements. -/
theorem drain_journal (cfg : Settings) (store : Store) (now : Time) (text : Text)
    (signal : Option Text) :
    Stated (drain cfg store (call cfg store (.initial now) text signal)).journal := by
  unfold drain
  refine stated_ticks ?_ _
  obtain hnotes | ⟨q, -, selection, entries, -, -, hjournal, hfetched⟩ :=
    call_notes cfg store (s := .initial now) (List.forall_mem_nil _) text signal
  · exact hnotes.stated stated_nil stated_nil
  · rw [hjournal]
    exact hfetched.stated

end IssueQuery.Engine
