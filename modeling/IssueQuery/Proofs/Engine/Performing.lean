import IssueQuery.Proofs.Engine.Invariant

/-!
# What jobs do

What each job does when its turn has come, case by case, said once for all that is kept along turns.
A proof about jobs splits these cases and need not open the code of any job.

* `notice`, `endJob`  the jobs that jobs leave behind;
* `Performed`         what a job does, one case for each way it can go;
* `performed`         every job does what one of the cases says;
* `Ticked`, `ticked`  what a turn does: a job is done, or put off.
-/

namespace IssueQuery.Engine

variable {cfg : Settings} {store : Store} {s : State} {l : Load} {outcome : Except LoadFailure Outcome}

/-! ## Jobs left behind -/

/-- The job that tells a call the outcome of its load, and the turns that it lets pass. -/
def notice (s : State) (outcome : Except LoadFailure Outcome) (call : Nat) : Nat × Job :=
  match (s.calls[call]?).bind Call.signal with
  | some _ => (0, .deliver call outcome)
  | none => (1, .finish call outcome)

theorem foldl_notify (s : State) (calls : List Nat) :
    calls.foldl (notify outcome) s =
      { s with agenda := s.agenda ++ calls.map (notice s outcome) } := by
  induction calls generalizing s with
  | nil => simp
  | cons call rest ih =>
    have hnotify : notify outcome s call =
        { s with agenda := s.agenda ++ [notice s outcome call] } := by
      unfold notify notice
      cases (s.calls[call]?).bind Call.signal <;> rfl
    -- a notice does not depend on the agenda
    rw [List.foldl_cons, hnotify, ih, List.map_cons, List.append_assoc, List.singleton_append]
    rfl

theorem foldl_schedule {α : Type} (s : State) (items : List α) (turns : Nat) (job : α → Job) :
    items.foldl (fun s a => s.schedule turns (job a)) s =
      { s with agenda := s.agenda ++ items.map fun a => (turns, job a) } := by
  induction items generalizing s with
  | nil => simp
  | cons a rest ih =>
    rw [List.foldl_cons, ih, State.schedule, List.map_cons, List.append_assoc,
      List.singleton_append]

/-- The job with which a load ends: its callers are told, or its one caller finishes. -/
def endJob (l : Load) (outcome : Except LoadFailure Outcome) : Job :=
  match l.control with
  | .shared _ => .settle l.id outcome
  | .own call _ => .finish call outcome

theorem conclude_eq (s : State) (l : Load) (outcome : Except LoadFailure Outcome) :
    ∃ turns, conclude s l outcome = s.schedule turns (endJob l outcome) := by
  unfold conclude endJob
  cases l.control with
  | shared aborted => exact ⟨1, rfl⟩
  | own call signal => exact ⟨2, rfl⟩

/-! ## Jobs -/

/-- What a job does when its turn has come. -/
inductive Performed (cfg : Settings) (store : Store) (s : State) : Job → State → Prop
  /-- A call that has no load asks nobody. -/
  | unserved {call : Nat} (hnone : ((s.calls[call]?).bind Call.load).bind s.load? = none) :
    Performed cfg store s (.subscribe call) s
  | toldLate {call : Nat} {c : Call} {l : Load} {outcome : Except LoadFailure Outcome}
    (hc : s.calls[call]? = some c) (hload : c.load = some l.id) (hl : l ∈ s.loads)
    (hended : l.ended = some outcome) :
    Performed cfg store s (.subscribe call) (s.schedule 1 (.finish call outcome))
  | subscribed {call : Nat} {c : Call} {l : Load} (hc : s.calls[call]? = some c)
    (hload : c.load = some l.id) (hl : l ∈ s.loads) (hended : l.ended = none) :
    Performed cfg store s (.subscribe call)
      (s.modifyLoad l.id fun l => { l with subscribers := l.subscribers ++ [call] })
  | settled (id : Nat) (outcome : Except LoadFailure Outcome) :
    Performed cfg store s (.settle id outcome)
      { { s with queries := s.queries.settle id outcome.toOption s.now }.modifyLoad id
          fun l => { l with ended := some outcome } with
        agenda := s.agenda ++
          (((s.load? id).map Load.subscribers).getD []).map (notice s outcome) }
  | settledGraph (g : Nat) (graph : Except LoadFailure Graph) :
    Performed cfg store s (.settleGraph g graph)
      { s with
        graphs := s.graphs.settle g graph.toOption s.now
        agenda := s.agenda ++ (s.graphWaiters.filter fun w => w.1 == g).map fun w =>
          (0, .deliverGraph w.2 graph) }
  | deliveredGraph {id g : Nat} {l : Load} (graph : Except LoadFailure Graph)
    (hfound : s.load? id = some l) (hwaits : l.graphLoad = some g) :
    Performed cfg store s (.deliverGraph id graph)
      ({ s.modifyLoad id fun l => { l with graphLoad := none } with
        graphWaiters := s.graphWaiters.filter fun w => w.2 != id }.schedule 1 (.resume id graph))
  /-- A load that was called off waits for no graph any more. -/
  | unawaited {id : Nat} (graph : Except LoadFailure Graph)
    (hnone : (s.load? id).bind Load.graphLoad = none) :
    Performed cfg store s (.deliverGraph id graph) s
  | unknown {id : Nat} (graph : Except LoadFailure Graph) (hnone : s.load? id = none) :
    Performed cfg store s (.resume id graph) s
  | graphless {id : Nat} {l : Load} (e : LoadFailure) (hfound : s.load? id = some l) :
    Performed cfg store s (.resume id (.error e)) (conclude s l (.error e))
  | plain {id : Nat} {l : Load} (graph : Graph) (hfound : s.load? id = some l)
    (hexpansion : l.query.expansion = none) :
    Performed cfg store s (.resume id (.ok graph)) (conclude s l (.ok ⟨l.base, none⟩))
  | expanded {id : Nat} {l : Load} {e : Expansion} (graph : Graph) (hfound : s.load? id = some l)
    (hexpansion : l.query.expansion = some e) :
    Performed cfg store s (.resume id (.ok graph))
      (conclude (expand cfg store id l.base e graph s).2 l
        (expand cfg store id l.base e graph s).1)
  | delivered {call : Nat} (outcome : Except LoadFailure Outcome)
    (hopen : (s.calls[call]?).bind Call.settled = none) :
    Performed cfg store s (.deliver call outcome)
      ((s.modifyCall call fun c => { c with listening := false }).schedule 1 (.finish call outcome))
  | deliveredLate {call : Nat} {c : Call} {result : Except Rejection Result}
    (outcome : Except LoadFailure Outcome) (hc : s.calls[call]? = some c)
    (hsettled : c.settled = some result) : Performed cfg store s (.deliver call outcome) s
  | finished {call : Nat} {c : Call} (outcome : Except LoadFailure Outcome)
    (hc : s.calls[call]? = some c) (hopen : c.settled = none) :
    Performed cfg store s (.finish call outcome) (finishWith cfg s call (resultOf s c outcome))
  | finishedLate {call : Nat} (outcome : Except LoadFailure Outcome)
    (hsettled : ∀ c, s.calls[call]? = some c → c.settled ≠ none) :
    Performed cfg store s (.finish call outcome) s

theorem performed_subscribe (cfg : Settings) (store : Store) (s : State) (call : Nat) :
    Performed cfg store s (.subscribe call) (subscribe s call) := by
  unfold subscribe
  split
  · rename_i hnone
    exact .unserved hnone
  · rename_i l hsome
    obtain ⟨id, hid, hfound⟩ := Option.bind_eq_some_iff.mp hsome
    obtain ⟨c, hc, hload⟩ := Option.bind_eq_some_iff.mp hid
    obtain ⟨hl, rfl⟩ := mem_of_load? hfound
    split
    · rename_i outcome hended
      exact .toldLate hc hload hl hended
    · rename_i hended
      exact .subscribed hc hload hl hended

theorem performed_settle (cfg : Settings) (store : Store) (s : State) (id : Nat)
    (outcome : Except LoadFailure Outcome) :
    Performed cfg store s (.settle id outcome) (settle s id outcome) := by
  unfold settle
  rw [foldl_notify]
  exact .settled id outcome

theorem performed_settleGraph (cfg : Settings) (store : Store) (s : State) (g : Nat)
    (graph : Except LoadFailure Graph) :
    Performed cfg store s (.settleGraph g graph) (settleGraph s g graph) := by
  unfold settleGraph
  rw [foldl_schedule]
  exact .settledGraph g graph

theorem performed_deliverGraph (cfg : Settings) (store : Store) (s : State) (id : Nat)
    (graph : Except LoadFailure Graph) :
    Performed cfg store s (.deliverGraph id graph) (deliverGraph s id graph) := by
  unfold deliverGraph
  split
  · rename_i hsome
    obtain ⟨g, hg⟩ := Option.isSome_iff_exists.mp hsome
    obtain ⟨l, hfound, hwaits⟩ := Option.bind_eq_some_iff.mp hg
    exact .deliveredGraph graph hfound hwaits
  · rename_i hnone
    exact .unawaited graph (by simpa using hnone)

theorem performed_resume (cfg : Settings) (store : Store) (s : State) (id : Nat)
    (graph : Except LoadFailure Graph) :
    Performed cfg store s (.resume id graph) (resume cfg store s id graph) := by
  unfold resume
  split
  · rename_i hnone
    exact .unknown graph hnone
  · rename_i l hfound
    split
    · exact .graphless _ hfound
    · rename_i hexpansion
      exact .plain _ hfound hexpansion
    · rename_i hexpansion
      exact .expanded _ hfound hexpansion

theorem performed_deliver (cfg : Settings) (store : Store) (s : State) (call : Nat)
    (outcome : Except LoadFailure Outcome) :
    Performed cfg store s (.deliver call outcome) (deliver s call outcome) := by
  unfold deliver
  split
  · rename_i hsome
    obtain ⟨result, hresult⟩ := Option.isSome_iff_exists.mp hsome
    obtain ⟨c, hc, hsettled⟩ := Option.bind_eq_some_iff.mp hresult
    exact .deliveredLate outcome hc hsettled
  · rename_i hopen
    exact .delivered outcome (by simpa using hopen)

theorem performed_finish (cfg : Settings) (store : Store) (s : State) (call : Nat)
    (outcome : Except LoadFailure Outcome) :
    Performed cfg store s (.finish call outcome) (finish cfg s call outcome) := by
  unfold finish
  split
  · rename_i hnone
    exact .finishedLate outcome fun c hc => nomatch hnone.symm.trans hc
  · rename_i c hc
    split
    · rename_i hsettled
      refine .finishedLate outcome fun c' hc' => ?_
      obtain rfl := Option.some.inj (hc.symm.trans hc')
      exact Option.isSome_iff_ne_none.mp hsettled
    · rename_i hopen
      exact .finished outcome hc (by simpa using hopen)

/-- Every job does what one of the cases says. -/
theorem performed (cfg : Settings) (store : Store) (s : State) (job : Job) :
    Performed cfg store s job (perform cfg store s job) := by
  cases job with
  | subscribe call => exact performed_subscribe cfg store s call
  | settle id outcome => exact performed_settle cfg store s id outcome
  | settleGraph g graph => exact performed_settleGraph cfg store s g graph
  | deliverGraph id graph => exact performed_deliverGraph cfg store s id graph
  | resume id graph => exact performed_resume cfg store s id graph
  | deliver call outcome => exact performed_deliver cfg store s call outcome
  | finish call outcome => exact performed_finish cfg store s call outcome

/-! ## Turns -/

/-- What a turn does. -/
inductive Ticked (cfg : Settings) (store : Store) (s : State) : State → Prop
  | idle (hagenda : s.agenda = []) : Ticked cfg store s s
  | due {job : Job} {rest : List (Nat × Job)} {s' : State} (hagenda : s.agenda = (0, job) :: rest)
    (hs : Performed cfg store { s with agenda := rest } job s') : Ticked cfg store s s'
  /-- A job that has turns to let pass goes to the end. -/
  | putOff {turns : Nat} {job : Job} {rest : List (Nat × Job)}
    (hagenda : s.agenda = (turns + 1, job) :: rest) :
    Ticked cfg store s { s with agenda := rest ++ [(turns, job)] }

/-- Every turn does what one of the cases says. -/
theorem ticked (cfg : Settings) (store : Store) (s : State) :
    Ticked cfg store s (tick cfg store s) := by
  unfold tick
  split
  · rename_i hagenda
    exact .idle hagenda
  · rename_i job rest hagenda
    exact .due hagenda (performed cfg store _ job)
  · rename_i turns job rest hagenda
    exact .putOff hagenda

end IssueQuery.Engine
