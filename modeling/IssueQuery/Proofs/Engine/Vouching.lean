import IssueQuery.Proofs.Engine.Starting

/-!
# Outcomes that are vouched for

Outcomes come up in two places: when a load starts and finds nothing to expand, and when a load goes
on with the graph. From there they are only passed on, from loads to calls and to the cache and from
the cache to later calls. So whatever is true of an outcome where it comes up is true of it wherever
it is told.

* `ComesTo`        the events in which a load of an expanding query comes to its outcome;
* `Vouched`        whatever the engine keeps or tells is vouched for;
* `Vouched.step`   it stays so if what comes up is vouched for.
-/

namespace IssueQuery.Engine

variable {P : Query → Outcome → Prop} {store : Store} {cfg : Settings} {m : Mark} {s s' : State}
  {l : Load} {c : Call} {job : Job} {i id load : Nat} {text : Text} {signal : Option Text}
  {q : Query} {out : Outcome} {outcome : Except LoadFailure Outcome} {event : Event}

/-! ## Where outcomes come up -/

/-- In the event a load of an expanding query comes to an outcome: in a call that starts it, if it
finds nothing to expand, or in the turn in which it goes on with the graph. -/
inductive ComesTo (cfg : Settings) (store : Store) (s : State) : Event → Query → Outcome → Prop
  | empty {text : Text} {signal : Option Text} {q : Query} {e : Expansion}
    {statements : List Statement} (hquery : readQuery text = .ok q) (he : q.expansion = some e)
    (hjournal : (step cfg store s (.call text signal)).journal =
      s.journal ++ statements.map ranEntry)
    (hbegun : Begun store q s.asked statements []) :
    ComesTo cfg store s (.call text signal) q ⟨[], some (emptyReport e 0)⟩
  | widened {l : Load} {e : Expansion} {graph : Graph} {rest : List (Nat × Job)}
    {statements : List Statement} {out : Outcome}
    (hagenda : s.agenda = (0, .resume l.id (.ok graph)) :: rest) (hl : l ∈ s.loads)
    (he : l.query.expansion = some e)
    (hjournal : (step cfg store s .tick).journal = s.journal ++ statements.map ranEntry)
    (hwidened : Widened store l.base e graph s.asked statements out) :
    ComesTo cfg store s .tick l.query out

/-! ## What is kept and told -/

/-- The outcome is vouched for as that of the text. -/
def Suited (P : Query → Outcome → Prop) (text : Text) (out : Outcome) : Prop :=
  ∀ q, readQuery text = .ok q → P q out

/-- The outcome that the job tells is vouched for. -/
def Job.Vouched (P : Query → Outcome → Prop) (s : State) : Job → Prop
  | .subscribe _ | .settleGraph .. | .deliverGraph .. | .resume .. => True
  | .settle id outcome => ∃ l ∈ s.loads, l.id = id ∧ ∀ out, outcome = .ok out → P l.query out
  | .deliver i outcome | .finish i outcome =>
    ∃ c, s.calls[i]? = some c ∧ ∀ out, outcome = .ok out → Suited P c.text out

/-- Every outcome that the engine keeps, tells or has told is vouched for. -/
structure Vouched (P : Query → Outcome → Prop) (s : State) : Prop where
  results : ∀ text out, s.queries.store.Holds text out → Suited P text out
  ended : ∀ l ∈ s.loads, ∀ out, l.ended = some (.ok out) → P l.query out
  settled : ∀ (i : Nat) (c : Call), s.calls[i]? = some c → ∀ result, c.settled = some (.ok result) →
    Suited P c.text result.outcome
  jobs : ∀ j, s.Pending j → j.Vouched P s

theorem suited_of_reads (hquery : readQuery text = .ok q) (h : P q out) : Suited P text out := by
  intro q' hquery'
  obtain rfl := Except.ok.inj (hquery.symm.trans hquery')
  exact h

theorem Job.Vouched.retained (h : job.Vouched P s) (hs : Retains s s') : job.Vouched P s' := by
  have hcall : ∀ i outcome, (Job.finish i outcome).Vouched P s →
      (Job.finish i outcome).Vouched P s' := by
    rintro i outcome ⟨c, hc, hsuited⟩
    obtain ⟨c', hc', htext⟩ := hs.calls i c hc
    exact ⟨c', hc', fun out hout => htext ▸ hsuited out hout⟩
  cases job with
  | subscribe call | settleGraph g graph | deliverGraph id graph | resume id graph => trivial
  | settle id outcome =>
    obtain ⟨l, hl, hid, hvouched⟩ := h
    obtain ⟨l', hl', hid', hquery, -⟩ := hs.loads l hl
    exact ⟨l', hl', hid'.trans hid, fun out hout => hquery ▸ hvouched out hout⟩
  | deliver i outcome => exact hcall i outcome h
  | finish i outcome => exact hcall i outcome h

/-- The job with which a load ends tells what the load came to. -/
theorem endJob_vouched (hl : l ∈ s.loads)
    (hown : ∀ i signal, l.control = .own i signal →
      ∃ c, s.calls[i]? = some c ∧ readQuery c.text = .ok l.query)
    (hvouched : ∀ out, outcome = .ok out → P l.query out) : (endJob l outcome).Vouched P s := by
  unfold endJob
  split
  · exact ⟨l, hl, rfl, hvouched⟩
  · rename_i call signal hcontrol
    obtain ⟨c, hc, hquery⟩ := hown call signal hcontrol
    exact ⟨c, hc, fun out hout => suited_of_reads hquery (hvouched out hout)⟩

namespace Vouched

/-! ## Nothing comes up -/

theorem subsides (h : Vouched P s) (hs : Subsides s s') : Vouched P s' where
  results := fun text out hholds => h.results text out (hs.queries.holds _ _ hholds)
  ended := by
    obtain ⟨change, hchange, hchanged⟩ := hs.loads
    intro l' hl' out hended
    rw [hchanged] at hl'
    obtain ⟨l, hl, rfl⟩ := List.mem_map.mp hl'
    rw [(hchange l).query]
    exact h.ended l hl out ((hchange l).ended ▸ hended)
  settled := by
    intro i c' hc' result hresult
    obtain ⟨c, hc, hsame⟩ := hs.calls i c' hc'
    rw [hsame.text]
    exact h.settled i c hc result (hsame.settled result hresult)
  jobs := by
    rw [pending_congr hs.agenda]
    exact fun j hj => (h.jobs j hj).retained (.subsides hs)

theorem frame (h : Vouched P s) (hframe : Frame s s') (hjournal : s'.journal = s.journal)
    (hasked : s'.asked = s.asked) (hstarted : s'.graphs.started = s.graphs.started) :
    Vouched P s' :=
  h.subsides (.of_frame hframe hjournal hasked hstarted)

theorem setAgenda (h : Vouched P s) (agenda : List (Nat × Job))
    (hjobs : ∀ p ∈ agenda, s.Pending p.2 ∨ p.2.Vouched P s) :
    Vouched P { s with agenda := agenda } :=
  { h with
    jobs := by
      rintro j ⟨turns, hj⟩
      exact (hjobs _ hj).elim (h.jobs j) fun hvouched => hvouched }

theorem scheduleAll (h : Vouched P s) (items : List (Nat × Job))
    (hjobs : ∀ p ∈ items, p.2.Vouched P s) :
    Vouched P { s with agenda := s.agenda ++ items } := by
  apply h.setAgenda
  intro p hp
  obtain hold | hnew := List.mem_append.mp hp
  · exact .inl ⟨p.1, hold⟩
  · exact .inr (hjobs p hnew)

theorem schedule (h : Vouched P s) (turns : Nat) (job : Job) (hjob : job.Vouched P s) :
    Vouched P (s.schedule turns job) :=
  h.scheduleAll [(turns, job)] (List.forall_mem_singleton.mpr hjob)

/-- A load changes, and has ended with nothing else than what is vouched for. -/
theorem modifyLoad (h : Vouched P s) (id : Nat) {change : Load → Load}
    (hsame : ∀ l, (change l).id = l.id ∧ (change l).query = l.query)
    (hbase : ∀ l ∈ s.loads, l.id = id → l.base ≠ [] → (change l).base ≠ [])
    (hended : ∀ l ∈ s.loads, l.id = id → ∀ out, (change l).ended = some (.ok out) →
      P l.query out) :
    Vouched P (s.modifyLoad id change) :=
  { h with
    ended := by
      intro l' hl' out hout
      obtain ⟨l, hl, rfl⟩ := List.mem_map.mp hl'
      by_cases hid : l.id = id
      · rw [if_pos hid] at hout ⊢
        rw [(hsame l).2]
        exact hended l hl hid out hout
      · rw [if_neg hid] at hout ⊢
        exact h.ended l hl out hout
    jobs := fun j hj => (h.jobs j hj).retained (.modifyLoad hsame hbase) }

/-- A call changes, and has got nothing else than what is vouched for. -/
theorem modifyCall (h : Vouched P s) (i : Nat) {change : Call → Call}
    (htext : ∀ c, (change c).text = c.text)
    (hsettled : ∀ c, s.calls[i]? = some c → ∀ result, (change c).settled = some (.ok result) →
      Suited P c.text result.outcome) :
    Vouched P (s.modifyCall i change) :=
  { h with
    settled := by
      intro k c' hc' result hresult
      obtain ⟨c, hc, ⟨rfl, rfl⟩ | ⟨-, rfl⟩⟩ := getElem?_modify_cases hc'
      · rw [htext]
        exact hsettled c hc result hresult
      · exact h.settled k c' hc result hresult
    jobs := fun j hj => (h.jobs j hj).retained (.modifyCall fun c _ => htext c) }

/-! ## Turns -/

theorem subscribe (h : Vouched P s) (ht : Traced store m s)
    (hs : Performed cfg store s (.subscribe i) s') : Vouched P s' := by
  cases hs with
  | unserved => exact h
  | @toldLate _ c l outcome hc hload hl hended =>
    -- the load is the one that the call was made for
    obtain ⟨hquery, -⟩ := ht.suits_of_load hc hload l hl rfl
    refine h.schedule 1 _ ⟨c, hc, fun out hout => suited_of_reads hquery ?_⟩
    exact h.ended l hl out (hout ▸ hended)
  | subscribed =>
    exact h.modifyLoad _ (fun _ => ⟨rfl, rfl⟩) (fun _ _ _ => id) fun l hl _ => h.ended l hl

theorem deliver (h : Vouched P s) (hjob : (Job.deliver i outcome).Vouched P s)
    (hs : Performed cfg store s (.deliver i outcome) s') : Vouched P s' := by
  cases hs with
  | deliveredLate => exact h
  | delivered =>
    have hdeaf : Vouched P (s.modifyCall i fun c => { c with listening := false }) :=
      h.modifyCall i (fun _ => rfl) fun c hc => h.settled i c hc
    have hfinish : (Job.finish i outcome).Vouched P s := hjob
    exact hdeaf.schedule 1 _ (hfinish.retained (.modifyCall fun _ _ => rfl))

theorem logResult (h : Vouched P s) (result : Except Rejection Result) :
    Vouched P (logResult cfg s result) := by
  unfold Engine.logResult
  split
  · exact h.frame (frame_notes s _ _ _) rfl rfl rfl
  · exact h.frame (frame_notes s _ _ _) rfl rfl rfl
  · exact h

theorem finish (h : Vouched P s) (hjob : (Job.finish i outcome).Vouched P s)
    (hs : Performed cfg store s (.finish i outcome) s') : Vouched P s' := by
  obtain ⟨c, hc, hsuited⟩ := hjob
  cases hs with
  | finishedLate => exact h
  | finished _ hc₀ =>
    obtain rfl := Option.some.inj (hc.symm.trans hc₀)
    have hsettled : Vouched P (s.settleCall i (resultOf s c outcome)) := by
      refine h.modifyCall i (fun _ => rfl) fun c' hc' result hresult => ?_
      obtain rfl : c = c' := Option.some.inj (hc.symm.trans hc')
      exact hsuited result.outcome (Traced.resultOf_eq_ok (Option.some.inj hresult)).1
    exact hsettled.logResult _

theorem settle (h : Vouched P s) (ht : Traced store m s)
    (hjob : (Job.settle id outcome).Vouched P s)
    (hs : Performed cfg store s (.settle id outcome) s') : Vouched P s' := by
  obtain ⟨l, hl, rfl, hvouched⟩ := hjob
  have hkept : Vouched P { s with queries := s.queries.settle l.id outcome.toOption s.now } :=
    { h with
      results := by
        intro text out hholds
        obtain ⟨hvalue, f, hf, hid, rfl, hattached⟩ | hold := ReadThrough.holds_settle hholds
        · -- what is kept now is kept for the text of the load
          obtain ⟨l', hl', hid', hquery, -⟩ := ht.joinable f hf hattached
          obtain rfl := ht.eq_of_id hl hl' (hid'.trans hid)
          cases outcome with
          | error e => exact nomatch hvalue
          | ok out' =>
            obtain rfl : out' = out := Option.some.inj hvalue
            exact suited_of_reads hquery (hvouched out' rfl)
        · exact h.results text out hold }
  have hended : Vouched P
      ({ s with queries := s.queries.settle l.id outcome.toOption s.now }.modifyLoad l.id
        fun l => { l with ended := some outcome }) := by
    refine hkept.modifyLoad l.id (fun _ => ⟨rfl, rfl⟩) (fun _ _ _ => id) fun l' hl' hid out hout => ?_
    obtain rfl := ht.eq_of_id hl hl' hid
    exact hvouched out (Option.some.inj hout)
  cases hs with
  | settled =>
    rw [load?_eq_some ht.distinct hl]
    apply hended.scheduleAll
    intro p hp
    obtain ⟨i, hi, rfl⟩ := List.mem_map.mp hp
    obtain ⟨c, hc, hquery, -⟩ := (ht.loads l hl).subscribers i hi
    -- whoever is told the outcome has called for the query of the load
    have hfinish : ∃ c, s.calls[i]? = some c ∧ ∀ out, outcome = .ok out → Suited P c.text out :=
      ⟨c, hc, fun out hout => suited_of_reads hquery (hvouched out hout)⟩
    unfold notice
    split <;> exact hfinish

/-- The graph has no part in it. -/
theorem setGraphs (h : Vouched P s) (graphs : ReadThrough Unit Graph)
    (hstarted : s.graphs.started ≤ graphs.started) (waiters : List (Nat × Nat)) :
    Vouched P { s with graphs := graphs, graphWaiters := waiters } :=
  ⟨h.results, h.ended, h.settled, fun j hj => (h.jobs j hj).retained (.of_same hstarted rfl rfl)⟩

theorem settleGraph (h : Vouched P s) {graph : Except LoadFailure Graph}
    (hs : Performed cfg store s (.settleGraph id graph) s') : Vouched P s' := by
  have hkept : Vouched P { s with graphs := s.graphs.settle id graph.toOption s.now } :=
    h.setGraphs _ (Nat.le_of_eq ReadThrough.settle_started.symm) s.graphWaiters
  cases hs with
  | settledGraph =>
    apply hkept.scheduleAll
    intro p hp
    obtain ⟨w, -, rfl⟩ := List.mem_map.mp hp
    trivial

theorem setGraphLoad (h : Vouched P s) (id : Nat) (graphLoad : Option Nat)
    (waiters : List (Nat × Nat)) :
    Vouched P { s.modifyLoad id fun l => { l with graphLoad := graphLoad } with
      graphWaiters := waiters } := by
  have hwaits : Vouched P (s.modifyLoad id fun l => { l with graphLoad := graphLoad }) :=
    h.modifyLoad id (fun _ => ⟨rfl, rfl⟩) (fun _ _ _ hsome => hsome) fun l hl _ => h.ended l hl
  exact hwaits.setGraphs _ (Nat.le_refl _) waiters

theorem deliverGraph (h : Vouched P s) {graph : Except LoadFailure Graph}
    (hs : Performed cfg store s (.deliverGraph id graph) s') : Vouched P s' := by
  cases hs with
  | unawaited => exact h
  | deliveredGraph =>
    have hfree := h.setGraphLoad id none (s.graphWaiters.filter fun w => w.2 != id)
    exact hfree.schedule 1 _ trivial

/-- A load that goes on passes on nothing but what it comes to. -/
theorem resume (h : Vouched P s) (ht : Traced store m s) {graph : Except LoadFailure Graph}
    (hjob : (Job.resume id graph).Traced m (s.drawn store m.statements) s)
    (hplain : ∀ q out, q.expansion = none → P q out)
    (hcomes : ∀ l ∈ s.loads, l.id = id → ∀ e found statements out, l.query.expansion = some e →
      graph = .ok found → s'.journal = s.journal ++ statements.map ranEntry →
      Widened store l.base e found s.asked statements out → P l.query out)
    (hs : Performed cfg store s (.resume id graph) s') : Vouched P s' := by
  obtain ⟨l, hl, rfl, -⟩ := hjob
  have hconclude {s' : State} (h' : Vouched P s') (hs : Retains s s')
      {outcome : Except LoadFailure Outcome} (hvouched : ∀ out, outcome = .ok out → P l.query out) :
      Vouched P (conclude s' l outcome) := by
    obtain ⟨turns, hconclude⟩ := conclude_eq s' l outcome
    rw [hconclude]
    refine h'.schedule turns _ (Job.Vouched.retained ?_ hs)
    refine endJob_vouched hl (fun i signal hown => ?_) hvouched
    obtain ⟨c, hc, hquery, -⟩ := (ht.loads l hl).own i signal hown
    exact ⟨c, hc, hquery⟩
  have hnow : Retains s s := .of_same (Nat.le_refl _) rfl rfl
  have hload := load?_eq_some ht.distinct hl
  cases hs with
  | unknown => exact h
  | graphless e hfound =>
    obtain rfl := Option.some.inj (hload.symm.trans hfound)
    exact hconclude h hnow fun _ hout => nomatch hout
  | plain found hfound hexpansion =>
    obtain rfl := Option.some.inj (hload.symm.trans hfound)
    exact hconclude h hnow fun out _ => hplain _ out hexpansion
  | @expanded _ _ e found hfound hexpansion =>
    -- the expansion asks the store for the issues that it finds
    obtain rfl := Option.some.inj (hload.symm.trans hfound)
    have hprovides : Provides store (expand cfg store l.id l.base e found) _ :=
      provides_expand cfg l.base e found
    obtain ⟨hsubsides, -⟩ := hprovides s ht.recorded
    refine hconclude (h.subsides hsubsides) (.subsides hsubsides) fun out hout => ?_
    have htakes : Takes (expand cfg store l.id l.base e found) (Widened store l.base e found) :=
      takes_expand cfg l.base e found
    obtain ⟨-, statements, hjournal, hwidened⟩ :=
      htakes s _ out ht.recorded (Prod.ext hout rfl)
    refine hcomes l hl rfl e found statements out hexpansion rfl ?_ hwidened
    obtain ⟨turns, hconclude⟩ := conclude_eq (expand cfg store l.id l.base e found s).2 l
      (expand cfg store l.id l.base e found s).1
    rw [hconclude]
    exact hjournal

theorem perform (h : Vouched P s) (ht : Traced store m s)
    (hjob : job.Traced m (s.drawn store m.statements) s) (hvouched : job.Vouched P s)
    (hidle : ∀ id graph, job ≠ .resume id graph) (hs : Performed cfg store s job s') :
    Vouched P s' := by
  cases job with
  | subscribe call => exact h.subscribe ht hs
  | settle load outcome => exact h.settle ht hvouched hs
  | settleGraph graphLoad graph => exact h.settleGraph hs
  | deliverGraph load graph => exact h.deliverGraph hs
  | resume load graph => exact absurd rfl (hidle load graph)
  | deliver call outcome => exact h.deliver hvouched hs
  | finish call outcome => exact h.finish hvouched hs

theorem tick (h : Vouched P s) (ht : Traced store m s)
    (hplain : ∀ q out, q.expansion = none → P q out)
    (hcomes : ∀ q out, ComesTo cfg store s .tick q out → P q out) :
    Vouched P (tick cfg store s) := by
  have hs := ticked cfg store s
  generalize hticked : Engine.tick cfg store s = s' at hs ⊢
  cases hs with
  | idle => exact h
  | @due job rest _ hagenda hs =>
    have hfirst : s.Pending job := pending_head hagenda
    have hrest := pending_of_mem_tail hagenda
    have ht' : Traced store m { s with agenda := rest } :=
      ht.setAgenda rest fun p hp => .inl (hrest p hp)
    have h' : Vouched P { s with agenda := rest } := h.setAgenda rest fun p hp => .inl (hrest p hp)
    -- only a load that goes on gives anything new, and what it gives is what the tick comes to
    by_cases hidle : ∀ id graph, job ≠ .resume id graph
    · exact h'.perform ht' (ht.jobs job hfirst) (h.jobs job hfirst) hidle hs
    · simp only [not_forall, not_not] at hidle
      obtain ⟨load, graph, rfl⟩ := hidle
      refine h'.resume ht' (ht.jobs _ hfirst) hplain ?_ hs
      rintro l hl rfl e found statements out hexpansion rfl hjournal hwidened
      refine hcomes l.query out (.widened hagenda hl hexpansion ?_ hwidened)
      show (Engine.tick cfg store s).journal = _
      rw [hticked]
      exact hjournal
  | putOff hagenda =>
    exact h.setAgenda _ fun p hp => .inl (pending_putOff hagenda ▸ ⟨p.1, hp⟩)

/-! ## Loads start -/

/-- A load is added that has not ended. -/
theorem addLoad (h : Vouched P s) (hended : l.ended = none) :
    Vouched P { s with loads := s.loads ++ [l] } :=
  { h with
    ended := by
      intro l' hl' out hout
      obtain hold | hlast := List.mem_append.mp hl'
      · exact h.ended l' hold out hout
      · obtain rfl := List.mem_singleton.mp hlast
        rw [hended] at hout
        exact nomatch hout
    jobs := fun j hj => (h.jobs j hj).retained (.addLoad s l) }

theorem awaitGraph (h : Vouched P s) (g load : Nat) : Vouched P (awaitGraph s g load) :=
  h.setGraphLoad load (some g) _

/-- What is fetched of the graph is not an outcome yet. -/
theorem fetchGraph (h : Vouched P s) (hrecorded : s.Recorded) :
    Vouched P (staged .graph (loadGraph store) s).2 := by
  have hprovides : Provides store (staged .graph (loadGraph store)) _ := provides_loadGraph
  exact h.subsides (hprovides s hrecorded).1

theorem requestGraph (h : Vouched P s) (hrecorded : s.Recorded) (load : Nat) :
    Vouched P (requestGraph cfg store s load) := by
  unfold Engine.requestGraph
  have hstored := ReadThrough.Subsides.stored s.graphs true () (some cfg.ttl) s.now
  obtain ⟨found, -, hrequest⟩ | ⟨f, -, hrequest⟩ | ⟨-, hrequest⟩ :=
    ReadThrough.request_cases s.graphs true () (some cfg.ttl) s.now
  · rw [hrequest]
    exact (h.setGraphs _ (Nat.le_of_eq hstored.started.symm) s.graphWaiters).schedule 0 _ trivial
  · rw [hrequest]
    have hgraphs := hstored.trans (.join _ f.id)
    exact (h.setGraphs _ (Nat.le_of_eq hgraphs.started.symm) s.graphWaiters).awaitGraph f.id load
  · rw [hrequest]
    let graphs : ReadThrough Unit Graph :=
      { (s.graphs.stored true () (some cfg.ttl) s.now).2 with
        flights := s.graphs.flights ++ [⟨s.graphs.started, (), some cfg.ttl, 1, 0, true⟩]
        started := s.graphs.started + 1 }
    have hstarted : Vouched P { s with graphs := graphs } :=
      h.setGraphs graphs (Nat.le_succ _) s.graphWaiters
    have hasked : Vouched P (staged .graph (loadGraph store) { s with graphs := graphs }).2 :=
      hstarted.fetchGraph hrecorded
    exact (hasked.schedule 0 (.settleGraph s.graphs.started _) trivial).awaitGraph _ load

theorem turnToGraph (h : Vouched P s) (hrecorded : s.Recorded) (l : Load) :
    Vouched P (turnToGraph cfg store s l) := by
  unfold Engine.turnToGraph
  split
  · exact h.schedule 0 _ trivial
  · split
    · exact h.requestGraph hrecorded l.id
    · exact (h.fetchGraph hrecorded).schedule 2 _ trivial

/-- A load that starts comes to an outcome if there is nothing to expand. -/
theorem startLoad (h : Vouched P s) (hstore : Unfailing store) (hrecorded : s.Recorded)
    (hended : l.ended = none)
    (hown : ∀ i signal, l.control = .own i signal →
      ∃ c, s.calls[i]? = some c ∧ readQuery c.text = .ok l.query)
    (hplain : ∀ q out, q.expansion = none → P q out)
    (hcomes : ∀ e statements, l.query.expansion = some e →
      (startLoad cfg store s l).journal = s.journal ++ statements.map ranEntry →
      Begun store l.query s.asked statements [] → P l.query ⟨[], some (emptyReport e 0)⟩) :
    Vouched P (startLoad cfg store s l) := by
  have hprovides : Provides store (fetchBase store l.id l.query) _ := provides_fetchBase l.query
  obtain ⟨hsubsides, -⟩ := hprovides { s with loads := s.loads ++ [l] } hrecorded
  have hrecorded' := hsubsides.recorded hrecorded
  have hfetched := (h.addLoad hended).subsides hsubsides
  obtain ⟨expanding, outcome, hends, hstart⟩ | ⟨base, e, hbase, hne, he, hstart⟩ :=
    startLoad_cases cfg store s l
  · obtain ⟨turns, hconclude⟩ := concludeEarly_eq
      (fetchBase store l.id l.query { s with loads := s.loads ++ [l] }).2 l expanding outcome
    have hvouched : ∀ out, outcome = .ok out → P l.query out := by
      intro out hout
      generalize hbase : (fetchBase store l.id l.query { s with loads := s.loads ++ [l] }).1 =
        fetched at hends
      cases hends with
      | failed e => exact nomatch hout
      | plain base he => exact hplain _ out he
      | empty e he =>
        -- without base issues there is nothing that the load could still ask for
        obtain rfl := Except.ok.inj hout
        obtain ⟨statements, hjournal, hbegun⟩ : ∃ statements,
            (Engine.startLoad cfg store s l).journal = s.journal ++ statements.map ranEntry ∧
              Begun store l.query s.asked statements [] := begun_startLoad hstore hrecorded hbase
        exact hcomes e statements he hjournal hbegun
    have hend : (endJob l outcome).Vouched P { s with loads := s.loads ++ [l] } :=
      endJob_vouched (List.mem_append_right _ (List.mem_singleton.mpr rfl)) hown hvouched
    rw [hstart, hconclude]
    exact hfetched.schedule turns _ (hend.retained (.subsides hsubsides))
  · have hbased : Vouched P
        ((fetchBase store l.id l.query { s with loads := s.loads ++ [l] }).2.modifyLoad l.id
          fun l => { l with base := base }) :=
      hfetched.modifyLoad l.id (fun _ => ⟨rfl, rfl⟩) (fun _ _ _ _ => hne)
        fun l' hl' _ => hfetched.ended l' hl'
    rw [hstart]
    exact hbased.turnToGraph hrecorded' l

/-! ## Calls and other events -/

/-- Nothing is kept that was not kept before. -/
theorem setQueries (h : Vouched P s) {queries : ReadThrough Text Outcome}
    (hholds : ∀ k v, queries.store.Holds k v → s.queries.store.Holds k v) (texts : List Text) :
    Vouched P { s with queries := queries, expanding := texts } :=
  ⟨fun text out hkept => h.results text out (hholds text out hkept), h.ended, h.settled,
    fun j hj => (h.jobs j hj).retained (.of_same (Nat.le_refl _) rfl rfl)⟩

/-- A call is made, and nothing is kept that was not kept before. -/
theorem made (h : Vouched P s) (text : Text) (signal : Option Text) (texts : List Text)
    (queries : ReadThrough Text Outcome)
    (hholds : ∀ k v, queries.store.Holds k v → s.queries.store.Holds k v) :
    Vouched P (s.made text signal texts queries) where
  results := fun text out hkept => h.results text out (hholds text out hkept)
  ended := h.ended
  settled := by
    intro i c hc result hresult
    obtain hold | ⟨-, rfl⟩ := getElem?_concat_cases hc
    · exact h.settled i c hold result hresult
    · exact nomatch hresult
  jobs := by
    have hretains : Retains s (s.made text signal texts queries) :=
      (Retains.addCall s _).trans (.of_same (Nat.le_refl _) rfl rfl)
    exact fun j hj => (h.jobs j hj).retained hretains

theorem join (h : Vouched P s) (call load : Nat) : Vouched P (join s call load) := by
  have hwaits (listening : Bool) : Vouched P (s.modifyCall call fun c =>
      { c with load := some load, listening := listening }) :=
    h.modifyCall call (fun _ => rfl) fun c hc => h.settled call c hc
  obtain hjoin | hjoin := join_cases s call load <;> rw [hjoin]
  · exact (hwaits _).modifyLoad load (fun _ => ⟨rfl, rfl⟩) (fun _ _ _ hsome => hsome)
      fun l hl _ => h.ended l hl
  · exact (hwaits _).schedule 0 _ trivial

theorem called (hcalled : Called cfg store s text signal s') (h : Vouched P s)
    (ht : Traced store m s) (hstore : Unfailing store)
    (hplain : ∀ q out, q.expansion = none → P q out)
    (hcomes : ∀ q e statements, readQuery text = .ok q → q.expansion = some e →
      s'.journal = s.journal ++ statements.map ranEntry → Begun store q s.asked statements [] →
      P q ⟨[], some (emptyReport e 0)⟩) : Vouched P s' := by
  cases hcalled with
  | rejected texts rejection lines hcause =>
    have hmade := h.made text signal texts s.queries fun _ _ => id
    have hsettled := hmade.subsides (subsides_settleCall _ s.calls.length rejection)
    exact ⟨hsettled.results, hsettled.ended, hsettled.settled, fun j hj =>
      (hsettled.jobs j hj).retained (.of_same (Nat.le_refl _) rfl rfl)⟩
  | kept texts queries out hon hqueries hholds =>
    refine (h.made text signal texts queries hqueries.holds).schedule 0 _ ?_
    refine ⟨_, List.getElem?_concat_length, fun out' hout' => ?_⟩
    -- what the cache gives was vouched for when it was kept
    obtain rfl := Except.ok.inj hout'
    exact h.results text out hholds
  | joined texts queries load hon hqueries =>
    exact (h.made text signal texts queries hqueries.holds).join s.calls.length load
  | shared texts queries q hon hquery hstarted hholds =>
    have hshared : ∀ i signal', Control.shared none = .own i signal' →
        ∃ c, (s.made text signal texts queries).calls[i]? = some c ∧ readQuery c.text = .ok q :=
      fun _ _ hown => nomatch hown
    refine Vouched.join (Vouched.startLoad (h.made text signal texts queries hholds) hstore
      ht.recorded rfl hshared hplain fun e statements he hjournal hbegun => ?_) _ _
    refine hcomes q e statements hquery he ?_ hbegun
    rw [join_journal]
    exact hjournal
  | own texts q hoff hquery hquiet =>
    refine Vouched.startLoad (h.made text signal texts _ fun _ _ => id) hstore ht.recorded rfl
      (fun i signal' hown => ?_) hplain fun e statements he hjournal hbegun =>
        hcomes q e statements hquery he hjournal hbegun
    obtain ⟨rfl, rfl⟩ := Control.own.inj hown
    exact ⟨_, List.getElem?_concat_length, hquery⟩

/-- What is kept and told stays vouched for, if what comes up in the event is. -/
theorem step (h : Vouched P s) (ht : Traced store m s) (hstore : Unfailing store) (event : Event)
    (hplain : ∀ q out, q.expansion = none → P q out)
    (hcomes : ∀ q out, ComesTo cfg store s event q out → P q out) :
    Vouched P (step cfg store s event) := by
  cases event with
  | call text signal =>
    refine (called (Engine.called cfg store s text signal)) h ht hstore hplain ?_
    exact fun q e statements hquery he hjournal hbegun =>
      hcomes q _ (.empty hquery he hjournal hbegun)
  | tick => exact h.tick ht hplain hcomes
  | abort signal reason => exact h.subsides (subsides_abort s signal reason)
  | invalidate =>
    have hforgotten := h.setQueries (ReadThrough.Subsides.invalidateAll s.queries).holds []
    exact hforgotten.setGraphs (s.graphs.invalidate ()) (Nat.le_refl _) s.graphWaiters
  | invalidateGraph =>
    have hforgotten := h.setQueries (subsides_invalidateEach s.queries s.expanding).holds []
    exact hforgotten.setGraphs (s.graphs.invalidate ()) (Nat.le_refl _) s.graphWaiters
  | advance span => exact h.frame (frame_advance s span) rfl rfl rfl
  | close => exact h.frame (frame_close s) rfl rfl rfl

end Vouched

/-- An engine that has done nothing yet tells nothing. -/
theorem vouched_new (P : Query → Outcome → Prop) (now : Time)
    (ttl interval ttl' interval' : Option Time) :
    Vouched P (.new now (.new now ttl interval) (.new now ttl' interval')) where
  results := fun _ _ hholds => absurd hholds TtlCache.not_holds_new
  ended := fun _ hl => nomatch hl
  settled := fun _ _ hc => nomatch hc
  jobs := fun _ ⟨_, hj⟩ => nomatch hj

end IssueQuery.Engine
