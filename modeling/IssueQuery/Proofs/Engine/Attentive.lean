import IssueQuery.Proofs.Engine.Aborts

/-!
# Engines that see to everybody

An engine that shares its loads is attentive if somebody sees to every call that has not got its
result and to every load that was not called off, and if nothing is told to such a call but an
outcome. Signals may abort at any time. What this relies on is that a load is not called off as long
as a call waits for it, whether its signal has aborted or not.

As with engines over a steady store, the jobs under way are a parameter of the statement, so that a
job in hand can be counted among them.

* `Attentive`      what holds of an engine and the jobs under way;
* `State.Follows`  what holds of any state and those that come after it;
* `Attentive.rejob`, `Attentive.transfer`, `Attentive.modifyCall`, `Attentive.modifyLoad`, …
  one lemma for each kind of change.
-/

namespace IssueQuery.Engine

variable {store : Store} {s s' : State} {l : Load} {c : Call} {j : Job} {i : Nat}

/-! ## Loads, calls and jobs in good order -/

/-- The work came to something, if the store does not fail. -/
def Succeeds {α : Type} (store : Store) (result : Except LoadFailure α) : Prop :=
  Unfailing store → result.isOk

theorem succeeds_ok {α : Type} (store : Store) (a : α) :
    Succeeds store (.ok a : Except LoadFailure α) := fun _ => rfl

/-- The load is shared, it did not fail unless the store fails or it was called off, and the calls that
it will tell wait for it. -/
structure Load.Orderly (store : Store) (s : State) (l : Load) : Prop where
  below : l.id < s.queries.started
  shared : ∃ aborted, l.control = .shared aborted
  ended : ∀ outcome, l.ended = some outcome → l.control = .shared none → Succeeds store outcome
  subscribers : ∀ i ∈ l.subscribers, ∃ c, s.calls[i]? = some c ∧ c.load = some l.id

/-- The load of the call is not called off before the call has its result, and the call listens
until the load has ended, unless its signal has aborted. -/
structure Call.Orderly (s : State) (c : Call) : Prop where
  loaded : ∀ id, c.load = some id →
    ∃ l ∈ s.loads, l.id = id ∧ (c.settled = none → l.control = .shared none)
  listens : c.listening = true → c.settled = none ∧ c.load.isSome
  hears : ∀ id, c.load = some id → c.settled = none → c.signal.isSome →
    s.reason? c.signal = none → c.listening = true ∨ ∃ l ∈ s.loads, l.id = id ∧ l.ended.isSome

/-- What the job tells is an outcome, unless it is told to a load that was called off or a call that
has its result. -/
def Job.Orderly (store : Store) (s : State) : Job → Prop
  | .subscribe i => ∃ c, s.calls[i]? = some c ∧ c.load.isSome
  | .settle id outcome =>
    ∃ l ∈ s.loads, l.id = id ∧ (l.control = .shared none → Succeeds store outcome)
  | .resume id graph => ∃ l ∈ s.loads, l.id = id ∧ (l.control = .shared none → Succeeds store graph)
  | .settleGraph _ graph | .deliverGraph _ graph => Succeeds store graph
  | .deliver i outcome =>
    ∃ c, s.calls[i]? = some c ∧ (c.settled = none → Succeeds store outcome) ∧
      ∃ l ∈ s.loads, c.load = some l.id ∧ l.ended.isSome
  | .finish i outcome => ∃ c, s.calls[i]? = some c ∧ (c.settled = none → Succeeds store outcome)

/-- The job brings a call to its result. -/
def Job.Brings (s : State) (i : Nat) : Job → Prop
  | .finish call _ | .deliver call _ | .subscribe call => call = i
  | .settle id _ => ∃ l ∈ s.loads, l.id = id ∧ i ∈ l.subscribers
  | .resume .. | .settleGraph .. | .deliverGraph .. => False

/-- The load of a flight has not ended, and if callers may join it, it was not called off. -/
def State.Carried (s : State) (f : Flight Text) : Prop :=
  ∃ l ∈ s.loads, l.id = f.id ∧ l.ended = none ∧ (f.attached = true → l.control = .shared none)

/-- Everybody who waits is seen to, and is told nothing but an outcome. -/
structure Attentive (store : Store) (s : State) (J : Job → Prop) : Prop where
  distinct : (s.loads.map Load.id).Nodup
  loads : ∀ l ∈ s.loads, l.Orderly store s
  calls : ∀ (i : Nat) (c : Call), s.calls[i]? = some c → c.Orderly s
  flights : ∀ f ∈ s.queries.flights, s.Carried f
  jobs : ∀ j, J j → j.Orderly store s
  served : ∀ (i : Nat) (c : Call), s.calls[i]? = some c → c.settled = none →
    (∃ j, J j ∧ j.Brings s i) ∨ s.Told i
  furthered : ∀ l ∈ s.loads, l.control = .shared none → l.ended = none →
    ∃ j, J j ∧ j.Furthers s l
  underWay : ∀ f ∈ s.graphs.flights, f.attached = true → ∃ graph, J (.settleGraph f.id graph)

/-! ## Later states -/

/-- The state comes after another one. A load is not called off while a call waits for it. -/
structure State.Follows (s s' : State) : Prop where
  started : s.queries.started ≤ s'.queries.started
  signals : ∀ signal, s'.reason? signal = none → s.reason? signal = none
  loads : ∀ l ∈ s.loads, ∃ l' ∈ s'.loads, l'.id = l.id ∧ l.subscribers ⊆ l'.subscribers ∧
    (l.ended.isSome → l'.ended.isSome) ∧ (l'.control = .shared none → l.control = .shared none) ∧
    ((∃ (i : Nat) (c : Call), s'.calls[i]? = some c ∧ c.settled = none ∧ c.load = some l.id) →
      l'.control = l.control)
  calls : ∀ (i : Nat) (c : Call), s.calls[i]? = some c → ∃ c', s'.calls[i]? = some c' ∧ c.Becomes c'

namespace State.Follows

theorem load (hs : s.Follows s') (hl : l.Orderly store s) : l.Orderly store s' where
  below := Nat.lt_of_lt_of_le hl.below hs.started
  shared := hl.shared
  ended := hl.ended
  subscribers := by
    intro i hi
    obtain ⟨c, hc, hload⟩ := hl.subscribers i hi
    obtain ⟨c', hc', hbecomes⟩ := hs.calls i c hc
    exact ⟨c', hc', hbecomes.load _ hload⟩

theorem call (hs : s.Follows s') (hc : c.Orderly s) (hi : s'.calls[i]? = some c) :
    c.Orderly s' where
  loaded := by
    intro id hid
    obtain ⟨l, hl, rfl, hon⟩ := hc.loaded id hid
    obtain ⟨l', hl', hid', -, -, -, hkept⟩ := hs.loads l hl
    refine ⟨l', hl', hid', fun hunsettled => ?_⟩
    rw [hkept ⟨i, c, hi, hunsettled, hid⟩]
    exact hon hunsettled
  listens := hc.listens
  hears := by
    intro id hid hunsettled hsignal hquiet
    obtain hlistens | ⟨l, hl, hlid, hended⟩ :=
      hc.hears id hid hunsettled hsignal (hs.signals _ hquiet)
    · exact .inl hlistens
    · obtain ⟨l', hl', hid', -, hended', -⟩ := hs.loads l hl
      exact .inr ⟨l', hl', hid'.trans hlid, hended' hended⟩

theorem job (hs : s.Follows s') (hj : j.Orderly store s) : j.Orderly store s' := by
  -- the jobs that speak of a load need it only while it is shared and not called off
  have hload : ∀ (id : Nat) (ok : Prop),
      (∃ l ∈ s.loads, l.id = id ∧ (l.control = .shared none → ok)) →
      ∃ l ∈ s'.loads, l.id = id ∧ (l.control = .shared none → ok) := by
    rintro id ok ⟨l, hl, hid, hok⟩
    obtain ⟨l', hl', hid', -, -, hon, -⟩ := hs.loads l hl
    exact ⟨l', hl', hid'.trans hid, fun hon' => hok (hon hon')⟩
  cases j with
  | subscribe i =>
    obtain ⟨c, hc, hsome⟩ := hj
    obtain ⟨id, hid⟩ := Option.isSome_iff_exists.mp hsome
    obtain ⟨c', hc', hbecomes⟩ := hs.calls i c hc
    exact ⟨c', hc', by rw [hbecomes.load id hid]; rfl⟩
  | settle id outcome => exact hload id _ hj
  | resume id graph => exact hload id _ hj
  | settleGraph g graph => exact hj
  | deliverGraph id graph => exact hj
  | deliver i outcome =>
    obtain ⟨c, hc, hok, l, hl, hid, hended⟩ := hj
    obtain ⟨c', hc', hbecomes⟩ := hs.calls i c hc
    obtain ⟨l', hl', hid', -, hended', -⟩ := hs.loads l hl
    refine ⟨c', hc', fun hnone => hok (hbecomes.settled hnone), l', hl', ?_, hended' hended⟩
    rw [hid']
    exact hbecomes.load _ hid
  | finish i outcome =>
    obtain ⟨c, hc, hok⟩ := hj
    obtain ⟨c', hc', hbecomes⟩ := hs.calls i c hc
    exact ⟨c', hc', fun hnone => hok (hbecomes.settled hnone)⟩

theorem brings (hs : s.Follows s') (hj : j.Brings s i) : j.Brings s' i := by
  cases j with
  | settle id outcome =>
    obtain ⟨l, hl, hid, hi⟩ := hj
    obtain ⟨l', hl', hid', hmore, -⟩ := hs.loads l hl
    exact ⟨l', hl', hid'.trans hid, hmore hi⟩
  | subscribe i | resume id graph | settleGraph g graph | deliverGraph id graph
  | deliver i outcome | finish i outcome => exact hj

/-- Loads and calls that do not change. -/
theorem of_same (hstarted : s.queries.started ≤ s'.queries.started)
    (hsignals : ∀ signal, s'.reason? signal = none → s.reason? signal = none)
    (hloads : ∀ l ∈ s.loads, l ∈ s'.loads)
    (hcalls : ∀ (i : Nat) (c : Call), s.calls[i]? = some c →
      ∃ c', s'.calls[i]? = some c' ∧ c.Becomes c') : s.Follows s' where
  started := hstarted
  signals := hsignals
  loads := fun l hl => ⟨l, hloads l hl, rfl, List.Subset.refl _, id, id, fun _ => rfl⟩
  calls := hcalls

end State.Follows

namespace Attentive

variable {J J' : Job → Prop} {job : Job} {number : Nat}

/-! ## Jobs -/

/-- Other jobs are under way, which take over from those that were. -/
theorem rejob (h : Attentive store s J) (hjobs : ∀ j, J' j → J j ∨ j.Orderly store s)
    (hserved : ∀ (i : Nat) (c : Call), s.calls[i]? = some c → c.settled = none → ∀ j, J j →
      j.Brings s i → (∃ j, J' j ∧ j.Brings s i) ∨ s.Told i)
    (hfurthered : ∀ l ∈ s.loads, l.control = .shared none → l.ended = none → ∀ j, J j →
      j.Furthers s l → ∃ j, J' j ∧ j.Furthers s l)
    (hunderWay : ∀ f ∈ s.graphs.flights, f.attached = true → ∀ graph, J (.settleGraph f.id graph) →
      ∃ graph, J' (.settleGraph f.id graph)) : Attentive store s J' :=
  { h with
    jobs := fun j hj => (hjobs j hj).elim (h.jobs j) id
    served := by
      intro i c hc hunsettled
      obtain ⟨j, hj, hbrings⟩ | htold := h.served i c hc hunsettled
      · exact hserved i c hc hunsettled j hj hbrings
      · exact .inr htold
    furthered := by
      intro l hl hon hended
      obtain ⟨j, hj, hfurthers⟩ := h.furthered l hl hon hended
      exact hfurthered l hl hon hended j hj hfurthers
    underWay := by
      intro f hf hattached
      obtain ⟨graph, hj⟩ := h.underWay f hf hattached
      exact hunderWay f hf hattached graph hj }

/-- More jobs are under way. -/
theorem also (h : Attentive store s J) (hmore : ∀ j, J j → J' j)
    (hnew : ∀ j, J' j → J j ∨ j.Orderly store s) : Attentive store s J' :=
  h.rejob hnew (fun _ _ _ _ j hj hbrings => .inl ⟨j, hmore j hj, hbrings⟩)
    (fun _ _ _ _ j hj hfurthers => ⟨j, hmore j hj, hfurthers⟩)
    fun _ _ _ graph hj => ⟨graph, hmore _ hj⟩

/-- The same jobs are under way. -/
theorem congr (h : Attentive store s J) (hsame : ∀ j, J' j ↔ J j) : Attentive store s J' :=
  h.also (fun j => (hsame j).mpr) fun j hj => .inl ((hsame j).mp hj)

/-- A job that is about to be done will leave new jobs behind. -/
theorem announce (h : Attentive store s fun j => j = job ∨ J j) (New : Job → Prop)
    (hnew : ∀ j, New j → j.Orderly store s) : Attentive store s fun j => j = job ∨ New j ∨ J j := by
  apply h.also
  · exact fun j hj => hj.imp_right .inr
  · rintro j (hj | hj | hj)
    · exact .inl (.inl hj)
    · exact .inr (hnew j hj)
    · exact .inl (.inr hj)

/-- A job is done that nobody depends on any more. -/
theorem done (h : Attentive store s fun j => j = job ∨ J j)
    (hserved : ∀ (i : Nat) (c : Call), s.calls[i]? = some c → c.settled = none → job.Brings s i →
      (∃ j, J j ∧ j.Brings s i) ∨ s.Told i)
    (hfurthered : ∀ l ∈ s.loads, l.control = .shared none → l.ended = none → job.Furthers s l →
      ∃ j, J j ∧ j.Furthers s l)
    (hunderWay : ∀ f ∈ s.graphs.flights, f.attached = true → ∀ graph,
      job = .settleGraph f.id graph → ∃ graph, J (.settleGraph f.id graph)) :
    Attentive store s J := by
  apply h.rejob
  · exact fun j hj => .inl (.inr hj)
  · rintro i c hc hunsettled j (rfl | hj) hbrings
    · exact hserved i c hc hunsettled hbrings
    · exact .inl ⟨j, hj, hbrings⟩
  · rintro l hl hon hended j (rfl | hj) hfurthers
    · exact hfurthered l hl hon hended hfurthers
    · exact ⟨j, hj, hfurthers⟩
  · rintro f hf hattached graph (hsame | hj)
    · exact hunderWay f hf hattached graph hsame.symm
    · exact ⟨graph, hj⟩

/-- A job is done that was to bring a call to its result. -/
theorem doneServing (h : Attentive store s fun j => j = job ∨ J j) (honly : job.onlyServes = true)
    (hserved : ∀ (i : Nat) (c : Call), s.calls[i]? = some c → c.settled = none → job.Brings s i →
      (∃ j, J j ∧ j.Brings s i) ∨ s.Told i) : Attentive store s J := by
  apply h.done hserved
  · exact fun l _ _ _ hfurthers => absurd hfurthers (Job.not_furthers honly)
  · rintro f _ _ graph rfl
    cases honly

/-- A job takes the place of another one. -/
theorem replace (h : Attentive store s fun j => j = job ∨ J j) (new : Job)
    (hnew : new.Orderly store s)
    (hserved : ∀ i, job.Brings s i → new.Brings s i)
    (hfurthered : ∀ l ∈ s.loads, job.Furthers s l → new.Furthers s l)
    (hother : job.settlesGraph = false) : Attentive store s fun j => j = new ∨ J j := by
  apply h.rejob
  · rintro j (rfl | hj)
    · exact .inr hnew
    · exact .inl (.inr hj)
  · rintro i _ _ _ j (rfl | hj) hbrings
    · exact .inl ⟨new, .inl rfl, hserved i hbrings⟩
    · exact .inl ⟨j, .inr hj, hbrings⟩
  · rintro l hl _ _ j (rfl | hj) hfurthers
    · exact ⟨new, .inl rfl, hfurthered l hl hfurthers⟩
    · exact ⟨j, .inr hj, hfurthers⟩
  · rintro f _ _ graph (rfl | hj)
    · cases hother
    · exact ⟨graph, .inr hj⟩

/-- A job under way is put on the agenda, and others stay under way. -/
theorem schedule (h : Attentive store s fun j => j = job ∨ J j ∨ s.Pending j) (turns : Nat) :
    Attentive store (s.schedule turns job) fun j => J j ∨ (s.schedule turns job).Pending j := by
  have hscheduled : Attentive store (s.schedule turns job) fun j => j = job ∨ J j ∨ s.Pending j :=
    { h with
      loads := fun l hl => ⟨(h.loads l hl).below, (h.loads l hl).shared, (h.loads l hl).ended,
        (h.loads l hl).subscribers⟩
      calls := fun i c hc => ⟨(h.calls i c hc).loaded, (h.calls i c hc).listens,
        (h.calls i c hc).hears⟩ }
  apply hscheduled.congr
  intro j
  have hpending : (s.schedule turns job).Pending j ↔ j = job ∨ s.Pending j :=
    pending_schedule turns
  rw [hpending]
  exact or_left_comm

/-! ## Caches, signals and the clock -/

/-- Neither the loads nor the calls change. -/
theorem transfer (h : Attentive store s J) (hloads : s'.loads = s.loads)
    (hcalls : s'.calls = s.calls)
    (hwaiters : s'.graphWaiters = s.graphWaiters)
    (hsignals : ∀ signal, s'.reason? signal = none → s.reason? signal = none)
    (hstarted : s.queries.started ≤ s'.queries.started)
    (hflights : ∀ f ∈ s'.queries.flights, s.Carried f)
    (hunderWay : ∀ f ∈ s'.graphs.flights, f.attached = true →
      ∃ graph, J (.settleGraph f.id graph)) : Attentive store s' J := by
  have hs : s.Follows s' := by
    apply State.Follows.of_same hstarted hsignals
    · exact fun l hl => hloads ▸ hl
    · exact fun i c hc => ⟨c, hcalls ▸ hc, Call.Becomes.refl c⟩
  exact
    { distinct := hloads ▸ h.distinct
      loads := fun l hl => hs.load (h.loads l (hloads ▸ hl))
      calls := fun i c hc => hs.call (h.calls i c (hcalls ▸ hc)) hc
      flights := by
        intro f hf
        rw [State.Carried, hloads]
        exact hflights f hf
      jobs := fun j hj => hs.job (h.jobs j hj)
      served := by
        intro i c hc hunsettled
        obtain ⟨j, hj, hbrings⟩ | ⟨l, hl, htold⟩ := h.served i c (hcalls ▸ hc) hunsettled
        · exact .inl ⟨j, hj, hs.brings hbrings⟩
        · exact .inr ⟨l, hloads ▸ hl, htold⟩
      furthered := by
        intro l hl hon hended
        obtain ⟨j, hj, hfurthers⟩ := h.furthered l (hloads ▸ hl) hon hended
        exact ⟨j, hj, hfurthers.mono rfl rfl fun g hg => hwaiters ▸ hg⟩
      underWay := hunderWay }

/-- Only the log, the clock, the agenda and the like change. -/
theorem notes (h : Attentive store s J) (hloads : s'.loads = s.loads) (hcalls : s'.calls = s.calls)
    (hwaiters : s'.graphWaiters = s.graphWaiters) (hsignals : s'.signals = s.signals)
    (hstarted : s'.queries.started = s.queries.started)
    (hflights : s'.queries.flights = s.queries.flights)
    (hgraphs : s'.graphs.flights = s.graphs.flights) : Attentive store s' J := by
  apply h.transfer hloads hcalls hwaiters
  · intro signal hquiet
    rwa [State.reason?, hsignals] at hquiet
  · exact Nat.le_of_eq hstarted.symm
  · exact fun f hf => h.flights f (hflights ▸ hf)
  · exact fun f hf => h.underWay f (hgraphs ▸ hf)

/-- The cache of results changes. -/
theorem setQueries (h : Attentive store s J) (queries : ReadThrough Text Outcome)
    (hstarted : s.queries.started ≤ queries.started)
    (hflights : ∀ f ∈ queries.flights, s.Carried f) :
    Attentive store { s with queries := queries } J :=
  h.transfer rfl rfl rfl (fun _ => id) hstarted hflights h.underWay

/-- The cache of the graph changes. -/
theorem setGraphs (h : Attentive store s J) (graphs : ReadThrough Unit Graph)
    (hunderWay : ∀ f ∈ graphs.flights, f.attached = true →
      ∃ graph, J (.settleGraph f.id graph)) : Attentive store { s with graphs := graphs } J :=
  h.transfer rfl rfl rfl (fun _ => id) (Nat.le_refl _) h.flights hunderWay

/-- A signal aborts, and nobody has been turned away yet. -/
theorem signal (h : Attentive store s J) (signal reason : Text) :
    Attentive store { s with signals := s.signals ++ [(signal, reason)] } J := by
  refine h.transfer rfl rfl rfl ?_ (Nat.le_refl _) h.flights h.underWay
  intro name hquiet
  cases hreason : s.reason? name with
  | none => rfl
  | some reason' =>
    rw [reason?_append hreason] at hquiet
    exact nomatch hquiet

/-! ## Calls -/

/-- A call changes, and stays what it is for. -/
theorem modifyCall (h : Attentive store s J) {change : Call → Call}
    (hchange : ∀ c, s.calls[number]? = some c →
      c.Becomes (change c) ∧ (change c).Orderly s) :
    Attentive store (s.modifyCall number change) J := by
  -- every call comes from a call at the same place, the one that changed or not
  have hcalls : ∀ (i : Nat) (c' : Call), (s.modifyCall number change).calls[i]? = some c' →
      ∃ c, s.calls[i]? = some c ∧ c.Becomes c' ∧ c'.Orderly s := by
    intro i c' hc'
    obtain ⟨c, hc, ⟨rfl, rfl⟩ | ⟨-, rfl⟩⟩ := getElem?_modify_cases hc'
    · exact ⟨c, hc, hchange c hc⟩
    · exact ⟨c', hc, Call.Becomes.refl c', h.calls i c' hc⟩
  have hs : s.Follows (s.modifyCall number change) := by
    refine State.Follows.of_same (Nat.le_refl _) (fun _ => id) (fun _ => id) ?_
    intro i c hc
    obtain ⟨c', hc', ⟨rfl, rfl⟩ | ⟨-, rfl⟩⟩ := exists_getElem?_modify hc number change
    · exact ⟨_, hc', (hchange c hc).1⟩
    · exact ⟨c', hc', Call.Becomes.refl c'⟩
  exact
    { distinct := h.distinct
      loads := fun l hl => hs.load (h.loads l hl)
      calls := by
        intro i c' hc'
        obtain ⟨c, -, -, horderly⟩ := hcalls i c' hc'
        exact hs.call horderly hc'
      flights := h.flights
      jobs := fun j hj => hs.job (h.jobs j hj)
      served := by
        intro i c' hc' hunsettled
        obtain ⟨c, hc, hbecomes, -⟩ := hcalls i c' hc'
        obtain ⟨j, hj, hbrings⟩ | htold := h.served i c hc (hbecomes.settled hunsettled)
        · exact .inl ⟨j, hj, hs.brings hbrings⟩
        · exact .inr htold
      furthered := h.furthered
      underWay := h.underWay }

/-- A call gets its result. -/
theorem settleCall (h : Attentive store s J) (number : Nat) (result : Except Rejection Result) :
    Attentive store (s.settleCall number result) J := by
  apply h.modifyCall
  intro c hc
  constructor
  · exact ⟨rfl, rfl, fun _ => id, fun hnone => nomatch hnone⟩
  · constructor
    · intro id hid
      obtain ⟨l, hl, hlid, -⟩ := (h.calls number c hc).loaded id hid
      exact ⟨l, hl, hlid, fun hnone => nomatch hnone⟩
    · exact fun hlistens => nomatch hlistens
    · exact fun _ _ hnone => nomatch hnone

/-- A call is made that has no load. If it has not got its result, a job brings it there. -/
theorem addCall (h : Attentive store s J) (hfree : c.load = none) (hdeaf : c.listening = false)
    (hmore : ∀ j, J j → J' j)
    (hnew : ∀ j, J' j → J j ∨ j.Orderly store { s with calls := s.calls ++ [c] })
    (hserved : c.settled = none → ∃ outcome, J' (.finish s.calls.length outcome)) :
    Attentive store { s with calls := s.calls ++ [c] } J' := by
  have hs : s.Follows { s with calls := s.calls ++ [c] } := by
    refine State.Follows.of_same (Nat.le_refl _) (fun _ => id) (fun _ => id) ?_
    exact fun i c' hc' => ⟨c', getElem?_concat hc' c, Call.Becomes.refl c'⟩
  -- the new call has no load yet and does not listen, so nothing is to be shown of it
  have horderly : c.Orderly s := by
    constructor
    · intro id hid
      rw [hfree] at hid
      exact nomatch hid
    · intro hlistens
      rw [hdeaf] at hlistens
      exact nomatch hlistens
    · intro id hid
      rw [hfree] at hid
      exact nomatch hid
  exact
    { distinct := h.distinct
      loads := fun l hl => hs.load (h.loads l hl)
      calls := by
        intro i c' hc'
        obtain hold | ⟨rfl, rfl⟩ := getElem?_concat_cases hc'
        · exact hs.call (h.calls i c' hold) hc'
        · exact hs.call horderly hc'
      flights := h.flights
      jobs := fun j hj => (hnew j hj).elim (fun hold => hs.job (h.jobs j hold)) id
      served := by
        intro i c' hc' hunsettled
        obtain hold | ⟨rfl, rfl⟩ := getElem?_concat_cases hc'
        · obtain ⟨j, hj, hbrings⟩ | htold := h.served i c' hold hunsettled
          · exact .inl ⟨j, hmore j hj, hs.brings hbrings⟩
          · exact .inr htold
        · -- only the new call needs the job that is promised for it
          obtain ⟨outcome, hj⟩ := hserved hunsettled
          exact .inl ⟨_, hj, rfl⟩
      furthered := by
        intro l hl hon hended
        obtain ⟨j, hj, hfurthers⟩ := h.furthered l hl hon hended
        exact ⟨j, hmore j hj, hfurthers.mono rfl rfl fun _ => id⟩
      underWay := by
        intro f hf hattached
        obtain ⟨graph, hj⟩ := h.underWay f hf hattached
        exact ⟨graph, hmore _ hj⟩ }

/-! ## Loads -/

/-- A load changes, and stays what it is for. Whoever waits for it to end, or to be told by it, is
seen to by a job if not by the load as it is now. -/
theorem modifyLoad (h : Attentive store s J) (hl : l ∈ s.loads) {change : Load → Load}
    (waiters : List (Nat × Nat)) (hid : (change l).id = l.id)
    (horderly : (change l).Orderly store s) (hmore : l.subscribers ⊆ (change l).subscribers)
    (hended : l.ended.isSome → (change l).ended.isSome)
    (hon : (change l).control = .shared none → l.control = .shared none)
    (hawaited : (∃ (i : Nat) (c : Call), s.calls[i]? = some c ∧ c.settled = none ∧
      c.load = some l.id) → (change l).control = l.control)
    (hcarried : ∀ f ∈ s.queries.flights, f.id = l.id →
      (change l).ended = none ∧ (f.attached = true → (change l).control = .shared none))
    (htold : ∀ i ∈ l.subscribers, l.ended = none →
      (∃ j, J j ∧ j.Brings s i) ∨ (change l).ended = none)
    (hfurthered : (change l).control = .shared none → (change l).ended = none →
      ∃ j, J j ∧ j.Furthers { s with graphWaiters := waiters } (change l))
    (hwaiters : ∀ w ∈ s.graphWaiters, w.2 ≠ l.id → w ∈ waiters) :
    Attentive store { s.modifyLoad l.id change with graphWaiters := waiters } J := by
  have hchanged : change l ∈ (s.modifyLoad l.id change).loads :=
    List.mem_map.mpr ⟨l, hl, if_pos rfl⟩
  have hothers : ∀ l' ∈ s.loads, l'.id ≠ l.id → l' ∈ (s.modifyLoad l.id change).loads :=
    fun l' hl' hid => List.mem_map.mpr ⟨l', hl', if_neg hid⟩
  -- numbers are distinct, so the load that changes is no other one
  have hsame : ∀ l' ∈ s.loads, l'.id = l.id → l' = l := fun l' hl' hid' =>
    List.inj_on_of_nodup_map h.distinct hl' hl hid'
  have hs : s.Follows { s.modifyLoad l.id change with graphWaiters := waiters } :=
    { started := Nat.le_refl _
      signals := fun _ => id
      loads := by
        intro l' hl'
        by_cases hid' : l'.id = l.id
        · obtain rfl := hsame l' hl' hid'
          exact ⟨change l', hchanged, hid, hmore, hended, hon, hawaited⟩
        · exact ⟨l', hothers l' hl' hid', rfl, List.Subset.refl _, id, id, fun _ => rfl⟩
      calls := fun i c hc => ⟨c, hc, Call.Becomes.refl c⟩ }
  have hids : (s.modifyLoad l.id change).loads.map Load.id = s.loads.map Load.id := by
    apply Faithful.modifyLoad_ids
    intro l' hl' hid'
    obtain rfl := hsame l' hl' hid'
    exact hid
  exact
    { distinct := hids ▸ h.distinct
      loads := by
        intro l' hl'
        obtain rfl | ⟨hold, -⟩ := Faithful.mem_modifyLoad h.distinct hl hl'
        · exact hs.load horderly
        · exact hs.load (h.loads l' hold)
      calls := fun i c hc => hs.call (h.calls i c hc) hc
      flights := by
        intro f hf
        obtain ⟨l', hl', hid', hunended, hattached⟩ := h.flights f hf
        by_cases hone : l'.id = l.id
        · obtain rfl := hsame l' hl' hone
          obtain ⟨hunended', hattached'⟩ := hcarried f hf hid'.symm
          exact ⟨change l', hchanged, hid.trans hid', hunended', hattached'⟩
        · exact ⟨l', hothers l' hl' hone, hid', hunended, hattached⟩
      jobs := fun j hj => hs.job (h.jobs j hj)
      served := by
        intro i c hc hunsettled
        obtain ⟨j, hj, hbrings⟩ | ⟨l', hl', hunended, hi⟩ := h.served i c hc hunsettled
        · exact .inl ⟨j, hj, hs.brings hbrings⟩
        · by_cases hone : l'.id = l.id
          · obtain rfl := hsame l' hl' hone
            obtain ⟨j, hj, hbrings⟩ | hunended' := htold i hi hunended
            · exact .inl ⟨j, hj, hs.brings hbrings⟩
            · exact .inr ⟨change l', hchanged, hunended', hmore hi⟩
          · exact .inr ⟨l', hothers l' hl' hone, hunended, hi⟩
      furthered := by
        intro l' hl' hon' hunended
        obtain rfl | ⟨hold, hother⟩ := Faithful.mem_modifyLoad h.distinct hl hl'
        · obtain ⟨j, hj, hfurthers⟩ := hfurthered hon' hunended
          exact ⟨j, hj, hfurthers.mono rfl rfl fun _ => id⟩
        · obtain ⟨j, hj, hfurthers⟩ := h.furthered l' hold hon' hunended
          exact ⟨j, hj, hfurthers.mono rfl rfl fun g hg => hwaiters _ hg hother⟩
      underWay := h.underWay }

/-- A load changes in nothing that anybody depends on. -/
theorem adjustLoad (h : Attentive store s J) (hl : l ∈ s.loads) {change : Load → Load}
    (waiters : List (Nat × Nat)) (hid : (change l).id = l.id)
    (hcontrol : (change l).control = l.control) (hended : (change l).ended = l.ended)
    (hmore : l.subscribers ⊆ (change l).subscribers)
    (hsubscribers : ∀ i ∈ (change l).subscribers, i ∈ l.subscribers ∨
      ∃ c, s.calls[i]? = some c ∧ c.load = some l.id)
    (hfurthered : l.control = .shared none → l.ended = none →
      ∃ j, J j ∧ j.Furthers { s with graphWaiters := waiters } (change l))
    (hwaiters : ∀ w ∈ s.graphWaiters, w.2 ≠ l.id → w ∈ waiters) :
    Attentive store { s.modifyLoad l.id change with graphWaiters := waiters } J := by
  have horderly := h.loads l hl
  apply h.modifyLoad hl waiters hid
  · exact
      { below := hid ▸ horderly.below
        shared := hcontrol ▸ horderly.shared
        ended := by
          rw [hended, hcontrol]
          exact horderly.ended
        subscribers := by
          intro i hi
          rw [hid]
          exact (hsubscribers i hi).elim (horderly.subscribers i) fun hc => hc }
  · exact hmore
  · rw [hended]
    exact fun hsome => hsome
  · rw [hcontrol]
    exact fun hon => hon
  · exact fun _ => hcontrol
  · intro f hf hfid
    -- the numbers of the loads are distinct, so the flight is that of the load that changes
    obtain ⟨l', hl', hid', hunended, hattached⟩ := h.flights f hf
    obtain rfl := List.inj_on_of_nodup_map h.distinct hl' hl (hid'.trans hfid)
    rw [hended, hcontrol]
    exact ⟨hunended, hattached⟩
  · exact fun _ _ hunended => .inr (hended.trans hunended)
  · rw [hended, hcontrol]
    exact hfurthered
  · exact hwaiters

/-- One call more will be told the outcome of a load. -/
theorem addSubscriber (h : Attentive store s J) (hl : l ∈ s.loads) (hc : s.calls[number]? = some c)
    (hload : c.load = some l.id) :
    Attentive store
      (s.modifyLoad l.id fun l => { l with subscribers := l.subscribers ++ [number] }) J := by
  apply h.adjustLoad hl s.graphWaiters rfl rfl rfl
  · exact List.subset_append_left _ _
  · intro i hi
    obtain hold | hnew := List.mem_append.mp hi
    · exact .inl hold
    · obtain rfl := List.mem_singleton.mp hnew
      exact .inr ⟨c, hc, hload⟩
  · intro hon hended
    obtain ⟨j, hj, hfurthers⟩ := h.furthered l hl hon hended
    exact ⟨j, hj, hfurthers.mono rfl rfl fun _ => id⟩
  · exact fun w hw _ => hw

/-- A load starts, and a job brings it to its end. -/
theorem addLoad (h : Attentive store s J) (hl : l.Orderly store s)
    (hfresh : ∀ l' ∈ s.loads, l'.id ≠ l.id)
    (hmore : ∀ j, J j → J' j)
    (hnew : ∀ j, J' j → J j ∨ j.Orderly store { s with loads := s.loads ++ [l] })
    (hfurthered : ∃ graph, J' (.resume l.id graph)) :
    Attentive store { s with loads := s.loads ++ [l] } J' := by
  have hs : s.Follows { s with loads := s.loads ++ [l] } := by
    refine State.Follows.of_same (Nat.le_refl _) (fun _ => id) ?_ ?_
    · exact fun l' hl' => List.mem_append_left _ hl'
    · exact fun i c hc => ⟨c, hc, Call.Becomes.refl c⟩
  have hloads : ∀ l' ∈ s.loads ++ [l], l' ∈ s.loads ∨ l' = l := by
    intro l' hl'
    exact (List.mem_append.mp hl').imp_right List.mem_singleton.mp
  exact
    { distinct := ReadThrough.nodup_map_concat h.distinct hfresh
      loads := by
        intro l' hl'
        obtain hold | rfl := hloads l' hl'
        · exact hs.load (h.loads l' hold)
        · exact hs.load hl
      calls := fun i c hc => hs.call (h.calls i c hc) hc
      flights := by
        intro f hf
        obtain ⟨l', hl', hfits⟩ := h.flights f hf
        exact ⟨l', List.mem_append_left _ hl', hfits⟩
      jobs := fun j hj => (hnew j hj).elim (fun hold => hs.job (h.jobs j hold)) id
      served := by
        intro i c hc hunsettled
        obtain ⟨j, hj, hbrings⟩ | ⟨l', hl', htold⟩ := h.served i c hc hunsettled
        · exact .inl ⟨j, hmore j hj, hs.brings hbrings⟩
        · exact .inr ⟨l', List.mem_append_left _ hl', htold⟩
      furthered := by
        intro l' hl' hon hended
        obtain hold | rfl := hloads l' hl'
        · obtain ⟨j, hj, hfurthers⟩ := h.furthered l' hold hon hended
          exact ⟨j, hmore j hj, hfurthers.mono rfl rfl fun _ => id⟩
        · -- the new load goes on by the job that comes with it
          obtain ⟨graph, hj⟩ := hfurthered
          exact ⟨_, hj, rfl⟩
      underWay := by
        intro f hf hattached
        obtain ⟨graph, hj⟩ := h.underWay f hf hattached
        exact ⟨graph, hmore _ hj⟩ }

end Attentive

end IssueQuery.Engine
