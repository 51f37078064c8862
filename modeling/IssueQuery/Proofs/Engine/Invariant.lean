import IssueQuery.Proofs.Engine.Answers

/-!
# An engine at work over a steady store

An engine is faithful to the answers of its store if everything that it keeps and everything that it
is about to tell agrees with them, and if somebody sees to every call that waits and to every load
that is wanted. The jobs under way are a parameter of that statement, so that a job in hand, or one
that is about to be put on the agenda, can be counted among them.

What a load or a call is for never changes, and that is enough for most of what is said about them
to stay true: `State.Becomes` says that one state comes after another, and the `mono` lemmas carry
what was said of the first over to the second.

* `Faithful`       what holds of an engine and the jobs under way;
* `State.Becomes`  what holds of any state and those that come after it.
-/

namespace IssueQuery.Engine

variable {answers : Answers} {s s' : State} {l l' : Load} {c c' : Call} {j : Job}

/-! ## Loads, calls and jobs in good order -/

/-- The load was not called off. -/
def Load.Wanted (s : State) (l : Load) : Prop :=
  match l.control with
  | .shared aborted => aborted = none
  | .own _ signal => s.reason? signal = none

/-- The call has not got its result, and its signal has not aborted. -/
def Call.Waits (s : State) (c : Call) : Prop := c.settled = none ∧ s.reason? c.signal = none

/-- The outcome of the load is what the expansion of its base issues gives. -/
def Load.Based (answers : Answers) (l : Load) : Prop :=
  ∃ e, l.query.expansion = some e ∧
    answers.outcome l.query = answers.graph >>= answers.expand l.base e

/-- What a load knows is right, and the calls that it names are calls of its query. -/
structure Load.Sound (answers : Answers) (s : State) (l : Load) : Prop where
  below : l.id < s.queries.started
  ended : ∀ outcome, l.ended = some outcome → l.Wanted s → outcome = answers.outcome l.query
  based : l.graphLoad.isSome → l.Based answers
  subscribers : ∀ i ∈ l.subscribers, ∃ c, s.calls[i]? = some c ∧ c.load = some l.id
  own : ∀ i signal, l.control = .own i signal →
    ∃ c, s.calls[i]? = some c ∧ c.signal = signal ∧ readQuery c.text = .ok l.query

/-- A call waits for a shared load of its query, which is not called off as long as the call waits,
and what the call got is right. -/
structure Call.Sound (answers : Answers) (s : State) (c : Call) : Prop where
  loaded : ∀ id, c.load = some id → ∃ l ∈ s.loads, l.id = id ∧ readQuery c.text = .ok l.query ∧
    ∃ aborted, l.control = .shared aborted ∧ (c.Waits s → aborted = none)
  listens : c.listening = true → c.settled = none ∧ c.load.isSome
  settled : ∀ result, c.settled = some result → s.reason? c.signal = none →
    result.map Result.outcome = answers.expected c.text

/-- What a job tells is right, unless nobody wants to know. -/
def Job.Sound (answers : Answers) (s : State) : Job → Prop
  | .subscribe _ => True
  | .settle id outcome =>
    ∃ l ∈ s.loads, l.id = id ∧ (l.Wanted s → outcome = answers.outcome l.query)
  | .resume id graph =>
    ∃ l ∈ s.loads, l.id = id ∧ (l.Wanted s → l.Based answers ∧ graph = answers.graph)
  | .settleGraph _ graph => graph = answers.graph
  | .deliverGraph _ graph => graph = answers.graph
  | .deliver call outcome | .finish call outcome =>
    ∃ c, s.calls[call]? = some c ∧
      (c.Waits s → ∃ q, readQuery c.text = .ok q ∧ outcome = answers.outcome q)

/-- The job brings a call to its result. -/
def Job.Serves (s : State) (i : Nat) : Job → Prop
  | .finish call _ | .deliver call _ => call = i
  | .subscribe call => call = i ∧ ∃ c, s.calls[i]? = some c ∧ c.load.isSome
  | .resume id _ => ∃ l ∈ s.loads, l.id = id ∧ ∃ signal, l.control = .own i signal
  | .settle .. | .settleGraph .. | .deliverGraph .. => False

/-- The job brings a load to its end. -/
def Job.Furthers (s : State) (l : Load) : Job → Prop
  | .settle id _ | .resume id _ => id = l.id
  | .deliverGraph id _ => id = l.id ∧ l.graphLoad.isSome
  | .settleGraph g _ => l.graphLoad = some g ∧ (g, l.id) ∈ s.graphWaiters
  | .subscribe _ | .deliver .. | .finish .. => False

/-- Whether all that the job does is to bring a call to its result. -/
def Job.onlyServes : Job → Bool
  | .subscribe _ | .deliver .. | .finish .. => true
  | .settle .. | .resume .. | .settleGraph .. | .deliverGraph .. => false

/-- Whether the job ends a load of the graph. -/
def Job.settlesGraph : Job → Bool
  | .settleGraph .. => true
  | .subscribe _ | .deliver .. | .finish .. | .settle .. | .resume .. | .deliverGraph .. => false

theorem Job.not_furthers (h : j.onlyServes = true) : ¬ j.Furthers s l := by
  cases j with
  | subscribe call | deliver call outcome | finish call outcome => exact id
  | settle id outcome | resume id graph | settleGraph g graph | deliverGraph id graph => cases h

/-- The call will be told the outcome of a load. -/
def State.Told (s : State) (i : Nat) : Prop := ∃ l ∈ s.loads, l.ended = none ∧ i ∈ l.subscribers

/-- Callers of the key may join the load. -/
def State.Joinable (s : State) (f : Flight Text) : Prop :=
  ∃ l ∈ s.loads, l.id = f.id ∧ l.control = .shared none ∧ l.ended = none ∧
    readQuery f.key = .ok l.query

/-- Everything that the engine keeps or is about to tell agrees with the answers, and somebody sees
to every call that waits and to every shared load that is wanted. -/
structure Faithful (answers : Answers) (s : State) (J : Job → Prop) : Prop where
  results : ∀ text outcome, s.queries.store.Holds text outcome →
    answers.expected text = .ok outcome
  graph : ∀ graph, s.graphs.store.Holds () graph → answers.graph = .ok graph
  distinct : (s.loads.map Load.id).Nodup
  loads : ∀ l ∈ s.loads, l.Sound answers s
  calls : ∀ (i : Nat) (c : Call), s.calls[i]? = some c → c.Sound answers s
  joinable : ∀ f ∈ s.queries.flights, f.attached = true → s.Joinable f
  jobs : ∀ j, J j → j.Sound answers s
  served : ∀ (i : Nat) (c : Call), s.calls[i]? = some c → c.Waits s →
    (∃ j, J j ∧ j.Serves s i) ∨ s.Told i
  furthered : ∀ l ∈ s.loads, l.control = .shared none → l.ended = none →
    ∃ j, J j ∧ j.Furthers s l
  underWay : ∀ f ∈ s.graphs.flights, f.attached = true → ∃ graph, J (.settleGraph f.id graph)

/-- The jobs on the agenda. -/
def State.Pending (s : State) (j : Job) : Prop := ∃ turns, (turns, j) ∈ s.agenda

theorem pending_congr (h : s'.agenda = s.agenda) : s'.Pending = s.Pending := by
  funext j
  rw [State.Pending, State.Pending, h]

section Agenda

variable {turns : Nat} {job j : Job} {rest : List (Nat × Job)}

theorem pending_iff (hagenda : s.agenda = (turns, job) :: rest) :
    s.Pending j ↔ j = job ∨ State.Pending { s with agenda := rest } j := by
  simp [State.Pending, hagenda, exists_or]

theorem pending_head (hagenda : s.agenda = (turns, job) :: rest) : s.Pending job :=
  (pending_iff hagenda).mpr (.inl rfl)

theorem pending_of_mem_tail (hagenda : s.agenda = (turns, job) :: rest) :
    ∀ p ∈ rest, s.Pending p.2 :=
  fun p hp => (pending_iff hagenda).mpr (.inr ⟨p.1, hp⟩)

/-- A job that is put off stays on the agenda. -/
theorem pending_putOff (hagenda : s.agenda = (turns + 1, job) :: rest) :
    State.Pending { s with agenda := rest ++ [(turns, job)] } = s.Pending := by
  funext j
  simp [State.Pending, hagenda, exists_or, or_comm]

end Agenda

/-! ## Looking up loads -/

theorem mem_of_load? {id : Nat} (h : s.load? id = some l) : l ∈ s.loads ∧ l.id = id :=
  ⟨List.mem_of_find?_eq_some h, by simpa using List.find?_some h⟩

theorem load?_eq_some (hdistinct : (s.loads.map Load.id).Nodup) (hl : l ∈ s.loads) :
    s.load? l.id = some l := by
  cases hfound : s.load? l.id with
  | none =>
    have hother : ∀ l' ∈ s.loads, l'.id ≠ l.id := by
      simpa [State.load?, List.find?_eq_none] using hfound
    exact absurd rfl (hother l hl)
  | some l' =>
    obtain ⟨hl', hid⟩ := mem_of_load? hfound
    rw [List.inj_on_of_nodup_map hdistinct hl' hl hid]

theorem calledOff?_eq_none (h : s.load? l.id = some l) : s.calledOff? l.id = none ↔ l.Wanted s := by
  unfold Load.Wanted
  simp only [State.calledOff?, h]
  cases l.control with
  | shared aborted => exact Iff.rfl
  | own call signal => cases signal <;> simp [State.reason?]

theorem Load.Wanted.congr (h : l.Wanted s) (hsignals : s'.signals = s.signals) : l.Wanted s' := by
  unfold Load.Wanted State.reason? at *
  rw [hsignals]
  exact h

/-! ## Calls by their numbers -/

section Numbers

variable {calls : List Call} {i : Nat}

/-- Every call has its number, whoever calls later. -/
theorem getElem?_concat (hc : calls[i]? = some c) (c' : Call) :
    (calls ++ [c'])[i]? = some c := by
  obtain ⟨hi, -⟩ := List.getElem?_eq_some_iff.mp hc
  rw [List.getElem?_append_left hi]
  exact hc

/-- Only the last call is new. -/
theorem getElem?_concat_cases (hc' : (calls ++ [c])[i]? = some c') :
    calls[i]? = some c' ∨ i = calls.length ∧ c' = c := by
  rw [List.getElem?_append] at hc'
  split at hc'
  · exact .inl hc'
  · obtain ⟨hi, hsame⟩ := List.getElem?_eq_some_iff.mp hc'
    have hlength : i - calls.length < 1 := hi
    exact .inr ⟨by omega, by simpa using hsame.symm⟩

/-- A call of the changed list is the one that changed, or stands where it stood. -/
theorem getElem?_modify_cases {change : Call → Call} {k : Nat}
    (hc' : (calls.modify i change)[k]? = some c') :
    ∃ c, calls[k]? = some c ∧ (k = i ∧ c' = change c ∨ k ≠ i ∧ c' = c) := by
  rw [List.getElem?_modify] at hc'
  obtain ⟨c, hc, rfl⟩ := Option.map_eq_some_iff.mp hc'
  by_cases hk : i = k
  · exact ⟨c, hc, .inl ⟨hk.symm, if_pos hk⟩⟩
  · exact ⟨c, hc, .inr ⟨Ne.symm hk, if_neg hk⟩⟩

/-- If one call changes, every call still has its number. -/
theorem exists_getElem?_modify {k : Nat} (hc : calls[k]? = some c) (i : Nat)
    (change : Call → Call) : ∃ c', (calls.modify i change)[k]? = some c' ∧
      (k = i ∧ c' = change c ∨ k ≠ i ∧ c' = c) := by
  have hsome : (calls.modify i change)[k]? = some (if i = k then change c else c) := by
    rw [List.getElem?_modify, hc]
    rfl
  obtain ⟨c₀, hc₀, hsame⟩ := getElem?_modify_cases hsome
  obtain rfl := Option.some.inj (hc.symm.trans hc₀)
  exact ⟨_, hsome, hsame⟩

end Numbers

/-! ## Later states -/

/-- What the call is for stays, and it keeps its load and what it got. -/
structure Call.Becomes (c c' : Call) : Prop where
  text : c'.text = c.text
  signal : c'.signal = c.signal
  load : ∀ id, c.load = some id → c'.load = some id
  settled : c'.settled = none → c.settled = none

/-- What the load is for stays; it may have been called off if it is shared. -/
structure Load.Becomes (l l' : Load) : Prop where
  id : l'.id = l.id
  query : l'.query = l.query
  base : l'.base = l.base
  control : l'.control = l.control ∨
    (∃ aborted, l.control = .shared aborted) ∧ ∃ reason, l'.control = .shared (some reason)

/-- The state comes after another one. A load is not called off while a call waits for it. -/
structure State.Becomes (s s' : State) : Prop where
  signals : ∀ signal, s'.reason? signal = none → s.reason? signal = none
  started : s.queries.started ≤ s'.queries.started
  loads : ∀ l ∈ s.loads, ∃ l' ∈ s'.loads, l.Becomes l' ∧
    ((∃ (i : Nat) (c : Call), s'.calls[i]? = some c ∧ c.Waits s' ∧ c.load = some l.id) →
      l'.control = l.control)
  calls : ∀ (i : Nat) (c : Call), s.calls[i]? = some c → ∃ c', s'.calls[i]? = some c' ∧ c.Becomes c'

theorem Call.Becomes.refl (c : Call) : c.Becomes c := ⟨rfl, rfl, fun _ => id, id⟩

theorem Load.Becomes.refl (l : Load) : l.Becomes l := ⟨rfl, rfl, rfl, .inl rfl⟩

theorem Call.Becomes.waits (h : c.Becomes c') (hs : s.Becomes s') (hwaits : c'.Waits s') :
    c.Waits s :=
  ⟨h.settled hwaits.1, h.signal ▸ hs.signals _ hwaits.2⟩

theorem Load.Becomes.wanted (h : l.Becomes l') (hs : s.Becomes s') (hwanted : l'.Wanted s') :
    l.Wanted s := by
  unfold Load.Wanted at *
  obtain hsame | ⟨-, reason, hoff⟩ := h.control
  · rw [hsame] at hwanted
    cases hcontrol : l.control with
    | shared aborted => simpa only [hcontrol] using hwanted
    | own call signal =>
      simp only [hcontrol] at hwanted
      exact hs.signals signal hwanted
  · rw [hoff] at hwanted
    exact nomatch hwanted

theorem Load.Becomes.based (h : l.Becomes l') (hbased : l.Based answers) : l'.Based answers := by
  unfold Load.Based at *
  rw [h.query, h.base]
  exact hbased

namespace State.Becomes

theorem call (hs : s.Becomes s') (hc : c.Sound answers s) {i : Nat} (hi : s'.calls[i]? = some c) :
    c.Sound answers s' where
  loaded := by
    intro id hid
    obtain ⟨l, hl, rfl, hquery, aborted, hcontrol, hon⟩ := hc.loaded id hid
    obtain ⟨l', hl', hbecomes, hkept⟩ := hs.loads l hl
    refine ⟨l', hl', hbecomes.id, by rw [hbecomes.query]; exact hquery, ?_⟩
    -- the load was not called off if the call still waits
    by_cases hwaits : c.Waits s'
    · rw [hkept ⟨i, c, hi, hwaits, hid⟩]
      exact ⟨aborted, hcontrol, fun _ => hon ((Call.Becomes.refl c).waits hs hwaits)⟩
    · obtain hsame | ⟨-, reason, hoff⟩ := hbecomes.control
      · exact ⟨aborted, hsame.trans hcontrol, fun h => absurd h hwaits⟩
      · exact ⟨some reason, hoff, fun h => absurd h hwaits⟩
  listens := hc.listens
  settled := fun result hresult hquiet => hc.settled result hresult (hs.signals _ hquiet)

theorem load (hs : s.Becomes s') (hl : l.Sound answers s) : l.Sound answers s' where
  below := Nat.lt_of_lt_of_le hl.below hs.started
  ended := fun outcome hended hwanted =>
    hl.ended outcome hended ((Load.Becomes.refl l).wanted hs hwanted)
  based := hl.based
  subscribers := by
    intro i hi
    obtain ⟨c, hc, hload⟩ := hl.subscribers i hi
    obtain ⟨c', hc', hbecomes⟩ := hs.calls i c hc
    exact ⟨c', hc', hbecomes.load _ hload⟩
  own := by
    intro i signal hcontrol
    obtain ⟨c, hc, hsignal, hquery⟩ := hl.own i signal hcontrol
    obtain ⟨c', hc', hbecomes⟩ := hs.calls i c hc
    exact ⟨c', hc', hbecomes.signal.trans hsignal, by rw [hbecomes.text]; exact hquery⟩

theorem job (hs : s.Becomes s') (hj : j.Sound answers s) : j.Sound answers s' := by
  -- what is told to a call stays right, as the call keeps its text
  have hcall : ∀ call outcome, (Job.finish call outcome).Sound answers s →
      (Job.finish call outcome).Sound answers s' := by
    rintro call outcome ⟨c, hc, hright⟩
    obtain ⟨c', hc', hbecomes⟩ := hs.calls call c hc
    refine ⟨c', hc', fun hwaits => ?_⟩
    rw [hbecomes.text]
    exact hright (hbecomes.waits hs hwaits)
  cases j with
  | subscribe call => trivial
  | settle id outcome =>
    obtain ⟨l, hl, hid, hright⟩ := hj
    obtain ⟨l', hl', hbecomes, -⟩ := hs.loads l hl
    refine ⟨l', hl', hbecomes.id.trans hid, fun hwanted => ?_⟩
    rw [hbecomes.query]
    exact hright (hbecomes.wanted hs hwanted)
  | settleGraph g graph => exact hj
  | deliverGraph id graph => exact hj
  | resume id graph =>
    obtain ⟨l, hl, hid, hright⟩ := hj
    obtain ⟨l', hl', hbecomes, -⟩ := hs.loads l hl
    refine ⟨l', hl', hbecomes.id.trans hid, fun hwanted => ?_⟩
    obtain ⟨hbased, hgraph⟩ := hright (hbecomes.wanted hs hwanted)
    exact ⟨hbecomes.based hbased, hgraph⟩
  | deliver call outcome => exact hcall call outcome hj
  | finish call outcome => exact hcall call outcome hj

theorem serves (hs : s.Becomes s') {i : Nat} (hj : j.Serves s i) : j.Serves s' i := by
  cases j with
  | subscribe call =>
    obtain ⟨hi, c, hc, hload⟩ := hj
    obtain ⟨c', hc', hbecomes⟩ := hs.calls i c hc
    obtain ⟨id, hid⟩ := Option.isSome_iff_exists.mp hload
    exact ⟨hi, c', hc', by rw [hbecomes.load id hid]; rfl⟩
  | resume id graph =>
    obtain ⟨l, hl, hid, signal, hcontrol⟩ := hj
    obtain ⟨l', hl', hbecomes, -⟩ := hs.loads l hl
    refine ⟨l', hl', hbecomes.id.trans hid, signal, ?_⟩
    -- a load with a caller of its own is never called off
    obtain hsame | ⟨⟨aborted, hshared⟩, -⟩ := hbecomes.control
    · exact hsame.trans hcontrol
    · rw [hcontrol] at hshared
      exact nomatch hshared
  | settle id outcome => exact hj
  | settleGraph g graph => exact hj
  | deliverGraph id graph => exact hj
  | deliver call outcome => exact hj
  | finish call outcome => exact hj

end State.Becomes

/-- Whether a job brings a load to its end depends on what the load waits for. -/
theorem Job.Furthers.mono (hj : j.Furthers s l) (hid : l'.id = l.id)
    (hgraph : l'.graphLoad = l.graphLoad)
    (hwaiters : ∀ g, (g, l.id) ∈ s.graphWaiters → (g, l.id) ∈ s'.graphWaiters) :
    j.Furthers s' l' := by
  cases j with
  | settle id outcome => exact Eq.trans hj hid.symm
  | resume id graph => exact Eq.trans hj hid.symm
  | deliverGraph id graph => exact ⟨hj.1.trans hid.symm, hgraph ▸ hj.2⟩
  | settleGraph g graph => exact ⟨hgraph.trans hj.1, hid ▸ hwaiters g hj.2⟩
  | subscribe call => exact hj
  | deliver call outcome => exact hj
  | finish call outcome => exact hj

end IssueQuery.Engine
