import IssueQuery.Proofs.Engine.Subsiding

/-!
# Where results come from

A mark is a moment in the run of an engine. From then on certain queries are looked at, and an
engine is traced to the mark if whatever it keeps, or is about to tell a later call, of such a query
comes from rows that the store has given since. Loads that were under way at the mark go on, but no
later call waits for them, and no load that started later waits for their graph.

The second part of the invariant is the index of the texts whose queries expand, which an
invalidation of the graph relies on.

* `Traced`               what holds of an engine since a mark;
* `Traced.subsides`, … one lemma for each kind of change;
* `Traced.remark`        a new mark, once what the queries in question rely on is forgotten.
-/

namespace IssueQuery.Engine

/-- A moment in the run of an engine, told by how much of everything there had been by then, and the
queries that are looked at from then on. -/
structure Mark where
  statements : Nat
  loads : Nat
  graphLoads : Nat
  calls : Nat
  Chosen : Query → Prop

/-- The present moment. -/
def State.mark (s : State) (Chosen : Query → Prop) : Mark where
  statements := s.asked
  loads := s.queries.started
  graphLoads := s.graphs.started
  calls := s.calls.length
  Chosen := Chosen

/-- There is no less of anything than there was at the mark. -/
structure Mark.Passed (m : Mark) (asked loads graphLoads calls : Nat) : Prop where
  statements : m.statements ≤ asked
  loads : m.loads ≤ loads
  graphLoads : m.graphLoads ≤ graphLoads
  calls : m.calls ≤ calls

/-! ## Loads, calls and jobs since a mark -/

/-- The load started since the mark, and its query is looked at. -/
def Load.Fresh (m : Mark) (l : Load) : Prop := m.loads ≤ l.id ∧ m.Chosen l.query

/-- A call of the number and the text may be told what the load gives. -/
def Load.Suits (m : Mark) (l : Load) (i : Nat) (text : Text) : Prop :=
  readQuery text = .ok l.query ∧ (m.calls ≤ i → m.Chosen l.query → m.loads ≤ l.id)

/-- A call of the number and the text may be told the outcome. -/
def Mark.Tells (m : Mark) (draws : Draws) (i : Nat) (text : Text) (outcome : Outcome) : Prop :=
  ∃ q, readQuery text = .ok q ∧ (m.calls ≤ i → m.Chosen q → draws.Gives q outcome)

/-- What the load has comes from draws, and it suits the calls that it will tell. -/
structure Load.Traced (m : Mark) (draws : Draws) (calls : List Call) (l : Load) : Prop where
  based : l.Fresh m → l.base ≠ [] → draws.Selects l.query l.base
  ended : ∀ outcome, l.ended = some (.ok outcome) → l.Fresh m → draws.Gives l.query outcome
  subscribers : ∀ i ∈ l.subscribers, ∃ c, calls[i]? = some c ∧ l.Suits m i c.text
  own : ∀ i signal, l.control = .own i signal → ∃ c, calls[i]? = some c ∧ l.Suits m i c.text

/-- The load of the call suits it, and so does what it got. -/
structure Call.Traced (m : Mark) (draws : Draws) (loads : List Load) (i : Nat) (c : Call) :
    Prop where
  loaded : ∀ id, c.load = some id → ∃ l ∈ loads, l.id = id ∧ l.Suits m i c.text
  settled : ∀ result, c.settled = some (.ok result) →
    result.text = c.text ∧ m.Tells draws i c.text result.outcome

/-- What the job tells comes from draws, if it is told to a load or a call since the mark. -/
def Job.Traced (m : Mark) (draws : Draws) (s : State) : Job → Prop
  | .subscribe _ => True
  | .settle id outcome =>
    ∃ l ∈ s.loads, l.id = id ∧ ∀ out, outcome = .ok out → l.Fresh m → draws.Gives l.query out
  | .settleGraph g graph =>
    g < s.graphs.started ∧
      ∀ found, graph = .ok found → m.graphLoads ≤ g → draws.GivesGraph found
  | .deliverGraph id graph | .resume id graph =>
    ∃ l ∈ s.loads, l.id = id ∧ l.base ≠ [] ∧
      ∀ found, graph = .ok found → l.Fresh m → draws.GivesGraph found
  | .deliver i outcome | .finish i outcome =>
    ∃ c, s.calls[i]? = some c ∧ ∀ out, outcome = .ok out → m.Tells draws i c.text out

/-- The query of the text has an expansion. -/
def Expanding (text : Text) : Prop := ∃ q, readQuery text = .ok q ∧ q.expansion.isSome

/-- The cache has a value at the key, or a load of it that callers may join. -/
def Has (queries : ReadThrough Text Outcome) (text : Text) : Prop :=
  (∃ outcome, queries.store.Holds text outcome) ∨
    ∃ f ∈ queries.flights, f.attached = true ∧ f.key = text

/-- The texts noted are texts of expanding queries, and all of those of which the cache has
anything. -/
structure Indexed (queries : ReadThrough Text Outcome) (expanding : List Text) : Prop where
  sound : ∀ text ∈ expanding, Expanding text
  complete : ∀ text, Expanding text → Has queries text → text ∈ expanding

/-- Whatever the engine keeps, or is about to tell, comes from rows given since the mark, as far as
a call since the mark could get it. -/
structure Traced (store : Store) (m : Mark) (s : State) : Prop where
  recorded : s.Recorded
  passed : m.Passed s.asked s.queries.started s.graphs.started s.calls.length
  indexed : Indexed s.queries s.expanding
  results : ∀ text outcome, s.queries.store.Holds text outcome → ∀ q, readQuery text = .ok q →
    m.Chosen q → (s.drawn store m.statements).Gives q outcome
  joinable : ∀ f ∈ s.queries.flights, f.attached = true → ∃ l ∈ s.loads, l.id = f.id ∧
    readQuery f.key = .ok l.query ∧ (m.Chosen l.query → m.loads ≤ l.id)
  graph : ∀ graph, s.graphs.store.Holds () graph → (s.drawn store m.statements).GivesGraph graph
  underWay : ∀ f ∈ s.graphs.flights, f.attached = true → m.graphLoads ≤ f.id
  distinct : (s.loads.map Load.id).Nodup
  below : ∀ l ∈ s.loads, l.id < s.queries.started
  loads : ∀ l ∈ s.loads, l.Traced m (s.drawn store m.statements) s.calls
  waiters : ∀ w ∈ s.graphWaiters, ∃ l ∈ s.loads, l.id = w.2 ∧ l.base ≠ [] ∧
    (l.Fresh m → m.graphLoads ≤ w.1)
  calls : ∀ (i : Nat) (c : Call), s.calls[i]? = some c →
    c.Traced m (s.drawn store m.statements) s.loads i
  jobs : ∀ j, s.Pending j → j.Traced m (s.drawn store m.statements) s

variable {store : Store} {m : Mark} {s s' : State} {l l' : Load} {c : Call} {j : Job}
  {i number : Nat} {text : Text} {draws draws' : Draws} {Chosen : Query → Prop}

theorem Load.fresh_congr (hid : l'.id = l.id) (hquery : l'.query = l.query) :
    l'.Fresh m ↔ l.Fresh m := by
  rw [Load.Fresh, Load.Fresh, hid, hquery]

theorem Load.Suits.fresh (h : l.Suits m i text) (hi : m.calls ≤ i) (hchosen : m.Chosen l.query) :
    l.Fresh m :=
  ⟨h.2 hi hchosen, hchosen⟩

/-- A call may be told what its load gives. -/
theorem Load.Suits.tells (h : l.Suits m i text) {outcome : Outcome}
    (hgives : l.Fresh m → draws.Gives l.query outcome) : m.Tells draws i text outcome :=
  ⟨l.query, h.1, fun hi hchosen => hgives (h.fresh hi hchosen)⟩

theorem Load.Suits.congr (h : l.Suits m i text) (hid : l'.id = l.id) (hquery : l'.query = l.query) :
    l'.Suits m i text := by
  unfold Load.Suits
  rw [hid, hquery]
  exact h

theorem Mark.Tells.mono {outcome : Outcome} (hmore : draws.Within draws')
    (h : m.Tells draws i text outcome) : m.Tells draws' i text outcome := by
  obtain ⟨q, hquery, hgives⟩ := h
  exact ⟨q, hquery, fun hi hchosen => (hgives hi hchosen).mono hmore⟩

/-! ## What stays true -/

/-- The loads and the calls are still there in the second state, and are what they are for. -/
structure Retains (s s' : State) : Prop where
  graphLoads : s.graphs.started ≤ s'.graphs.started
  loads : ∀ l ∈ s.loads, ∃ l' ∈ s'.loads, l'.id = l.id ∧ l'.query = l.query ∧
    (l.base ≠ [] → l'.base ≠ [])
  calls : ∀ (i : Nat) (c : Call), s.calls[i]? = some c →
    ∃ c', s'.calls[i]? = some c' ∧ c'.text = c.text

namespace Retains

theorem of_same (hgraphs : s.graphs.started ≤ s'.graphs.started) (hloads : s'.loads = s.loads)
    (hcalls : s'.calls = s.calls) : Retains s s' where
  graphLoads := hgraphs
  loads := fun l hl => ⟨l, hloads ▸ hl, rfl, rfl, id⟩
  calls := fun _ c hc => ⟨c, hcalls ▸ hc, rfl⟩

theorem trans {s'' : State} (h : Retains s s') (h' : Retains s' s'') : Retains s s'' where
  graphLoads := Nat.le_trans h.graphLoads h'.graphLoads
  loads := by
    intro l hl
    obtain ⟨l', hl', hid, hquery, hbase⟩ := h.loads l hl
    obtain ⟨l'', hl'', hid', hquery', hbase'⟩ := h'.loads l' hl'
    exact ⟨l'', hl'', hid'.trans hid, hquery'.trans hquery, fun hsome => hbase' (hbase hsome)⟩
  calls := by
    intro i c hc
    obtain ⟨c', hc', htext⟩ := h.calls i c hc
    obtain ⟨c'', hc'', htext'⟩ := h'.calls i c' hc'
    exact ⟨c'', hc'', htext'.trans htext⟩

theorem subsides (hs : Subsides s s') : Retains s s' where
  graphLoads := Nat.le_of_eq hs.graphs.started.symm
  loads := by
    intro l hl
    obtain ⟨change, hchange, hchanged⟩ := hs.loads
    refine ⟨change l, hchanged ▸ List.mem_map_of_mem hl, (hchange l).id, (hchange l).query, ?_⟩
    rw [(hchange l).base]
    exact id
  calls := by
    intro i c hc
    obtain ⟨c', hc', hsubsides⟩ := hs.call hc
    exact ⟨c', hc', hsubsides.text⟩

theorem modifyLoad {change : Load → Load}
    (hsame : ∀ l, (change l).id = l.id ∧ (change l).query = l.query)
    (hbase : ∀ l ∈ s.loads, l.id = number → l.base ≠ [] → (change l).base ≠ []) :
    Retains s (s.modifyLoad number change) where
  graphLoads := Nat.le_refl _
  loads := by
    intro l hl
    refine ⟨_, List.mem_map_of_mem hl, ?_⟩
    split
    · rename_i hid
      exact ⟨(hsame l).1, (hsame l).2, hbase l hl hid⟩
    · exact ⟨rfl, rfl, id⟩
  calls := fun _ c hc => ⟨c, hc, rfl⟩

theorem addLoad (s : State) (l : Load) : Retains s { s with loads := s.loads ++ [l] } where
  graphLoads := Nat.le_refl _
  loads := fun l' hl' => ⟨l', List.mem_append_left _ hl', rfl, rfl, id⟩
  calls := fun _ c hc => ⟨c, hc, rfl⟩

theorem modifyCall {change : Call → Call}
    (htext : ∀ c, s.calls[i]? = some c → (change c).text = c.text) :
    Retains s (s.modifyCall i change) where
  graphLoads := Nat.le_refl _
  loads := fun l hl => ⟨l, hl, rfl, rfl, id⟩
  calls := by
    intro k c hc
    obtain ⟨c', hc', ⟨rfl, rfl⟩ | ⟨-, rfl⟩⟩ := exists_getElem?_modify hc i change
    · exact ⟨_, hc', htext c hc⟩
    · exact ⟨c', hc', rfl⟩

theorem addCall (s : State) (c : Call) : Retains s { s with calls := s.calls ++ [c] } where
  graphLoads := Nat.le_refl _
  loads := fun l hl => ⟨l, hl, rfl, rfl, id⟩
  calls := fun _ c' hc' => ⟨c', getElem?_concat hc' c, rfl⟩

/-- The load that callers of a text may join is still there. -/
theorem joins (hs : Retains s s') (h : ∃ l ∈ s.loads, l.id = number ∧ readQuery text = .ok l.query ∧
      (m.Chosen l.query → m.loads ≤ l.id)) :
    ∃ l ∈ s'.loads, l.id = number ∧ readQuery text = .ok l.query ∧
      (m.Chosen l.query → m.loads ≤ l.id) := by
  obtain ⟨l, hl, hid, hquery, hnew⟩ := h
  obtain ⟨l', hl', hid', hquery', -⟩ := hs.loads l hl
  refine ⟨l', hl', hid'.trans hid, ?_⟩
  rw [hquery', hid']
  exact ⟨hquery, hnew⟩

/-- A load that is to go on with a graph is still there, with its base issues. -/
theorem waits (hs : Retains s s') {P : Prop}
    (h : ∃ l ∈ s.loads, l.id = number ∧ l.base ≠ [] ∧ (l.Fresh m → P)) :
    ∃ l ∈ s'.loads, l.id = number ∧ l.base ≠ [] ∧ (l.Fresh m → P) := by
  obtain ⟨l, hl, hid, hsome, hP⟩ := h
  obtain ⟨l', hl', hid', hquery, hbase⟩ := hs.loads l hl
  exact ⟨l', hl', hid'.trans hid, hbase hsome, fun hf => hP ((Load.fresh_congr hid' hquery).mp hf)⟩

end Retains

theorem Load.Traced.mono (h : l.Traced m draws s.calls) (hdraws : draws.Within draws')
    (hs : Retains s s') : l.Traced m draws' s'.calls where
  based := fun hfresh hsome => (h.based hfresh hsome).mono hdraws
  ended := fun outcome hended hfresh => (h.ended outcome hended hfresh).mono hdraws
  subscribers := by
    intro i hi
    obtain ⟨c, hc, hsuits⟩ := h.subscribers i hi
    obtain ⟨c', hc', htext⟩ := hs.calls i c hc
    exact ⟨c', hc', htext ▸ hsuits⟩
  own := by
    intro i signal hown
    obtain ⟨c, hc, hsuits⟩ := h.own i signal hown
    obtain ⟨c', hc', htext⟩ := hs.calls i c hc
    exact ⟨c', hc', htext ▸ hsuits⟩

theorem Call.Traced.mono (h : c.Traced m draws s.loads i) (hdraws : draws.Within draws')
    (hs : Retains s s') : c.Traced m draws' s'.loads i where
  loaded := by
    intro id hid
    obtain ⟨l, hl, rfl, hsuits⟩ := h.loaded id hid
    obtain ⟨l', hl', hid', hquery, -⟩ := hs.loads l hl
    exact ⟨l', hl', hid', hsuits.congr hid' hquery⟩
  settled := by
    intro result hresult
    obtain ⟨htext, htells⟩ := h.settled result hresult
    exact ⟨htext, htells.mono hdraws⟩

theorem Load.Traced.subsides {calls : List Call} (h : l.Traced m draws calls)
    (hs : l.Subsides l') : l'.Traced m draws calls where
  based := by
    rw [Load.Fresh, hs.id, hs.query, hs.base]
    exact h.based
  ended := by
    rw [Load.Fresh, hs.id, hs.query, hs.ended]
    exact h.ended
  subscribers := by
    intro i hi
    obtain ⟨c, hc, hsuits⟩ := h.subscribers i (hs.subscribers ▸ hi)
    exact ⟨c, hc, hsuits.congr hs.id hs.query⟩
  own := by
    intro i signal hown
    obtain ⟨c, hc, hsuits⟩ := h.own i signal (hs.own i signal hown)
    exact ⟨c, hc, hsuits.congr hs.id hs.query⟩

theorem Call.Traced.subsides {loads : List Load} {c' : Call} (h : c.Traced m draws loads i)
    (hs : c.Subsides c') : c'.Traced m draws loads i where
  loaded := by
    rw [hs.load, hs.text]
    exact h.loaded
  settled := by
    intro result hresult
    rw [hs.text]
    exact h.settled result (hs.settled result hresult)

theorem Job.Traced.mono (h : j.Traced m draws s) (hdraws : draws.Within draws')
    (hs : Retains s s') : j.Traced m draws' s' := by
  -- jobs that bring a graph to a load, and jobs that bring an outcome to a call
  have hgraph : ∀ id graph, (Job.resume id graph).Traced m draws s →
      (Job.resume id graph).Traced m draws' s' := by
    rintro id graph ⟨l, hl, hid, hsome, hgives⟩
    obtain ⟨l', hl', hid', hquery, hbase⟩ := hs.loads l hl
    exact ⟨l', hl', hid'.trans hid, hbase hsome, fun found hfound hf =>
      (hgives found hfound ((Load.fresh_congr hid' hquery).mp hf)).mono hdraws⟩
  have hcall : ∀ i outcome, (Job.finish i outcome).Traced m draws s →
      (Job.finish i outcome).Traced m draws' s' := by
    rintro i outcome ⟨c, hc, htells⟩
    obtain ⟨c', hc', htext⟩ := hs.calls i c hc
    exact ⟨c', hc', fun out hout => htext ▸ (htells out hout).mono hdraws⟩
  cases j with
  | subscribe call => trivial
  | settle id outcome =>
    obtain ⟨l, hl, hid, hgives⟩ := h
    obtain ⟨l', hl', hid', hquery, -⟩ := hs.loads l hl
    refine ⟨l', hl', hid'.trans hid, fun out hout hf => ?_⟩
    rw [hquery]
    exact (hgives out hout ((Load.fresh_congr hid' hquery).mp hf)).mono hdraws
  | settleGraph g graph =>
    exact ⟨Nat.lt_of_lt_of_le h.1 hs.graphLoads,
      fun found hfound hg => (h.2 found hfound hg).mono hdraws⟩
  | deliverGraph id graph => exact hgraph id graph h
  | resume id graph => exact hgraph id graph h
  | deliver i outcome => exact hcall i outcome h
  | finish i outcome => exact hcall i outcome h

/-! ## The index -/

variable {queries queries' : ReadThrough Text Outcome} {expanding : List Text}

theorem expanding_iff :
    Expanding text ↔ ((readQuery text).toOption.any fun q => q.expansion.isSome) = true := by
  unfold Expanding
  cases readQuery text <;> simp [Except.toOption]

instance : Decidable (Expanding text) := decidable_of_iff _ expanding_iff.symm

theorem has_iff :
    Has queries text ↔ (queries.store.entries.entries.any (fun e => e.1 = text) ||
      queries.flights.any fun f => f.attached && f.key = text) = true := by
  have hholds : (∃ outcome, queries.store.Holds text outcome) ↔
      ∃ e, (text, e) ∈ queries.store.entries.entries :=
    ⟨fun ⟨_, e, he, _⟩ => ⟨e, he⟩, fun ⟨e, he⟩ => ⟨e.value, e, he, rfl⟩⟩
  simp [Has, hholds]

instance : Decidable (Has queries text) := decidable_of_iff _ has_iff.symm

theorem Has.of_subsides (hqueries : queries.Subsides queries') (hhas : Has queries' text) :
    Has queries text := by
  obtain ⟨outcome, hholds⟩ | ⟨f, hf, hattached, rfl⟩ := hhas
  · exact .inl ⟨outcome, hqueries.holds _ _ hholds⟩
  · obtain ⟨g, hg, hattached', -, hkey⟩ := hqueries.flights f hf hattached
    exact .inr ⟨g, hg, hattached', hkey⟩

/-- A value that comes up takes the place of a load that could be joined. -/
theorem Has.of_settle {load : Nat} {value : Option Outcome} {now : Time}
    (hhas : Has (queries.settle load value now) text) : Has queries text := by
  obtain ⟨outcome, hholds⟩ | ⟨f, hf, hfits⟩ := hhas
  · obtain ⟨-, f, hf, -, hkey, hattached⟩ | hheld := ReadThrough.holds_settle hholds
    · exact .inr ⟨f, hf, hattached, hkey⟩
    · exact .inl ⟨outcome, hheld⟩
  · exact .inr ⟨f, (ReadThrough.mem_settle_flights.mp hf).1, hfits⟩

theorem Indexed.mono (h : Indexed queries expanding)
    (hqueries : ∀ text, Has queries' text → Has queries text) : Indexed queries' expanding where
  sound := h.sound
  complete := fun text hexpands hhas => h.complete text hexpands (hqueries text hhas)

namespace Traced

/-! ## Nothing comes up -/

theorem eq_of_id (h : Traced store m s) (hl : l ∈ s.loads) (hl' : l' ∈ s.loads)
    (hid : l'.id = l.id) : l' = l :=
  List.inj_on_of_nodup_map h.distinct hl' hl hid

theorem subsides (h : Traced store m s) (hs : Subsides s s') : Traced store m s' := by
  have hdraws : (s.drawn store m.statements).Within (s'.drawn store m.statements) :=
    drawn_within hs.journal (Nat.le_refl _)
  -- loads and calls stay what they were, and there is only more that was drawn
  have hretains := Retains.subsides hs
  obtain ⟨change, hchange, hchanged⟩ := hs.loads
  exact
    { recorded := hs.recorded h.recorded
      passed :=
        { statements := Nat.le_trans h.passed.statements (hs.asked h.recorded)
          loads := hs.queries.started ▸ h.passed.loads
          graphLoads := hs.graphs.started ▸ h.passed.graphLoads
          calls := hs.callCount ▸ h.passed.calls }
      indexed := hs.expanding ▸ h.indexed.mono fun _ => .of_subsides hs.queries
      results := fun text outcome hholds q hquery hchosen =>
        (h.results text outcome (hs.queries.holds _ _ hholds) q hquery hchosen).mono hdraws
      joinable := by
        intro f hf hattached
        obtain ⟨f', hf', hattached', hid, hkey⟩ := hs.queries.flights f hf hattached
        rw [← hid, ← hkey]
        exact hretains.joins (h.joinable f' hf' hattached')
      graph := fun graph hholds => (h.graph graph (hs.graphs.holds _ _ hholds)).mono hdraws
      underWay := by
        intro f hf hattached
        obtain ⟨f', hf', hattached', hid, -⟩ := hs.graphs.flights f hf hattached
        exact hid ▸ h.underWay f' hf' hattached'
      distinct := by
        have hids : (s.loads.map change).map Load.id = s.loads.map Load.id := by
          rw [List.map_map]
          exact List.map_congr_left fun l _ => (hchange l).id
        rw [hchanged, hids]
        exact h.distinct
      below := by
        intro l' hl'
        rw [hchanged] at hl'
        obtain ⟨l, hl, rfl⟩ := List.mem_map.mp hl'
        rw [(hchange l).id, hs.queries.started]
        exact h.below l hl
      loads := by
        intro l' hl'
        rw [hchanged] at hl'
        obtain ⟨l, hl, rfl⟩ := List.mem_map.mp hl'
        exact ((h.loads l hl).mono hdraws hretains).subsides (hchange l)
      waiters := by
        intro w hw
        exact hretains.waits (h.waiters w (hs.graphWaiters w hw))
      calls := by
        intro i c' hc'
        obtain ⟨c, hc, hsame⟩ := hs.calls i c' hc'
        exact ((h.calls i c hc).mono hdraws hretains).subsides hsame
      jobs := by
        rw [pending_congr hs.agenda]
        exact fun j hj => (h.jobs j hj).mono hdraws hretains }

/-! ## Jobs and caches -/

/-- Every job on the agenda is one that was there, or tells what it may. -/
theorem setAgenda (h : Traced store m s) (agenda : List (Nat × Job))
    (hjobs : ∀ p ∈ agenda, s.Pending p.2 ∨ p.2.Traced m (s.drawn store m.statements) s) :
    Traced store m { s with agenda := agenda } :=
  { h with
    jobs := by
      rintro j ⟨turns, hj⟩
      exact (hjobs _ hj).elim (h.jobs j) id }

theorem schedule (h : Traced store m s) (turns : Nat) (job : Job)
    (hjob : job.Traced m (s.drawn store m.statements) s) :
    Traced store m (s.schedule turns job) := by
  apply h.setAgenda
  intro p hp
  obtain hold | hnew := List.mem_append.mp hp
  · exact .inl ⟨p.1, hold⟩
  · obtain rfl := List.mem_singleton.mp hnew
    exact .inr hjob

theorem setQueries (h : Traced store m s) {queries : ReadThrough Text Outcome}
    (hqueries : s.queries.Subsides queries) : Traced store m { s with queries := queries } :=
  h.subsides { Subsides.refl s with queries := hqueries }

theorem setGraphs (h : Traced store m s) {graphs : ReadThrough Unit Graph}
    (hgraphs : s.graphs.Subsides graphs) : Traced store m { s with graphs := graphs } :=
  h.subsides { Subsides.refl s with graphs := hgraphs }

/-- A line in the log makes no difference. -/
theorem frame (h : Traced store m s) (hframe : Frame s s') (hjournal : s'.journal = s.journal)
    (hasked : s'.asked = s.asked) (hstarted : s'.graphs.started = s.graphs.started) :
    Traced store m s' :=
  h.subsides (.of_frame hframe hjournal hasked hstarted)

/-! ## Loads and calls -/

/-- A load changes, and stays what it is for. -/
theorem modifyLoad (h : Traced store m s) {change : Load → Load}
    (hsame : ∀ l, (change l).id = l.id ∧ (change l).query = l.query)
    (hchange : ∀ l ∈ s.loads, l.id = number → (l.base ≠ [] → (change l).base ≠ []) ∧
      (change l).Traced m (s.drawn store m.statements) s.calls) :
    Traced store m (s.modifyLoad number change) := by
  have hids : (s.modifyLoad number change).loads.map Load.id = s.loads.map Load.id :=
    Faithful.modifyLoad_ids fun l _ _ => (hsame l).1
  -- calls and jobs speak of a load by its number, its query and whether it has a base
  have hretains : Retains s (s.modifyLoad number change) :=
    .modifyLoad hsame fun l hl hid => (hchange l hl hid).1
  have hdraws := Draws.Within.refl (s.drawn store m.statements)
  exact
    { h with
      joinable := fun f hf hattached => hretains.joins (h.joinable f hf hattached)
      distinct := hids ▸ h.distinct
      below := by
        intro l' hl'
        obtain ⟨l, hl, rfl⟩ := List.mem_map.mp hl'
        split
        · rw [(hsame l).1]
          exact h.below l hl
        · exact h.below l hl
      loads := by
        intro l' hl'
        obtain ⟨l, hl, rfl⟩ := List.mem_map.mp hl'
        split
        · rename_i hid
          exact (hchange l hl hid).2
        · exact h.loads l hl
      waiters := fun w hw => hretains.waits (h.waiters w hw)
      calls := fun i c hc => (h.calls i c hc).mono hdraws hretains
      jobs := fun j hj => (h.jobs j hj).mono hdraws hretains }

/-- A load starts that callers may not join yet. -/
theorem addLoad (h : Traced store m s) (hnew : ∀ l' ∈ s.loads, l'.id ≠ l.id)
    (hbelow : l.id < s.queries.started) (hl : l.Traced m (s.drawn store m.statements) s.calls) :
    Traced store m { s with loads := s.loads ++ [l] } := by
  have hretains := Retains.addLoad s l
  have hdraws := Draws.Within.refl (s.drawn store m.statements)
  have hcases : ∀ l' ∈ s.loads ++ [l], l' ∈ s.loads ∨ l' = l := fun l' hl' =>
    (List.mem_append.mp hl').imp_right List.mem_singleton.mp
  exact
    { h with
      joinable := fun f hf hattached => hretains.joins (h.joinable f hf hattached)
      distinct := ReadThrough.nodup_map_concat h.distinct hnew
      below := by
        intro l' hl'
        obtain hold | rfl := hcases l' hl'
        · exact h.below l' hold
        · exact hbelow
      loads := by
        intro l' hl'
        obtain hold | rfl := hcases l' hl'
        · exact h.loads l' hold
        · exact hl
      waiters := fun w hw => hretains.waits (h.waiters w hw)
      calls := fun i c hc => (h.calls i c hc).mono hdraws hretains
      jobs := fun j hj => (h.jobs j hj).mono hdraws hretains }

/-- A call changes, and keeps its text. -/
theorem modifyCall (h : Traced store m s) {change : Call → Call}
    (hchange : ∀ c, s.calls[i]? = some c → (change c).text = c.text ∧
      (change c).Traced m (s.drawn store m.statements) s.loads i) :
    Traced store m (s.modifyCall i change) := by
  have hretains : Retains s (s.modifyCall i change) := .modifyCall fun c hc => (hchange c hc).1
  have hdraws := Draws.Within.refl (s.drawn store m.statements)
  exact
    { h with
      passed :=
        { h.passed with
          calls := Nat.le_trans h.passed.calls
            (Nat.le_of_eq (List.length_modify change s.calls i).symm) }
      loads := fun l hl => (h.loads l hl).mono hdraws hretains
      calls := by
        intro k c' hc'
        obtain ⟨c, hc, ⟨rfl, rfl⟩ | ⟨-, rfl⟩⟩ := getElem?_modify_cases hc'
        · exact (hchange c hc).2
        · exact h.calls k c' hc
      jobs := fun j hj => (h.jobs j hj).mono hdraws hretains }

/-- A call is made. -/
theorem addCall (h : Traced store m s) (hload : c.load = none) (hunsettled : c.settled = none) :
    Traced store m { s with calls := s.calls ++ [c] } := by
  have hretains := Retains.addCall s c
  have hdraws := Draws.Within.refl (s.drawn store m.statements)
  exact
    { h with
      passed :=
        { h.passed with
          calls := by
            have hpassed := h.passed.calls
            show m.calls ≤ (s.calls ++ [c]).length
            rw [List.length_append]
            omega }
      loads := fun l hl => (h.loads l hl).mono hdraws hretains
      calls := by
        intro i c' hc'
        obtain hold | ⟨-, rfl⟩ := getElem?_concat_cases hc'
        · exact h.calls i c' hold
        · constructor
          · intro id hid
            rw [hload] at hid
            exact nomatch hid
          · intro result hresult
            rw [hunsettled] at hresult
            exact nomatch hresult
      jobs := fun j hj => (h.jobs j hj).mono hdraws hretains }

/-! ## A new mark -/

/-- If nothing is left that a call of the queries in question could get, the engine may be traced to
the present moment. -/
theorem remark (h : Traced store m s)
    (hforgotten : ∀ text q, readQuery text = .ok q → Chosen q → ¬ Has s.queries text)
    (hgraph : ∀ graph, ¬ s.graphs.store.Holds () graph)
    (hunderWay : ∀ f ∈ s.graphs.flights, f.attached = false) :
    Traced store (s.mark Chosen) s := by
  -- no load is fresh, and no call is one of those that are to come
  have hstale : ∀ l ∈ s.loads, ¬ l.Fresh (s.mark Chosen) := fun l hl hfresh =>
    absurd hfresh.1 (Nat.not_le.mpr (h.below l hl))
  have hearly : ∀ {i : Nat} {c : Call}, s.calls[i]? = some c → ¬ (s.mark Chosen).calls ≤ i := by
    intro i c hc
    obtain ⟨hi, -⟩ := List.getElem?_eq_some_iff.mp hc
    exact Nat.not_le.mpr hi
  have hsuits : ∀ {l : Load} {i : Nat} {c : Call}, s.calls[i]? = some c → l.Suits m i c.text →
      l.Suits (s.mark Chosen) i c.text := fun hc hsuits =>
    ⟨hsuits.1, fun hi => absurd hi (hearly hc)⟩
  have htells : ∀ {i : Nat} {c : Call} {draws draws' : Draws} {outcome : Outcome},
      s.calls[i]? = some c → m.Tells draws i c.text outcome →
      (s.mark Chosen).Tells draws' i c.text outcome := by
    rintro i c draws draws' outcome hc ⟨q, hquery, -⟩
    exact ⟨q, hquery, fun hi => absurd hi (hearly hc)⟩
  exact
    { recorded := h.recorded
      passed := ⟨Nat.le_refl _, Nat.le_refl _, Nat.le_refl _, Nat.le_refl _⟩
      indexed := h.indexed
      results := fun text outcome hholds q hquery hchosen =>
        absurd (.inl ⟨outcome, hholds⟩) (hforgotten text q hquery hchosen)
      joinable := by
        intro f hf hattached
        obtain ⟨l, hl, hid, hquery, -⟩ := h.joinable f hf hattached
        exact ⟨l, hl, hid, hquery, fun hchosen =>
          absurd (.inr ⟨f, hf, hattached, rfl⟩) (hforgotten f.key l.query hquery hchosen)⟩
      graph := fun graph hholds => absurd hholds (hgraph graph)
      underWay := by
        intro f hf hattached
        rw [hunderWay f hf] at hattached
        exact nomatch hattached
      distinct := h.distinct
      below := h.below
      loads := by
        intro l hl
        have htraced := h.loads l hl
        refine ⟨fun hfresh => absurd hfresh (hstale l hl), fun _ _ hfresh =>
          absurd hfresh (hstale l hl), ?_, ?_⟩
        · intro i hi
          obtain ⟨c, hc, hfits⟩ := htraced.subscribers i hi
          exact ⟨c, hc, hsuits hc hfits⟩
        · intro i signal hown
          obtain ⟨c, hc, hfits⟩ := htraced.own i signal hown
          exact ⟨c, hc, hsuits hc hfits⟩
      waiters := by
        intro w hw
        obtain ⟨l, hl, hid, hsome, -⟩ := h.waiters w hw
        exact ⟨l, hl, hid, hsome, fun hfresh => absurd hfresh (hstale l hl)⟩
      calls := by
        intro i c hc
        have htraced := h.calls i c hc
        constructor
        · intro id hid
          obtain ⟨l, hl, hlid, hfits⟩ := htraced.loaded id hid
          exact ⟨l, hl, hlid, hsuits hc hfits⟩
        · intro result hresult
          obtain ⟨htext, htold⟩ := htraced.settled result hresult
          exact ⟨htext, htells hc htold⟩
      jobs := by
        intro j hj
        have htraced := h.jobs j hj
        cases j with
        | subscribe call => trivial
        | settle id outcome =>
          obtain ⟨l, hl, hid, -⟩ := htraced
          exact ⟨l, hl, hid, fun _ _ hfresh => absurd hfresh (hstale l hl)⟩
        | settleGraph g graph =>
          exact ⟨htraced.1, fun _ _ hg => absurd hg (Nat.not_le.mpr htraced.1)⟩
        | deliverGraph id graph | resume id graph =>
          obtain ⟨l, hl, hid, hsome, -⟩ := htraced
          exact ⟨l, hl, hid, hsome, fun _ _ hfresh => absurd hfresh (hstale l hl)⟩
        | deliver i outcome | finish i outcome =>
          obtain ⟨c, hc, htold⟩ := htraced
          exact ⟨c, hc, fun out hout => htells hc (htold out hout)⟩ }

end Traced

end IssueQuery.Engine
