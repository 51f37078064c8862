import IssueQuery.Proofs.Engine.Invariant

/-!
# Changes that keep an engine faithful

One lemma for each kind of change that jobs and events are made of: to the caches, to a call, to a
load, to the jobs under way. None of them mentions the agenda, so changes may be taken in whatever
order suits the proof.

* `Faithful.also`, `Faithful.done` jobs come and go;
* `Faithful.setQueries`, `Faithful.setGraphs` the caches change;
* `Faithful.modifyCall`, `Faithful.addCall`, `Faithful.modifyLoad`, `Faithful.addLoad` calls and
  loads change.
-/

namespace IssueQuery.Engine.Faithful

variable {answers : Answers} {s s' : State} {l l' : Load} {c : Call} {J J' : Job → Prop} {job : Job}
  {number : Nat}

/-! ## Jobs -/

/-- More jobs are under way, all of them sound. -/
theorem also (h : Faithful answers s J) (hmore : ∀ j, J j → J' j)
    (hnew : ∀ j, J' j → J j ∨ j.Sound answers s) : Faithful answers s J' where
  results := h.results
  graph := h.graph
  distinct := h.distinct
  loads := h.loads
  calls := h.calls
  joinable := h.joinable
  jobs := fun j hj => (hnew j hj).elim (h.jobs j) id
  served := by
    intro i c hc hwaits
    obtain ⟨j, hj, hserves⟩ | htold := h.served i c hc hwaits
    · exact .inl ⟨j, hmore j hj, hserves⟩
    · exact .inr htold
  furthered := by
    intro l hl hwanted hended
    obtain ⟨j, hj, hfurthers⟩ := h.furthered l hl hwanted hended
    exact ⟨j, hmore j hj, hfurthers⟩
  underWay := by
    intro f hf hattached
    obtain ⟨graph, hj⟩ := h.underWay f hf hattached
    exact ⟨graph, hmore _ hj⟩

/-- The same jobs are under way. -/
theorem congr (h : Faithful answers s J) (hsame : ∀ j, J' j ↔ J j) : Faithful answers s J' :=
  h.also (fun j => (hsame j).mpr) fun j hj => .inl ((hsame j).mp hj)

/-- A job that is about to be done will leave new jobs behind. -/
theorem announce (h : Faithful answers s fun j => j = job ∨ J j) {New : Job → Prop}
    (hsound : ∀ j, New j → j.Sound answers s) :
    Faithful answers s fun j => j = job ∨ New j ∨ J j := by
  apply h.also
  · exact fun j hj => hj.imp_right .inr
  · rintro j (hj | hnew | hj)
    · exact .inl (.inl hj)
    · exact .inr (hsound j hnew)
    · exact .inl (.inr hj)

/-- A job is done that nobody depends on any more. -/
theorem done (h : Faithful answers s fun j => j = job ∨ J j)
    (hserved : ∀ (i : Nat) (c : Call), s.calls[i]? = some c → c.Waits s → job.Serves s i →
      (∃ j, J j ∧ j.Serves s i) ∨ s.Told i)
    (hfurthered : ∀ l ∈ s.loads, l.control = .shared none → l.ended = none → job.Furthers s l →
      ∃ j, J j ∧ j.Furthers s l)
    (hunderWay : ∀ f ∈ s.graphs.flights, f.attached = true → ∀ graph,
      job = .settleGraph f.id graph → ∃ graph, J (.settleGraph f.id graph)) :
    Faithful answers s J where
  results := h.results
  graph := h.graph
  distinct := h.distinct
  loads := h.loads
  calls := h.calls
  joinable := h.joinable
  jobs := fun j hj => h.jobs j (.inr hj)
  served := by
    -- what was promised by the job that goes is promised by another, or has been kept
    intro i c hc hwaits
    obtain ⟨j, rfl | hj, hserves⟩ | htold := h.served i c hc hwaits
    · exact hserved i c hc hwaits hserves
    · exact .inl ⟨j, hj, hserves⟩
    · exact .inr htold
  furthered := by
    intro l hl hwanted hended
    obtain ⟨j, rfl | hj, hfurthers⟩ := h.furthered l hl hwanted hended
    · exact hfurthered l hl hwanted hended hfurthers
    · exact ⟨j, hj, hfurthers⟩
  underWay := by
    intro f hf hattached
    obtain ⟨graph, hsame | hj⟩ := h.underWay f hf hattached
    · exact hunderWay f hf hattached graph hsame.symm
    · exact ⟨graph, hj⟩

/-- A job is done that was to bring a call to its result, but the call does not wait for it. -/
theorem doneServing (h : Faithful answers s fun j => j = job ∨ J j) (honly : job.onlyServes = true)
    (hserved : ∀ (i : Nat) (c : Call), s.calls[i]? = some c → c.Waits s → job.Serves s i →
      (∃ j, J j ∧ j.Serves s i) ∨ s.Told i) : Faithful answers s J := by
  apply h.done hserved
  · exact fun l _ _ _ hfurthers => absurd hfurthers (Job.not_furthers honly)
  · rintro f _ _ graph rfl
    cases honly

/-- A job takes the place of another one. -/
theorem replace (h : Faithful answers s fun j => j = job ∨ J j) (new : Job)
    (hsound : new.Sound answers s)
    (hserved : ∀ i, job.Serves s i → new.Serves s i)
    (hfurthered : ∀ l ∈ s.loads, l.control = .shared none → job.Furthers s l → new.Furthers s l)
    (hother : job.settlesGraph = false) : Faithful answers s fun j => j = new ∨ J j := by
  -- both jobs are under way for a moment, and then the first one is done
  have hboth : Faithful answers s fun j => j = job ∨ j = new ∨ J j := by
    apply h.announce
    rintro _ rfl
    exact hsound
  apply hboth.done
  · intro i c _ _ hserves
    exact .inl ⟨new, .inl rfl, hserved i hserves⟩
  · intro l hl hwanted _ hfurthers
    exact ⟨new, .inl rfl, hfurthered l hl hwanted hfurthers⟩
  · rintro f _ _ graph rfl
    cases hother

/-! ## Caches, signals and the clock -/

/-- Neither the loads nor the calls change, and the caches stay right. -/
theorem transfer (h : Faithful answers s J) (hloads : s'.loads = s.loads)
    (hcalls : s'.calls = s.calls) (hwaiters : s'.graphWaiters = s.graphWaiters)
    (hsignals : ∀ signal, s'.reason? signal = none → s.reason? signal = none)
    (hstarted : s.queries.started ≤ s'.queries.started)
    (hresults : ∀ text outcome, s'.queries.store.Holds text outcome →
      answers.expected text = .ok outcome)
    (hgraph : ∀ graph, s'.graphs.store.Holds () graph → answers.graph = .ok graph)
    (hjoinable : ∀ f ∈ s'.queries.flights, f.attached = true → s.Joinable f)
    (hunderWay : ∀ f ∈ s'.graphs.flights, f.attached = true →
      ∃ graph, J (.settleGraph f.id graph)) : Faithful answers s' J := by
  have hs : s.Becomes s' :=
    { signals := hsignals
      started := hstarted
      loads := fun l hl => ⟨l, hloads ▸ hl, Load.Becomes.refl l, fun _ => rfl⟩
      calls := fun i c hc => ⟨c, hcalls ▸ hc, Call.Becomes.refl c⟩ }
  exact
    { results := hresults
      graph := hgraph
      distinct := hloads ▸ h.distinct
      loads := fun l hl => hs.load (h.loads l (hloads ▸ hl))
      calls := fun i c hc => hs.call (h.calls i c (hcalls ▸ hc)) hc
      joinable := by
        intro f hf hattached
        rw [State.Joinable, hloads]
        exact hjoinable f hf hattached
      jobs := fun j hj => hs.job (h.jobs j hj)
      served := by
        intro i c hc hwaits
        obtain ⟨j, hj, hserves⟩ | ⟨l, hl, htold⟩ :=
          h.served i c (hcalls ▸ hc) ((Call.Becomes.refl c).waits hs hwaits)
        · exact .inl ⟨j, hj, hs.serves hserves⟩
        · exact .inr ⟨l, hloads ▸ hl, htold⟩
      furthered := by
        intro l hl hwanted hended
        obtain ⟨j, hj, hfurthers⟩ := h.furthered l (hloads ▸ hl) hwanted hended
        exact ⟨j, hj, hfurthers.mono rfl rfl fun g hg => hwaiters ▸ hg⟩
      underWay := hunderWay }

/-- The agenda does not matter. -/
theorem agenda (h : Faithful answers s J) (agenda : List (Nat × Job)) :
    Faithful answers { s with agenda := agenda } J :=
  h.transfer rfl rfl rfl (fun _ => id) (Nat.le_refl _) h.results h.graph
    h.joinable h.underWay

theorem frame (h : Faithful answers s J) (hframe : Frame s s') : Faithful answers s' J := by
  apply h.transfer hframe.loads hframe.calls hframe.graphWaiters
  · intro signal hquiet
    rwa [State.reason?, hframe.signals] at hquiet
  · exact Nat.le_of_eq hframe.queriesStarted.symm
  · exact fun text outcome hholds => h.results text outcome (hframe.queriesHold text outcome hholds)
  · exact fun graph hholds => h.graph graph (hframe.graphsHold graph hholds)
  · intro f hf hattached
    exact h.joinable f (hframe.queryFlights ▸ hf) hattached
  · intro f hf
    exact h.underWay f (hframe.graphFlights ▸ hf)

/-- The cache of results changes. -/
theorem setQueries (h : Faithful answers s J) (queries : ReadThrough Text Outcome)
    (hstarted : s.queries.started ≤ queries.started)
    (hresults : ∀ text outcome, queries.store.Holds text outcome →
      answers.expected text = .ok outcome)
    (hjoinable : ∀ f ∈ queries.flights, f.attached = true → s.Joinable f) :
    Faithful answers { s with queries := queries } J :=
  h.transfer rfl rfl rfl (fun _ => id) hstarted hresults h.graph hjoinable h.underWay

/-- The cache of the graph changes. -/
theorem setGraphs (h : Faithful answers s J) (graphs : ReadThrough Unit Graph)
    (hgraph : ∀ graph, graphs.store.Holds () graph → answers.graph = .ok graph)
    (hunderWay : ∀ f ∈ graphs.flights, f.attached = true →
      ∃ graph, J (.settleGraph f.id graph)) : Faithful answers { s with graphs := graphs } J :=
  h.transfer rfl rfl rfl (fun _ => id) (Nat.le_refl _) h.results hgraph
    h.joinable hunderWay

/-- A signal aborts, and nobody has been turned away yet. -/
theorem signal (h : Faithful answers s J) (signal reason : Text) :
    Faithful answers { s with signals := s.signals ++ [(signal, reason)] } J := by
  have hquiet : ∀ name, { s with signals := s.signals ++ [(signal, reason)] }.reason? name = none →
      s.reason? name = none := by
    intro name hquiet
    cases name with
    | none => rfl
    | some name =>
      simp only [State.reason?, Option.bind_some, List.lookup_append, Option.or_eq_none_iff]
        at hquiet
      exact hquiet.1
  exact h.transfer rfl rfl rfl hquiet (Nat.le_refl _) h.results h.graph
    h.joinable h.underWay

/-! ## Calls -/

/-- A call changes, and stays what it is for. -/
theorem modifyCall (h : Faithful answers s J) {change : Call → Call}
    (hchange : ∀ c, s.calls[number]? = some c → c.Becomes (change c) ∧ (change c).Sound answers s) :
    Faithful answers (s.modifyCall number change) J := by
  -- every call comes from a call at the same place, the one that changed or not
  have hcalls : ∀ (i : Nat) (c' : Call), (s.modifyCall number change).calls[i]? = some c' →
      ∃ c, s.calls[i]? = some c ∧ c.Becomes c' ∧ c'.Sound answers s := by
    intro i c' hc'
    obtain ⟨c, hc, ⟨rfl, rfl⟩ | ⟨-, rfl⟩⟩ := getElem?_modify_cases hc'
    · exact ⟨c, hc, hchange c hc⟩
    · exact ⟨c', hc, Call.Becomes.refl c', h.calls i c' hc⟩
  have hs : s.Becomes (s.modifyCall number change) :=
    { signals := fun _ => id
      started := Nat.le_refl _
      loads := fun l hl => ⟨l, hl, Load.Becomes.refl l, fun _ => rfl⟩
      calls := by
        intro i c hc
        obtain ⟨c', hc', ⟨rfl, rfl⟩ | ⟨-, rfl⟩⟩ := exists_getElem?_modify hc number change
        · exact ⟨_, hc', (hchange c hc).1⟩
        · exact ⟨c', hc', Call.Becomes.refl c'⟩ }
  exact
    { results := h.results
      graph := h.graph
      distinct := h.distinct
      loads := fun l hl => hs.load (h.loads l hl)
      calls := by
        intro i c' hc'
        obtain ⟨c, -, -, hsound⟩ := hcalls i c' hc'
        exact hs.call hsound hc'
      joinable := h.joinable
      jobs := fun j hj => hs.job (h.jobs j hj)
      served := by
        intro i c' hc' hwaits
        obtain ⟨c, hc, hbecomes, -⟩ := hcalls i c' hc'
        obtain ⟨j, hj, hserves⟩ | htold := h.served i c hc (hbecomes.waits hs hwaits)
        · exact .inl ⟨j, hj, hs.serves hserves⟩
        · exact .inr htold
      furthered := h.furthered
      underWay := h.underWay }

/-- A call is made. If it waits, a job brings it to its result. -/
theorem addCall (h : Faithful answers s J) (hc : c.Sound answers s) (hmore : ∀ j, J j → J' j)
    (hnew : ∀ j, J' j → J j ∨ j.Sound answers { s with calls := s.calls ++ [c] })
    (hserved : c.Waits s → ∃ j, J' j ∧ j.Serves { s with calls := s.calls ++ [c] } s.calls.length) :
    Faithful answers { s with calls := s.calls ++ [c] } J' := by
  have hs : s.Becomes { s with calls := s.calls ++ [c] } :=
    { signals := fun _ => id
      started := Nat.le_refl _
      loads := fun l hl => ⟨l, hl, Load.Becomes.refl l, fun _ => rfl⟩
      calls := fun _ c' hc' => ⟨c', getElem?_concat hc' c, Call.Becomes.refl c'⟩ }
  exact
    { results := h.results
      graph := h.graph
      distinct := h.distinct
      loads := fun l hl => hs.load (h.loads l hl)
      calls := by
        intro i c' hc'
        obtain hold | ⟨rfl, rfl⟩ := getElem?_concat_cases hc'
        · exact hs.call (h.calls i c' hold) hc'
        · exact hs.call hc hc'
      joinable := h.joinable
      jobs := fun j hj => (hnew j hj).elim (fun hold => hs.job (h.jobs j hold)) id
      served := by
        intro i c' hc' hwaits
        obtain hold | ⟨rfl, rfl⟩ := getElem?_concat_cases hc'
        · obtain ⟨j, hj, hserves⟩ | htold := h.served i c' hold hwaits
          · exact .inl ⟨j, hmore j hj, hs.serves hserves⟩
          · exact .inr htold
        · -- only the new call needs a job of its own
          exact .inl (hserved hwaits)
      furthered := by
        intro l hl hwanted hended
        obtain ⟨j, hj, hfurthers⟩ := h.furthered l hl hwanted hended
        exact ⟨j, hmore j hj, hfurthers.mono rfl rfl fun _ => id⟩
      underWay := by
        intro f hf hattached
        obtain ⟨graph, hj⟩ := h.underWay f hf hattached
        exact ⟨graph, hmore _ hj⟩ }

/-! ## Loads -/

/-- A load that callers may join has not ended and was not called off. -/
theorem joinable_of_id (h : Faithful answers s J) (hl : l ∈ s.loads) {f : Flight Text}
    (hf : f ∈ s.queries.flights) (hattached : f.attached = true) (hid : f.id = l.id) :
    l.control = .shared none ∧ l.ended = none ∧ readQuery f.key = .ok l.query := by
  obtain ⟨l', hl', hid', hfits⟩ := h.joinable f hf hattached
  obtain rfl := List.inj_on_of_nodup_map h.distinct hl' hl (hid'.trans hid)
  exact hfits

theorem mem_modifyLoad {change : Load → Load} (hdistinct : (s.loads.map Load.id).Nodup)
    (hl : l ∈ s.loads) (hl' : l' ∈ (s.modifyLoad l.id change).loads) :
    l' = change l ∨ l' ∈ s.loads ∧ l'.id ≠ l.id := by
  obtain ⟨l₀, hl₀, rfl⟩ := List.mem_map.mp hl'
  split
  · rename_i hid
    exact .inl (congrArg change (List.inj_on_of_nodup_map hdistinct hl₀ hl hid))
  · rename_i hid
    exact .inr ⟨hl₀, hid⟩

theorem modifyLoad_ids {change : Load → Load} (hid : ∀ l ∈ s.loads, l.id = number →
    (change l).id = l.id) : (s.modifyLoad number change).loads.map Load.id = s.loads.map Load.id := by
  rw [State.modifyLoad, List.map_map]
  apply List.map_congr_left
  intro l hl
  dsimp only [Function.comp]
  split
  · rename_i hnumber
    exact hid l hl hnumber
  · rfl

/-- A load changes, and stays what it is for. Whoever waits for it to end, or to be told by it, is
seen to by a job if not by the load as it is now. -/
theorem modifyLoad (h : Faithful answers s J) (hl : l ∈ s.loads) {change : Load → Load}
    (waiters : List (Nat × Nat)) (hbecomes : l.Becomes (change l))
    (hsound : (change l).Sound answers s)
    (hawaited : (∃ (i : Nat) (c : Call), s.calls[i]? = some c ∧ c.Waits s ∧ c.load = some l.id) →
      (change l).control = l.control)
    (hjoinable : ∀ f ∈ s.queries.flights, f.attached = true → f.id = l.id →
      (change l).control = l.control ∧ (change l).ended = none)
    (htold : ∀ i ∈ l.subscribers, l.ended = none → (∃ j, J j ∧ j.Serves s i) ∨
      (change l).ended = none ∧ i ∈ (change l).subscribers)
    (hfurthered : (change l).control = .shared none → (change l).ended = none →
      ∃ j, J j ∧ j.Furthers { s with graphWaiters := waiters } (change l))
    (hwaiters : ∀ w ∈ s.graphWaiters, w.2 ≠ l.id → w ∈ waiters) :
    Faithful answers { s.modifyLoad l.id change with graphWaiters := waiters } J := by
  have hchanged : change l ∈ (s.modifyLoad l.id change).loads :=
    List.mem_map.mpr ⟨l, hl, if_pos rfl⟩
  have hothers : ∀ l' ∈ s.loads, l'.id ≠ l.id → l' ∈ (s.modifyLoad l.id change).loads :=
    fun l' hl' hid => List.mem_map.mpr ⟨l', hl', if_neg hid⟩
  -- numbers are distinct, so the load that changes is no other one
  have hs : s.Becomes { s.modifyLoad l.id change with graphWaiters := waiters } :=
    { signals := fun _ => id
      started := Nat.le_refl _
      loads := by
        intro l' hl'
        by_cases hid : l'.id = l.id
        · obtain rfl := List.inj_on_of_nodup_map h.distinct hl' hl hid
          exact ⟨change l', hchanged, hbecomes, hawaited⟩
        · exact ⟨l', hothers l' hl' hid, Load.Becomes.refl l', fun _ => rfl⟩
      calls := fun i c hc => ⟨c, hc, Call.Becomes.refl c⟩ }
  have hids : (s.modifyLoad l.id change).loads.map Load.id = s.loads.map Load.id := by
    apply modifyLoad_ids
    intro l' hl' hid
    obtain rfl := List.inj_on_of_nodup_map h.distinct hl' hl hid
    exact hbecomes.id
  exact
    { results := h.results
      graph := h.graph
      distinct := hids ▸ h.distinct
      loads := by
        intro l' hl'
        obtain rfl | ⟨hold, -⟩ := mem_modifyLoad h.distinct hl hl'
        · exact hs.load hsound
        · exact hs.load (h.loads l' hold)
      calls := fun i c hc => hs.call (h.calls i c hc) hc
      joinable := by
        intro f hf hattached
        obtain ⟨l', hl', hid, hcontrol, hended, hquery⟩ := h.joinable f hf hattached
        by_cases hsame : l'.id = l.id
        · obtain rfl := List.inj_on_of_nodup_map h.distinct hl' hl hsame
          obtain ⟨hcontrol', hended'⟩ := hjoinable f hf hattached hid.symm
          refine ⟨change l', hchanged, hbecomes.id.trans hid, hcontrol'.trans hcontrol, hended', ?_⟩
          rw [hbecomes.query]
          exact hquery
        · exact ⟨l', hothers l' hl' hsame, hid, hcontrol, hended, hquery⟩
      jobs := fun j hj => hs.job (h.jobs j hj)
      served := by
        intro i c hc hwaits
        obtain ⟨j, hj, hserves⟩ | ⟨l', hl', hended, hi⟩ := h.served i c hc hwaits
        · exact .inl ⟨j, hj, hs.serves hserves⟩
        · by_cases hid : l'.id = l.id
          · obtain rfl := List.inj_on_of_nodup_map h.distinct hl' hl hid
            obtain ⟨j, hj, hserves⟩ | htold := htold i hi hended
            · exact .inl ⟨j, hj, hs.serves hserves⟩
            · exact .inr ⟨change l', hchanged, htold⟩
          · exact .inr ⟨l', hothers l' hl' hid, hended, hi⟩
      furthered := by
        intro l' hl' hwanted hended
        obtain rfl | ⟨hold, hid⟩ := mem_modifyLoad h.distinct hl hl'
        · obtain ⟨j, hj, hfurthers⟩ := hfurthered hwanted hended
          exact ⟨j, hj, hfurthers.mono rfl rfl fun _ => id⟩
        · obtain ⟨j, hj, hfurthers⟩ := h.furthered l' hold hwanted hended
          exact ⟨j, hj, hfurthers.mono rfl rfl fun g hg => hwaiters _ hg hid⟩
      underWay := h.underWay }

/-- One call more will be told the outcome of a load. -/
theorem addSubscriber (h : Faithful answers s J) (hl : l ∈ s.loads) (hended : l.ended = none)
    (hc : s.calls[number]? = some c) (hload : c.load = some l.id) :
    Faithful answers
      (s.modifyLoad l.id fun l => { l with subscribers := l.subscribers ++ [number] }) J := by
  have hsound := h.loads l hl
  apply h.modifyLoad hl s.graphWaiters ⟨rfl, rfl, rfl, .inl rfl⟩
  · exact
      { below := hsound.below
        ended := hsound.ended
        based := hsound.based
        subscribers := by
          intro i hi
          obtain hold | hnew := List.mem_append.mp hi
          · exact hsound.subscribers i hold
          · obtain rfl := List.mem_singleton.mp hnew
            exact ⟨c, hc, hload⟩
        own := hsound.own }
  · exact fun _ => rfl
  · exact fun _ _ _ _ => ⟨rfl, hended⟩
  · exact fun i hi _ => .inr ⟨hended, List.mem_append_left _ hi⟩
  · intro hwanted _
    obtain ⟨j, hj, hfurthers⟩ := h.furthered l hl hwanted hended
    exact ⟨j, hj, hfurthers.mono rfl rfl fun _ => id⟩
  · exact fun w hw _ => hw

theorem told_addSubscriber (hl : l ∈ s.loads) (hended : l.ended = none) :
    (s.modifyLoad l.id fun l => { l with subscribers := l.subscribers ++ [number] }).Told number :=
  ⟨_, List.mem_map.mpr ⟨l, hl, if_pos rfl⟩, hended,
    List.mem_append_right _ (List.mem_singleton.mpr rfl)⟩

/-- A load starts. If it is shared, a job brings it to its end. -/
theorem addLoad (h : Faithful answers s J) (hl : l.Sound answers s)
    (hfresh : ∀ l' ∈ s.loads, l'.id ≠ l.id) (hmore : ∀ j, J j → J' j)
    (hnew : ∀ j, J' j → J j ∨ j.Sound answers { s with loads := s.loads ++ [l] })
    (hfurthered : l.control = .shared none → ∃ j, J' j ∧ j.Furthers s l) :
    Faithful answers { s with loads := s.loads ++ [l] } J' := by
  have hs : s.Becomes { s with loads := s.loads ++ [l] } :=
    { signals := fun _ => id
      started := Nat.le_refl _
      loads := fun l' hl' =>
        ⟨l', List.mem_append_left _ hl', Load.Becomes.refl l', fun _ => rfl⟩
      calls := fun i c hc => ⟨c, hc, Call.Becomes.refl c⟩ }
  have hloads : ∀ l' ∈ s.loads ++ [l], l' ∈ s.loads ∨ l' = l := by
    intro l' hl'
    exact (List.mem_append.mp hl').imp_right List.mem_singleton.mp
  exact
    { results := h.results
      graph := h.graph
      distinct := ReadThrough.nodup_map_concat h.distinct hfresh
      loads := by
        intro l' hl'
        obtain hold | rfl := hloads l' hl'
        · exact hs.load (h.loads l' hold)
        · exact hs.load hl
      calls := fun i c hc => hs.call (h.calls i c hc) hc
      joinable := by
        intro f hf hattached
        obtain ⟨l', hl', hfits⟩ := h.joinable f hf hattached
        exact ⟨l', List.mem_append_left _ hl', hfits⟩
      jobs := fun j hj => (hnew j hj).elim (fun hold => hs.job (h.jobs j hold)) id
      served := by
        intro i c hc hwaits
        obtain ⟨j, hj, hserves⟩ | ⟨l', hl', htold⟩ := h.served i c hc hwaits
        · exact .inl ⟨j, hmore j hj, hs.serves hserves⟩
        · exact .inr ⟨l', List.mem_append_left _ hl', htold⟩
      furthered := by
        intro l' hl' hwanted hended
        obtain hold | rfl := hloads l' hl'
        · obtain ⟨j, hj, hfurthers⟩ := h.furthered l' hold hwanted hended
          exact ⟨j, hmore j hj, hfurthers.mono rfl rfl fun _ => id⟩
        · -- the new load goes on by the job that comes with it
          obtain ⟨j, hj, hfurthers⟩ := hfurthered hwanted
          exact ⟨j, hj, hfurthers.mono rfl rfl fun _ => id⟩
      underWay := by
        intro f hf hattached
        obtain ⟨graph, hj⟩ := h.underWay f hf hattached
        exact ⟨graph, hmore _ hj⟩ }

end IssueQuery.Engine.Faithful
