import IssueQuery.Proofs.Engine.Meanwhile
import IssueQuery.Proofs.Engine.Turns

/-!
# Aborts keep an engine faithful

A load is called off when the last of its callers leaves. That it is the last one is told by the
counters of the load: they never count fewer callers than there are calls that wait, so a load that
some call still waits for is not called off.

* `Counted`         the counters of the loads against the calls that wait;
* `abort_faithful`  an abort disturbs nobody but the calls that carry its signal.
-/

namespace IssueQuery.Engine

variable {answers : Answers} {store : Store} {cfg : Settings} {s s' : State} {c : Call}
  {J : Job → Prop} {queries queries' : ReadThrough Text Outcome} {calls calls' : List Call}
  {i load : Nat} {signal reason : Text}

/-! ## Callers on the count of a load -/

/-- The call has a load and has not got its result. -/
def Call.isWaiting (load : Nat) (c : Call) : Bool := c.load == some load && c.settled.isNone

/-- The number of calls that have a load and have not got their result. -/
def waiting (calls : List Call) (load : Nat) : Nat := calls.countP (Call.isWaiting load)

/-- Of the callers that joined a load and did not leave it there are at least as many as there are
calls that wait for it. -/
structure Counted (queries : ReadThrough Text Outcome) (calls : List Call) : Prop where
  below : ∀ f ∈ queries.flights, f.id < queries.started
  count : ∀ f ∈ queries.flights, f.departed + waiting calls f.id ≤ f.waiters

theorem countP_modify {α : Type} {p : α → Bool} {change : α → α} {items : List α} {a : α}
    (h : items[i]? = some a) :
    (items.modify i change).countP p + (if p a then 1 else 0) =
      items.countP p + if p (change a) then 1 else 0 := by
  induction items generalizing i with
  | nil => cases h
  | cons first rest ih =>
    cases i with
    | zero =>
      obtain rfl : first = a := Option.some.inj h
      rw [List.modify_zero_cons, List.countP_cons, List.countP_cons]
      omega
    | succ i =>
      have hrest := ih h
      rw [List.modify_succ_cons, List.countP_cons, List.countP_cons]
      omega

theorem waiting_modify {change : Call → Call} (hc : calls[i]? = some c) :
    waiting (calls.modify i change) load + (if c.isWaiting load then 1 else 0) =
      waiting calls load + if (change c).isWaiting load then 1 else 0 :=
  countP_modify hc

theorem two_le_waiting {j : Nat} {c' : Call} (hc : calls[i]? = some c) (hc' : calls[j]? = some c')
    (hne : i ≠ j) (hwaits : c.isWaiting load = true) (hwaits' : c'.isWaiting load = true) :
    2 ≤ waiting calls load := by
  -- take the one call away: the other one still counts
  let gone : Call → Call := fun c => { c with load := none }
  have hless : waiting (calls.modify i gone) load + (if c.isWaiting load then 1 else 0) =
      waiting calls load + if (gone c).isWaiting load then 1 else 0 := waiting_modify hc
  have hleft : 0 < waiting (calls.modify i gone) load := by
    have hmem : (calls.modify i gone)[j]? = some c' := by
      rw [List.getElem?_modify, hc']
      exact congrArg some (if_neg hne)
    exact List.countP_pos_iff.mpr ⟨c', List.mem_of_getElem? hmem, hwaits'⟩
  rw [if_pos hwaits, if_neg (by simp [Call.isWaiting, gone])] at hless
  omega

/-- A call that stops to wait, or just changes, makes no load have more calls. -/
theorem waiting_modify_le {change : Call → Call} (hmeek : MeekChange change) :
    waiting (calls.modify i change) load ≤ waiting calls load := by
  cases hc : calls[i]? with
  | none =>
    have hsame : calls.modify i change = calls :=
      List.modify_eq_self (List.getElem?_eq_none_iff.mp hc)
    exact Nat.le_of_eq (congrArg (waiting · load) hsame)
  | some c =>
    have hcount : waiting (calls.modify i change) load + (if c.isWaiting load then 1 else 0) =
        waiting calls load + if (change c).isWaiting load then 1 else 0 := waiting_modify hc
    have hless : (change c).isWaiting load = true → c.isWaiting load = true := by
      simp only [Call.isWaiting, Bool.and_eq_true, Option.isNone_iff_eq_none, hmeek.load]
      exact fun hwaits => ⟨hwaits.1, hmeek.settled c hwaits.2⟩
    by_cases hstill : (change c).isWaiting load = true
    · rw [if_pos hstill, if_pos (hless hstill)] at hcount
      omega
    · rw [if_neg hstill] at hcount
      omega

namespace Counted

/-- Loads end and calls stop to wait. -/
theorem mono (h : Counted queries calls) (hflights : ∀ f ∈ queries'.flights, f ∈ queries.flights)
    (hstarted : queries.started ≤ queries'.started)
    (hcalls : ∀ load, waiting calls' load ≤ waiting calls load) : Counted queries' calls' where
  below := fun f hf => Nat.lt_of_lt_of_le (h.below f (hflights f hf)) hstarted
  count := by
    intro f hf
    have hcount := h.count f (hflights f hf)
    have hless := hcalls f.id
    omega

theorem frame (h : Counted s.queries s.calls) (hframe : Frame s s') :
    Counted s'.queries s'.calls := by
  apply h.mono
  · exact fun f hf => hframe.queryFlights ▸ hf
  · exact Nat.le_of_eq hframe.queriesStarted.symm
  · exact fun load => Nat.le_of_eq (by rw [hframe.calls])

theorem settleCall (h : Counted s.queries s.calls) (result : Except Rejection Result) :
    Counted (s.settleCall i result).queries (s.settleCall i result).calls :=
  h.mono (fun _ => id) (Nat.le_refl _) fun _ => waiting_modify_le (meekChange_settle result)

/-- A job makes no load have more calls. -/
theorem effect (h : Counted s.queries s.calls) (heffect : Effect s s') :
    Counted s'.queries s'.calls := by
  apply h.mono heffect.flights (Nat.le_of_eq heffect.started.symm)
  intro load
  obtain hsame | ⟨i, change, hcalls, hmeek⟩ := heffect.calls
  · exact Nat.le_of_eq (congrArg (waiting · load) hsame)
  · rw [hcalls]
    exact waiting_modify_le hmeek

theorem tick (hsteady : Steady store answers) (h : Counted s.queries s.calls)
    (hs : Ticked cfg store s s') : Counted s'.queries s'.calls := by
  cases hs with
  | idle | putOff => exact h
  | @due _ rest _ _ hs =>
    have hrest : Counted { s with agenda := rest }.queries { s with agenda := rest }.calls := h
    exact hrest.effect (hs.effect_of_steady hsteady)

/-- A call that waits leaves its load. -/
theorem leave (h : Counted queries calls) (hc : calls[i]? = some c)
    (hwaits : c.isWaiting load = true) {change : Call → Call}
    (hchange : (change c).settled.isSome) :
    Counted (queries.leave load).2 (calls.modify i change) where
  below := by
    intro f hf
    obtain ⟨g, hg, hid, -⟩ := ReadThrough.exists_of_mem_leave hf
    rw [ReadThrough.leave_started, ← hid]
    exact h.below g hg
  count := by
    intro f hf
    rw [ReadThrough.leave_flights] at hf
    obtain ⟨g, hg, rfl⟩ := List.mem_map.mp hf
    have hcount := h.count g hg
    have hgone : ∀ other, (change c).isWaiting other = false := by
      intro other
      rw [Call.isWaiting, Option.isNone_eq_false_iff.mpr hchange, Bool.and_false]
    have hmodify : waiting (calls.modify i change) g.id + (if c.isWaiting g.id then 1 else 0) =
        waiting calls g.id + if (change c).isWaiting g.id then 1 else 0 := waiting_modify hc
    -- one caller less that waits, one more that has left: the sum does not grow
    rw [hgone g.id] at hmodify
    split
    · rename_i hid
      rw [hid] at hmodify hcount
      rw [hwaits] at hmodify
      simp only [if_true, Bool.false_eq_true, if_false, hid] at hmodify ⊢
      omega
    · simp only [Bool.false_eq_true, if_false] at hmodify
      omega

/-- The last caller of a load leaves no other call behind that waits for it. -/
theorem of_isLast (h : Counted queries calls) (hlast : (queries.leave load).1 = true) :
    waiting calls load ≤ 1 := by
  unfold ReadThrough.leave at hlast
  split at hlast
  · cases hlast
  · rename_i f hfound
    obtain ⟨hf, rfl⟩ := ReadThrough.mem_of_flight? hfound
    have hcount := h.count f hf
    simp only [beq_iff_eq] at hlast
    omega

end Counted

/-! ## Turning calls away -/

namespace Faithful

/-- A shared load is called off that no call waits for and that nobody can join. -/
theorem callOff (h : Faithful answers s J) {l : Load} (hl : l ∈ s.loads)
    (hshared : ∃ aborted, l.control = .shared aborted)
    (hnobody : ∀ (i : Nat) (c : Call), s.calls[i]? = some c → c.Waits s → c.load ≠ some l.id)
    (hdetached : ∀ f ∈ s.queries.flights, f.id = l.id → f.attached = false) :
    Faithful answers (s.callOff l.id signal reason) J := by
  have hsound := h.loads l hl
  -- whichever graph the load waited for, the load itself changes in the same way
  have hoff : ∀ waiters : List (Nat × Nat), (∀ w ∈ s.graphWaiters, w.2 ≠ l.id → w ∈ waiters) →
      Faithful answers { s.modifyLoad l.id fun l => { l with
        control := .shared (some (signal, reason)), graphLoad := none } with
        graphWaiters := waiters } J := by
    intro waiters hwaiters
    apply h.modifyLoad hl waiters ⟨rfl, rfl, rfl, .inr ⟨hshared, _, rfl⟩⟩
    · exact
        { below := hsound.below
          ended := fun _ _ hwanted => nomatch hwanted
          based := fun hnone => nomatch hnone
          subscribers := hsound.subscribers
          own := fun _ _ hown => nomatch hown }
    · rintro ⟨i, c, hc, hwaits, hload⟩
      exact absurd hload (hnobody i c hc hwaits)
    · intro f hf hattached hid
      rw [hdetached f hf hid] at hattached
      cases hattached
    · exact fun i hi hended => .inr ⟨hended, hi⟩
    · intro hwanted
      cases hwanted
    · exact hwaiters
  obtain ⟨graphs, waiters, hcallOff, hgraphs, -, hwaiters⟩ := callOff_eq s l.id signal reason
  rw [hcallOff]
  obtain rfl | ⟨g, rfl⟩ := hgraphs
  · exact hoff waiters hwaiters
  -- the load also leaves the graph, which does not keep others from it
  · apply (hoff waiters hwaiters).setGraphs (s.graphs.leave g).2
    · intro graph hholds
      rw [ReadThrough.leave_store] at hholds
      exact h.graph graph hholds
    · intro f hf hattached
      obtain ⟨f', hf', hid, -, hattached', -⟩ := ReadThrough.exists_of_mem_leave hf
      rw [← hid]
      exact h.underWay f' hf' (hattached' hattached)

/-- A call whose signal has aborted is turned away from the load that it waits for. -/
theorem turnAway (h : Faithful answers s J) (hcounted : Counted s.queries s.calls)
    (hc : s.calls[i]? = some c) (hwaits : c.isWaiting load = true)
    (hsignal : s.reason? c.signal ≠ none) :
    Faithful answers (s.turnAway signal reason i) J := by
  simp only [Call.isWaiting, Bool.and_eq_true, beq_iff_eq, Option.isNone_iff_eq_none] at hwaits
  obtain ⟨hload, hunsettled⟩ := hwaits
  have hleft : Faithful answers { s with queries := (s.queries.leave load).2 } J := by
    apply h.setQueries
    · exact Nat.le_of_eq ReadThrough.leave_started.symm
    · intro text outcome hholds
      rw [ReadThrough.leave_store] at hholds
      exact h.results text outcome hholds
    · intro f hf hattached
      obtain ⟨f', hf', hid, hkey, hattached', -⟩ := ReadThrough.exists_of_mem_leave hf
      rw [State.Joinable, ← hid, ← hkey]
      exact h.joinable f' hf' (hattached' hattached)
  -- the signal has aborted, so nothing is promised about the result
  have hturned : ∀ s' : State, Faithful answers s' J → s'.calls = s.calls →
      s'.signals = s.signals → Faithful answers (s'.settleCall i (.error (.aborted reason))) J := by
    intro s' h' hcalls hsignals
    apply h'.settleCall
    intro c' hc'
    obtain rfl : c = c' := Option.some.inj (hc.symm.trans (hcalls ▸ hc'))
    refine ⟨hunsettled, fun hquiet => ?_⟩
    rw [State.reason?, hsignals] at hquiet
    exact absurd hquiet hsignal
  rw [turnAway_of_load signal reason hc hload]
  by_cases hlast : (s.queries.leave load).1 = true
  · rw [if_pos hlast, State.departed, ← settleCall_callOff]
    obtain ⟨l, hl, rfl, -, aborted, hshared, -⟩ := (h.calls i c hc).loaded load hload
    have hone : waiting s.calls l.id ≤ 1 := hcounted.of_isLast hlast
    apply hturned
    · apply hleft.callOff hl ⟨aborted, hshared⟩
      · intro j c' hc' hwaits' hload'
        -- a second call that waits would not be covered by the counters
        by_cases hsame : i = j
        · obtain rfl : c = c' := Option.some.inj (hc.symm.trans (hsame ▸ hc'))
          exact hsignal hwaits'.2
        · have htwo : 2 ≤ waiting s.calls l.id := by
            apply two_le_waiting hc hc' hsame
            · simp [Call.isWaiting, hload, hunsettled]
            · simp [Call.isWaiting, hload', hwaits'.1]
          omega
      · exact fun f hf hid => ReadThrough.not_attached_of_isLast hlast hf hid
    · exact (callOff_same _ _ _ _).1
    · exact (callOff_same _ _ _ _).2.1
  · rw [if_neg hlast]
    exact hturned _ hleft rfl rfl

end Faithful

/-- Calls that wait for a load, and whose signals have aborted. -/
def Leaving (s : State) (leaving : List Nat) : Prop :=
  ∀ i ∈ leaving, ∃ c load, s.calls[i]? = some c ∧ c.isWaiting load = true ∧
    s.reason? c.signal ≠ none

/-- Calls are turned away one after the other. -/
theorem foldl_turnAway (signal reason : Text) {leaving : List Nat} (h : Faithful answers s J)
    (hcounted : Counted s.queries s.calls) (hdistinct : leaving.Nodup)
    (hleaving : Leaving s leaving) :
    let s' := leaving.foldl (fun s i => s.turnAway signal reason i) s
    Faithful answers s' J ∧ Counted s'.queries s'.calls ∧ s'.agenda = s.agenda := by
  induction leaving generalizing s with
  | nil => exact ⟨h, hcounted, rfl⟩
  | cons i rest ih =>
    obtain ⟨c, load, hc, hwaits, hsignal⟩ := hleaving i List.mem_cons_self
    have hload : c.load = some load := by
      simp only [Call.isWaiting, Bool.and_eq_true, beq_iff_eq] at hwaits
      exact hwaits.1
    obtain ⟨hsignals, hagenda, -⟩ := turnAway_same s signal reason i
    obtain ⟨hqueries, hcalls⟩ := turnAway_left signal reason hc hload
    have hnext : Faithful answers (s.turnAway signal reason i) J :=
      h.turnAway hcounted hc hwaits hsignal
    have hcounted' : Counted (s.turnAway signal reason i).queries
        (s.turnAway signal reason i).calls := by
      rw [hqueries, hcalls]
      exact hcounted.leave hc hwaits rfl
    obtain ⟨hnew, hrest⟩ := List.nodup_cons.mp hdistinct
    -- turning one caller away leaves the callers behind it waiting as they were
    have hleaving' : Leaving (s.turnAway signal reason i) rest := by
      intro j hj
      obtain ⟨c', load', hc', hwaits', hsignal'⟩ := hleaving j (List.mem_cons_of_mem i hj)
      have hne : i ≠ j := fun hsame => hnew (hsame ▸ hj)
      refine ⟨c', load', ?_, hwaits', ?_⟩
      · rw [hcalls, List.getElem?_modify, hc']
        exact congrArg some (if_neg hne)
      · rw [State.reason?, hsignals]
        exact hsignal'
    obtain ⟨hfaithful, hcounts, hsame⟩ := ih hnext hcounted' hrest hleaving'
    exact ⟨hfaithful, hcounts, hsame.trans hagenda⟩

/-- An abort disturbs nobody but the calls that carry its signal. -/
theorem abort_faithful (h : Faithful answers s s.Pending) (hcounted : Counted s.queries s.calls) :
    Faithful answers (s.abort signal reason) (s.abort signal reason).Pending ∧
    Counted (s.abort signal reason).queries (s.abort signal reason).calls := by
  by_cases hquiet : s.reason? (some signal) = none
  · rw [abort_eq hquiet]
    let s' : State := { s with signals := s.signals ++ [(signal, reason)] }
    have hsignaled : Faithful answers s' s.Pending := h.signal signal reason
    have haborted : s'.reason? (some signal) ≠ none := by
      simp [State.reason?, s', List.lookup_append]
    have hleaving : Leaving s' (s.leaving signal) := by
      -- whoever listens has a load and has not got its result
      intro i hi
      obtain ⟨c, hc, hlistens, hcarries⟩ := mem_leaving.mp hi
      obtain ⟨hunsettled, hsome⟩ := (h.calls i c hc).listens hlistens
      obtain ⟨load, hload⟩ := Option.isSome_iff_exists.mp hsome
      refine ⟨c, load, hc, by simp [Call.isWaiting, hload, hunsettled], ?_⟩
      rw [hcarries]
      exact haborted
    obtain ⟨hfaithful, hcounts, hagenda⟩ := foldl_turnAway signal reason hsignaled hcounted
      (List.nodup_range.filter _) hleaving
    rw [← pending_congr (s := s) hagenda] at hfaithful
    exact ⟨hfaithful, hcounts⟩
  · rw [abort_again hquiet]
    exact ⟨h, hcounted⟩

end IssueQuery.Engine
