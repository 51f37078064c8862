import IssueQuery.Proofs.Engine.Calls

/-!
# Every event keeps an engine in order

Calls, turns, aborts and invalidations may come in any order; after each of them the engine is
faithful to the answers of its store. What a call was made with never changes, and a signal has
aborted only if an event said so.

* `InOrder.run`     a list of events;
* `call_of_run`     a call keeps its text and its signal;
* `reason?_of_run`  a signal that no event aborts has not aborted.
-/

namespace IssueQuery.Engine

variable {answers : Answers} {store : Store} {cfg : Settings} {s s' : State} {c : Call}
  {J : Job → Prop} {event : Event} {events : List Event} {i : Nat}

/-! ## Invalidation -/

namespace Faithful

theorem invalidateGraphs (h : Faithful answers s J) :
    Faithful answers { s with graphs := s.graphs.invalidate () } J := by
  apply h.setGraphs
  · exact fun graph hholds => h.graph graph (TtlCache.holds_delete hholds).2
  · intro f hf hattached
    exact h.underWay f (ReadThrough.exists_of_mem_invalidate hf hattached).1 hattached

theorem invalidateQueries (h : Faithful answers s J) (texts : List Text) :
    Faithful answers { s with queries := texts.foldl ReadThrough.invalidate s.queries } J := by
  induction texts generalizing s with
  | nil => exact h
  | cons text rest ih =>
    have hfirst : Faithful answers { s with queries := s.queries.invalidate text } J := by
      apply h.setQueries (s.queries.invalidate text) (Nat.le_refl _)
      · exact fun text out hholds => h.results text out (TtlCache.holds_delete hholds).2
      · intro f hf hattached
        exact h.joinable f (ReadThrough.exists_of_mem_invalidate hf hattached).1 hattached
    exact ih hfirst

theorem invalidateAll (h : Faithful answers s J) :
    Faithful answers { s with queries := s.queries.invalidateAll } J := by
  apply h.setQueries s.queries.invalidateAll (Nat.le_refl _)
  · exact fun text out hholds => absurd hholds TtlCache.not_holds_flush
  · intro f hf hattached
    rw [ReadThrough.not_attached_invalidateAll hf] at hattached
    cases hattached

end Faithful

namespace Counted

variable {queries queries' : ReadThrough Text Outcome} {calls : List Call}

/-- Which loads may be joined does not matter. -/
theorem map (h : Counted queries calls) {change : Flight Text → Flight Text}
    (hflights : queries'.flights = queries.flights.map change)
    (hstarted : queries'.started = queries.started)
    (hchange : ∀ f, (change f).id = f.id ∧ (change f).departed = f.departed ∧
      (change f).waiters = f.waiters) : Counted queries' calls where
  below := by
    intro f hf
    rw [hflights] at hf
    obtain ⟨g, hg, rfl⟩ := List.mem_map.mp hf
    rw [(hchange g).1, hstarted]
    exact h.below g hg
  count := by
    intro f hf
    rw [hflights] at hf
    obtain ⟨g, hg, rfl⟩ := List.mem_map.mp hf
    obtain ⟨hid, hdeparted, hwaiters⟩ := hchange g
    rw [hid, hdeparted, hwaiters]
    exact h.count g hg

theorem invalidate (h : Counted queries calls) (text : Text) :
    Counted (queries.invalidate text) calls := by
  apply h.map
  · rfl
  · rfl
  · intro f
    split <;> exact ⟨rfl, rfl, rfl⟩

theorem invalidateQueries (h : Counted queries calls) (texts : List Text) :
    Counted (texts.foldl ReadThrough.invalidate queries) calls := by
  induction texts generalizing queries with
  | nil => exact h
  | cons text rest ih => exact ih (h.invalidate text)

end Counted

/-! ## Events -/

namespace InOrder

theorem step (hsteady : Steady store answers) (h : InOrder answers s) (event : Event) :
    InOrder answers (step cfg store s event) := by
  cases event with
  | call text signal => exact h.call hsteady
  | tick =>
    have hticked := ticked cfg store s
    exact ⟨h.faithful.tick hsteady hticked, h.counted.tick hsteady hticked⟩
  | abort signal reason =>
    obtain ⟨hfaithful, hcounted⟩ := abort_faithful h.faithful h.counted
    exact ⟨hfaithful, hcounted⟩
  | invalidate =>
    have hforgotten : InOrder answers { s with
        queries := s.queries.invalidateAll, graphs := s.graphs.invalidate () } :=
      ⟨h.faithful.invalidateAll.invalidateGraphs,
        h.counted.map rfl rfl fun _ => ⟨rfl, rfl, rfl⟩⟩
    exact hforgotten.setExpanding []
  | invalidateGraph =>
    have hforgotten : InOrder answers { s with
        graphs := s.graphs.invalidate ()
        queries := s.expanding.foldl ReadThrough.invalidate s.queries } :=
      ⟨h.faithful.invalidateGraphs.invalidateQueries s.expanding,
        h.counted.invalidateQueries s.expanding⟩
    exact hforgotten.setExpanding []
  | advance span => exact h.frame (frame_advance s span)
  | close => exact h.frame (frame_close s)

theorem run (hsteady : Steady store answers) (h : InOrder answers s) (events : List Event) :
    InOrder answers (run cfg store s events) := by
  induction events generalizing s with
  | nil => exact h
  | cons event rest ih => exact ih (h.step hsteady event)

theorem ticks (hsteady : Steady store answers) (h : InOrder answers s) (n : Nat) :
    InOrder answers (ticks cfg store n s) := by
  induction n generalizing s with
  | zero => exact h
  | succ n ih =>
    unfold Engine.ticks
    split
    · exact h
    · exact ih (h.step hsteady .tick)

end InOrder

/-! ## What never changes -/

/-- The calls of the one state are calls of the other, with the same texts and signals. -/
structure Keeps (s s' : State) : Prop where
  calls : ∀ (i : Nat) (c : Call), s.calls[i]? = some c →
    ∃ c', s'.calls[i]? = some c' ∧ c'.text = c.text ∧ c'.signal = c.signal
  signals : s'.signals = s.signals

theorem Keeps.of_eq (hcalls : s'.calls = s.calls) (hsignals : s'.signals = s.signals) :
    Keeps s s' where
  calls := fun _ c hc => ⟨c, hcalls ▸ hc, rfl, rfl⟩
  signals := hsignals

theorem Keeps.trans {s'' : State} (h : Keeps s s') (h' : Keeps s' s'') : Keeps s s'' where
  calls := by
    intro i c hc
    obtain ⟨c', hc', htext, hsignal⟩ := h.calls i c hc
    obtain ⟨c'', hc'', htext', hsignal'⟩ := h'.calls i c' hc'
    exact ⟨c'', hc'', htext'.trans htext, hsignal'.trans hsignal⟩
  signals := h'.signals.trans h.signals

theorem Keeps.of_modify {change : Call → Call} (hcalls : s'.calls = s.calls.modify i change)
    (hsignals : s'.signals = s.signals)
    (hchange : ∀ c, (change c).text = c.text ∧ (change c).signal = c.signal) : Keeps s s' where
  calls := by
    intro j c hc
    rw [hcalls]
    obtain ⟨c', hc', ⟨-, rfl⟩ | ⟨-, rfl⟩⟩ := exists_getElem?_modify hc i change
    · exact ⟨_, hc', hchange c⟩
    · exact ⟨c', hc', rfl, rfl⟩
  signals := hsignals

theorem keeps_join (s : State) (call load : Nat) : Keeps s (join s call load) := by
  exact Keeps.of_modify (join_calls s call load) (join_signals s call load) fun _ => ⟨rfl, rfl⟩

theorem Ticked.keeps (hs : Ticked cfg store s s') (hsteady : Steady store answers) :
    Keeps s s' := by
  cases hs with
  | idle | putOff => exact Keeps.of_eq rfl rfl
  | due _ hs =>
    have heffect := hs.effect_of_steady hsteady
    obtain hsame | ⟨i, change, hcalls, hmeek⟩ := heffect.calls
    · exact Keeps.of_eq hsame heffect.signals
    · exact Keeps.of_modify hcalls heffect.signals fun c => ⟨hmeek.text c, hmeek.signal c⟩

theorem keeps_turnAway (s : State) (signal reason : Text) (call : Nat) :
    Keeps s (s.turnAway signal reason call) := by
  obtain hsame | ⟨-, -, -, -, -, hcalls⟩ := turnAway_leaves s signal reason call
  · rw [hsame]
    exact Keeps.of_eq rfl rfl
  · exact Keeps.of_modify hcalls (turnAway_same s signal reason call).1 fun _ => ⟨rfl, rfl⟩

/-- A call that is made is there with its text and its signal. -/
theorem keeps_call (hsteady : Steady store answers) (text : Text) (signal : Option Text) :
    Keeps { s with calls := s.calls ++ [⟨text, signal, s.now, none, false, none⟩] }
      (call cfg store s text signal) := by
  have hsettle : ∀ (s : State) call result, Keeps s (s.settleCall call result) :=
    fun s call result => Keeps.of_modify rfl rfl fun _ => ⟨rfl, rfl⟩
  have hfinish : ∀ (s : State) call result, Keeps s (finishWith cfg s call result) := by
    intro s call result
    have hlogged := frame_finishWith cfg s call result
    exact (hsettle s call result).trans (Keeps.of_eq hlogged.calls hlogged.signals)
  -- whatever load starts, calls and signals stay as they are
  have hstart : ∀ (s : State) queries l,
      Keeps s (startLoad cfg store { s with queries := queries } l) := by
    intro s queries l
    have hsame : Undisturbed { s with queries := queries }
        (startLoad cfg store { s with queries := queries } l) := undisturbed_startLoad hsteady
    exact Keeps.of_eq hsame.calls hsame.signals
  unfold call
  generalize hmade : ({ s with calls := s.calls ++ [⟨text, signal, s.now, none, false, none⟩] } :
    State) = made
  split
  · exact hfinish made _ _
  · rename_i q _
    -- whether the query expands makes no difference to calls and signals
    have hnoted : Keeps made (if q.expansion.isSome then
        { made with expanding := addNew made.expanding text } else made) := by
      split <;> exact Keeps.of_eq rfl rfl
    dsimp only
    generalize (if q.expansion.isSome then
      { made with expanding := addNew made.expanding text } else made) = noted at hnoted ⊢
    apply hnoted.trans
    split
    · exact hsettle _ _ _
    · split
      · exact hstart _ _ _
      · unfold requestShared
        split
        · exact Keeps.of_eq rfl rfl
        · rename_i load queries _
          have hsame : Keeps noted { noted with queries := queries } := Keeps.of_eq rfl rfl
          exact hsame.trans (keeps_join _ _ _)
        · exact (hstart _ _ _).trans (keeps_join _ _ _)

/-- A call keeps its text and its signal. -/
theorem call_of_step (hsteady : Steady store answers) (event : Event) (hc : s.calls[i]? = some c) :
    ∃ c', (step cfg store s event).calls[i]? = some c' ∧ c'.text = c.text ∧
      c'.signal = c.signal := by
  cases event with
  | call text signal =>
    have hkept : Keeps _ (call cfg store s text signal) := keeps_call hsteady text signal
    exact hkept.calls i c (getElem?_concat hc _)
  | tick =>
    have hkept : Keeps s (tick cfg store s) := (ticked cfg store s).keeps hsteady
    exact hkept.calls i c hc
  | abort signal reason =>
    refine abort_keeps (P := fun s' => ∃ c', s'.calls[i]? = some c' ∧ c'.text = c.text ∧
      c'.signal = c.signal) ⟨c, hc, rfl, rfl⟩ (fun _ => ⟨c, hc, rfl, rfl⟩) ?_
    rintro s' j - ⟨c', hc', htext, hsignal⟩
    obtain ⟨c'', hc'', htext', hsignal'⟩ := (keeps_turnAway s' signal reason j).calls i c' hc'
    exact ⟨c'', hc'', htext'.trans htext, hsignal'.trans hsignal⟩
  | invalidate => exact ⟨c, hc, rfl, rfl⟩
  | invalidateGraph => exact ⟨c, hc, rfl, rfl⟩
  | advance span => exact ⟨c, hc, rfl, rfl⟩
  | close => exact ⟨c, hc, rfl, rfl⟩

/-- A signal that an event does not abort has not aborted behind it. -/
theorem reason?_of_step (hsteady : Steady store answers) {signal : Option Text}
    (hquiet : ∀ name reason, event = .abort name reason → signal ≠ some name)
    (h : s.reason? signal = none) : (step cfg store s event).reason? signal = none := by
  have hsame : ∀ s' : State, s'.signals = s.signals → s'.reason? signal = none := by
    intro s' hsignals
    rw [State.reason?, hsignals]
    exact h
  cases event with
  | call text signal' =>
    have hkept : Keeps _ (call cfg store s text signal') := keeps_call hsteady text signal'
    exact hsame _ hkept.signals
  | tick =>
    have hkept : Keeps s (tick cfg store s) := (ticked cfg store s).keeps hsteady
    exact hsame _ hkept.signals
  | abort name reason =>
    refine abort_keeps (P := fun s' => s'.reason? signal = none) h (fun _ => ?_)
      fun s' i _ hsame => (reason?_turnAway s' name reason i signal).trans hsame
    -- the new signal is looked up behind the old ones, and has another name
    have hother : signal ≠ some name := hquiet name reason rfl
    cases signal with
    | none => rfl
    | some signal =>
      have hnone : s.signals.lookup signal = none := h
      have hne : (signal == name) = false := by simpa using hother
      simp [State.reason?, List.lookup_append, hnone, List.lookup_cons, hne]
  | invalidate => exact h
  | invalidateGraph => exact h
  | advance span => exact h
  | close => exact h

theorem call_of_run (hsteady : Steady store answers) (events : List Event)
    (hc : s.calls[i]? = some c) :
    ∃ c', (run cfg store s events).calls[i]? = some c' ∧ c'.text = c.text ∧
      c'.signal = c.signal := by
  induction events generalizing s c with
  | nil => exact ⟨c, hc, rfl, rfl⟩
  | cons event rest ih =>
    have hstep : ∃ c', (step cfg store s event).calls[i]? = some c' ∧ c'.text = c.text ∧
        c'.signal = c.signal := call_of_step hsteady event hc
    obtain ⟨c', hc', htext, hsignal⟩ := hstep
    obtain ⟨c'', hc'', htext', hsignal'⟩ := ih hc'
    exact ⟨c'', hc'', htext'.trans htext, hsignal'.trans hsignal⟩

theorem reason?_of_run (hsteady : Steady store answers) {signal : Option Text}
    (hquiet : ∀ name reason, .abort name reason ∈ events → signal ≠ some name)
    (h : s.reason? signal = none) : (run cfg store s events).reason? signal = none := by
  induction events generalizing s with
  | nil => exact h
  | cons event rest ih =>
    apply ih
    · exact fun name reason hmem => hquiet name reason (List.mem_cons_of_mem event hmem)
    · apply reason?_of_step hsteady _ h
      intro name reason hevent
      exact hquiet name reason (hevent ▸ List.mem_cons_self)

end IssueQuery.Engine
