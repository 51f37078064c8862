import IssueQuery.Proofs.Engine.AbortedCalls
import IssueQuery.Proofs.Engine.Solitary

/-!
# Calls get their results

Whether or not an engine shares its loads: over a store that does not fail a call gets a rejection
only if its text cannot be read or its signal has aborted, and every call has got something once
there is nothing left to do.

* `State.Fair`       nobody has been rejected without a cause;
* `State.Fair.step`  an event keeps it so, if the job that finishes a call has an outcome for it;
* `State.Attended`   everybody is seen to, in either kind of engine;
* `Sound.run`        both hold in every state of an engine;
* `Sound.exists_ok`  a call whose signal does not abort gets a result.
-/

namespace IssueQuery.Engine

variable {cfg : Settings} {store : Store} {m : Mark} {s s' : State} {c c' : Call} {i : Nat}
  {outcome : Except LoadFailure Outcome} {text : Text} {signal : Option Text} {q : Query}

/-! ## Rejections -/

/-- The call got no rejection, unless its text cannot be read or its signal has aborted. -/
def Call.Fair (s : State) (c : Call) : Prop :=
  ∀ rejection, c.settled = some (.error rejection) →
    (∃ failure, readQuery c.text = .error failure) ∨ s.reason? c.signal ≠ none

/-- Nobody got a rejection without a cause. -/
def State.Fair (s : State) : Prop := ∀ (i : Nat) (c : Call), s.calls[i]? = some c → c.Fair s

theorem Call.Fair.weathers (h : c.Fair s) (hs : s.Remembers s') (hc : c.Weathers s' c') :
    c'.Fair s' := by
  intro rejection hrejection
  obtain hsame | ⟨reason, hreason, -⟩ := hc.settled
  · rw [hc.text, hc.signal]
    refine (h rejection (hsame ▸ hrejection)).imp_right fun haborted hquiet => ?_
    exact haborted (reason?_of_remembers hs hquiet)
  · exact .inr (hreason ▸ nofun)

/-- The call can get a job's outcome, for it is one unless the signal of the call has aborted. -/
def State.Finishes (s : State) (i : Nat) (outcome : Except LoadFailure Outcome) : Prop :=
  ∀ c, s.calls[i]? = some c → c.settled = none → s.reason? c.signal = none → outcome.isOk

namespace State.Fair

theorem of_same (h : s.Fair) (hcalls : s'.calls = s.calls) (hsignals : s'.signals = s.signals) :
    s'.Fair := by
  intro i c hc rejection hrejection
  rw [reason?_congr hsignals]
  exact h i c (hcalls ▸ hc) rejection hrejection

theorem aborting (h : s.Fair) (hs : Aborting s s') : s'.Fair := by
  intro i c' hc'
  cases hc : s.calls[i]? with
  | none => exact nomatch (hs.none_made hc).symm.trans hc'
  | some c =>
    obtain ⟨c'', hc'', hweathers⟩ := hs.call hc
    obtain rfl := Option.some.inj (hc'.symm.trans hc'')
    exact (h i c hc).weathers hs.remembers hweathers

theorem modifyCall (h : s.Fair) (i : Nat) {change : Call → Call}
    (hchange : ∀ c, s.calls[i]? = some c → (change c).Fair s) : (s.modifyCall i change).Fair := by
  intro k c' hc'
  obtain ⟨c, hc, ⟨rfl, rfl⟩ | ⟨-, rfl⟩⟩ := getElem?_modify_cases hc'
  · exact hchange c hc
  · exact h k c' hc

theorem made (h : s.Fair) (text : Text) (signal : Option Text) (texts : List Text)
    (queries : ReadThrough Text Outcome) : (s.made text signal texts queries).Fair := by
  intro i c hc
  obtain hold | ⟨-, rfl⟩ := getElem?_concat_cases hc
  · exact h i c hold
  · exact fun _ hnone => nomatch hnone

theorem join (h : s.Fair) (call load : Nat) : (join s call load).Fair := by
  have hwaits (listening : Bool) : (s.modifyCall call fun c =>
      { c with load := some load, listening := listening }).Fair :=
    h.modifyCall call fun c hc => h call c hc
  obtain hjoin | hjoin := join_cases s call load <;> rw [hjoin] <;>
    exact (hwaits _).of_same rfl rfl

theorem finish (h : s.Fair) (hjob : s.Finishes i outcome)
    (hs : Performed cfg store s (.finish i outcome) s') : s'.Fair := by
  cases hs with
  | finishedLate => exact h
  | @finished _ c _ hc hopen =>
    have hsettled : (s.settleCall i (resultOf s c outcome)).Fair := by
      refine h.modifyCall i fun c' hc' rejection hrejection => ?_
      obtain rfl := Option.some.inj (hc.symm.trans hc')
      refine .inr fun (hquiet : s.reason? c.signal = none) => ?_
      -- the job has an outcome, so the call has got that
      have hrejected : resultOf s c outcome = .error rejection := Option.some.inj hrejection
      have hok := hjob c hc hopen hquiet
      cases outcome with
      | error e => exact nomatch hok
      | ok out =>
        unfold resultOf at hrejected
        rw [hquiet] at hrejected
        exact nomatch hrejected
    have hframe := frame_finishWith cfg s i (resultOf s c outcome)
    exact hsettled.of_same hframe.calls hframe.signals

theorem tick (h : s.Fair) (hjobs : ∀ i outcome, s.Pending (.finish i outcome) →
    s.Finishes i outcome) (hs : Ticked cfg store s s') : s'.Fair := by
  cases hs with
  | idle | putOff => exact h
  | @due job rest _ hagenda hs =>
    have hrest : State.Fair { s with agenda := rest } := h
    -- only the last turn of a call settles it, and it tells the call what the call is due
    cases job with
    | subscribe _ | settleGraph _ _ | deliverGraph _ _ | resume _ _ =>
      exact hrest.aborting (hs.aborting rfl)
    | settle id outcome =>
      cases hs with
      | settled => exact hrest.of_same rfl rfl
    | deliver i outcome =>
      cases hs with
      | deliveredLate => exact hrest
      | delivered =>
        have hdeaf : State.Fair (State.modifyCall { s with agenda := rest } i fun c =>
            { c with listening := false }) := hrest.modifyCall i fun c hc => h i c hc
        exact hdeaf.of_same rfl rfl
    | finish i outcome =>
      exact hrest.finish (hjobs i outcome (pending_head hagenda)) hs

theorem called (h : s.Fair) (hcalled : Called cfg store s text signal s') : s'.Fair := by
  have hstart (texts : List Text) (queries : ReadThrough Text Outcome) {q : Query}
      (hquery : readQuery text = .ok q) (control : Control) :
      (startLoad cfg store (s.made text signal texts queries)
        ⟨s.queries.started, q, control, [], none, [], none⟩).Fair := by
    obtain ⟨selection, hselect⟩ := Query.select_of_check (check_of_readQuery hquery)
    exact (h.made text signal texts queries).aborting (aborting_startLoad hselect _)
  cases hcalled with
  | rejected texts rejection lines hcause =>
    have hmade := h.made text signal texts s.queries
    refine State.Fair.of_same (s := (s.made text signal texts s.queries).settleCall s.calls.length
      (.error rejection)) (hmade.modifyCall _ fun c hc _ _ => ?_) rfl rfl
    obtain rfl : (⟨text, signal, s.now, none, false, none⟩ : Call) = c :=
      Option.some.inj (List.getElem?_concat_length.symm.trans hc)
    exact hcause
  | kept texts queries out hon hqueries hholds =>
    exact (h.made text signal texts queries).of_same rfl rfl
  | joined texts queries load hon hqueries =>
    exact (h.made text signal texts queries).join s.calls.length load
  | shared texts queries q hon hquery hstarted hholds =>
    exact (hstart texts queries hquery _).join _ _
  | own texts q hoff hquery hquiet => exact hstart texts _ hquery _

theorem step (h : s.Fair) (hjobs : ∀ i outcome, s.Pending (.finish i outcome) →
    s.Finishes i outcome) (event : Event) : (step cfg store s event).Fair := by
  cases event with
  | call text signal => exact h.called (Engine.called cfg store s text signal)
  | tick => exact h.tick hjobs (ticked cfg store s)
  | abort signal reason => exact h.aborting ((Aborting.refl s).abort signal reason)
  | invalidate => exact h.of_same rfl rfl
  | invalidateGraph => exact h.of_same rfl rfl
  | advance span => exact h.of_same rfl rfl
  | close => exact h.of_same rfl rfl

end State.Fair

/-! ## Both kinds of engines -/

/-- Everybody is seen to, be it that loads are shared or that each call has its own. -/
def State.Attended (cfg : Settings) (store : Store) (s : State) : Prop :=
  cfg.disabled = false ∧ Tidy store s ∨ cfg.disabled = true ∧ Solitary store s

namespace State.Attended

theorem finishes (h : s.Attended cfg store) (hstore : Unfailing store) (i : Nat)
    (outcome : Except LoadFailure Outcome)
    (hj : s.Pending (.finish i outcome)) : s.Finishes i outcome := by
  intro c hc hunsettled hquiet
  obtain ⟨-, htidy⟩ | ⟨-, hsolitary⟩ := h
  · obtain ⟨c', hc', hok⟩ := htidy.alert.attentive.jobs _ hj
    obtain rfl := Option.some.inj (hc.symm.trans hc')
    exact hok hunsettled hstore
  · obtain ⟨c', hc', hok⟩ := hsolitary.jobs _ hj
    obtain rfl := Option.some.inj (hc.symm.trans hc')
    exact hok hquiet hstore

/-- Once the agenda is empty, every call has got something. -/
theorem settled_of_agenda (h : s.Attended cfg store) (hempty : s.agenda = [])
    (hc : s.calls[i]? = some c) : c.settled ≠ none := by
  obtain ⟨-, htidy⟩ | ⟨-, hsolitary⟩ := h
  · exact htidy.settled_of_agenda hempty hc
  · intro hunsettled
    obtain ⟨j, ⟨turns, hj⟩, -⟩ := hsolitary.served i c hc hunsettled
    rw [hempty] at hj
    exact nomatch hj

/-- An event keeps it so that everybody is seen to, and calls stay what they are for. -/
theorem step (h : s.Attended cfg store) (ht : Traced store m s)
    (event : Event) : (step cfg store s event).Attended cfg store ∧
      ∀ (i : Nat) (c : Call), s.calls[i]? = some c →
        ∃ c', (step cfg store s event).calls[i]? = some c' ∧ c'.text = c.text ∧
          c'.signal = c.signal := by
  obtain ⟨hon, htidy⟩ | ⟨hoff, hsolitary⟩ := h
  · refine ⟨.inl ⟨hon, htidy.step hon event⟩, fun i c hc => ?_⟩
    obtain ⟨c', hc', hcontinues⟩ := (htidy.shape hon event).continues hc
    exact ⟨c', hc', hcontinues.text, hcontinues.signal⟩
  · obtain ⟨hsolitary', hlasts⟩ := hsolitary.step ht hoff event
    exact ⟨.inr ⟨hoff, hsolitary'⟩, hlasts.calls⟩

end State.Attended

/-! ## Runs -/

/-- What holds of an engine in every state that it gets into: it is traced, everybody is seen to, and
nobody is rejected without a cause if the store does not fail. -/
structure Sound (cfg : Settings) (store : Store) (m : Mark) (s : State) : Prop where
  traced : Traced store m s
  attended : s.Attended cfg store
  fair : Unfailing store → s.Fair

namespace Sound

theorem run (h : Sound cfg store m s) (events : List Event) :
    Sound cfg store m (run cfg store s events) ∧
      ∀ (i : Nat) (c : Call), s.calls[i]? = some c →
        ∃ c', (run cfg store s events).calls[i]? = some c' ∧ c'.text = c.text ∧
          c'.signal = c.signal := by
  induction events generalizing s with
  | nil => exact ⟨h, fun _ c hc => ⟨c, hc, rfl, rfl⟩⟩
  | cons event rest ih =>
    obtain ⟨hattended, hcalls⟩ := h.attended.step h.traced event
    have hnext : Sound cfg store m (Engine.step cfg store s event) :=
      ⟨h.traced.step event, hattended,
        fun hstore => (h.fair hstore).step (h.attended.finishes hstore) event⟩
    obtain ⟨hsound, hcalls'⟩ := ih hnext
    refine ⟨hsound, fun i c hc => ?_⟩
    obtain ⟨c', hc', htext, hsignal⟩ := hcalls i c hc
    obtain ⟨c'', hc'', htext', hsignal'⟩ := hcalls' i c' hc'
    exact ⟨c'', hc'', htext'.trans htext, hsignal'.trans hsignal⟩

/-- After enough turns a call whose signal has not aborted has got a result. -/
theorem exists_ok (h : Sound cfg store m s) (hstore : Unfailing store)
    (hc : s.calls[i]? = some c) (hquery : readQuery c.text = .ok q) :
    ∃ n, ∀ k, n ≤ k → (ticks cfg store k s).reason? c.signal = none →
      ∃ result, (ticks cfg store k s).result? i = some (.ok result) := by
  obtain ⟨n, hn⟩ := exists_agenda_empty cfg store s
  refine ⟨n, fun k hk hquiet => ?_⟩
  have hempty := hn k hk
  rw [ticks_eq_run] at hempty hquiet ⊢
  obtain ⟨hsound, hcalls⟩ := h.run (List.replicate k .tick)
  obtain ⟨c', hc', htext, hsignal⟩ := hcalls i c hc
  rw [State.result?, hc', Option.bind_some]
  -- nothing is left to do, so the call has got something, and a rejection has no cause
  cases hsettled : c'.settled with
  | none => exact absurd hsettled (hsound.attended.settled_of_agenda hempty hc')
  | some result =>
    cases result with
    | ok result => exact ⟨result, rfl⟩
    | error rejection =>
      obtain ⟨failure, hfailed⟩ | haborted := hsound.fair hstore i c' hc' rejection hsettled
      · cases (htext ▸ hquery).symm.trans hfailed
      · exact absurd (hsignal ▸ hquiet) haborted

end Sound

theorem sound_new (now : Time)
    (ttl interval ttl' interval' : Option Time) :
    let s := State.new now (.new now ttl interval) (.new now ttl' interval')
    Sound cfg store (s.mark fun _ => True) s where
  traced := traced_new now ttl interval ttl' interval' fun _ => True
  attended := by
    cases hmode : cfg.disabled with
    | false =>
      have hreachable : Reachable cfg store
          (.new now (.new now ttl interval) (.new now ttl' interval')) :=
        ⟨now, ttl, interval, ttl', interval', [], rfl⟩
      exact .inl ⟨hmode, hreachable.tidy hmode⟩
    | true => exact .inr ⟨hmode, solitary_new _ _ _⟩
  fair := fun _ _ _ hc => nomatch hc

end IssueQuery.Engine
