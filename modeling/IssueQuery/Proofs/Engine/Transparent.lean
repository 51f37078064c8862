import IssueQuery.Proofs.Engine.Events
import IssueQuery.Proofs.Engine.Tables

/-!
# Keeping and sharing results is transparent

Whatever other calls do, and whatever is kept, forgotten or shared meanwhile, a call whose signal
does not abort gets what it would get from an engine that neither keeps nor shares anything, if it
were the only call there. It also does get it: the agenda runs empty, and then nobody waits.

* `SettlesWith`                 what it means to get something for certain;
* `InOrder.settlesWith`         a call gets what its query text should give;
* `caching_transparent`         so keeping and sharing make no difference.
-/

namespace IssueQuery.Engine

variable {answers : Answers} {store : Store} {cfg : Settings} {s : State} {c : Call} {i : Nat}

/-- After enough turns the call has got something, and what it gets, whenever it is looked at, is the
given outcome or failure. -/
structure SettlesWith (cfg : Settings) (store : Store) (s : State) (i : Nat)
    (expected : Except Rejection Outcome) : Prop where
  settles : ∃ n, ∀ m, n ≤ m → ((ticks cfg store m s).result? i).isSome
  agrees : ∀ n result, (ticks cfg store n s).result? i = some result →
    result.map Result.outcome = expected

theorem keeps_ticks (hsteady : Steady store answers) (n : Nat) :
    Keeps s (ticks cfg store n s) := by
  induction n generalizing s with
  | zero => exact Keeps.of_eq rfl rfl
  | succ n ih =>
    unfold ticks
    split
    · exact Keeps.of_eq rfl rfl
    · exact ((ticked cfg store s).keeps hsteady).trans ih

/-- Once the agenda is empty, a call whose signal has not aborted has got its result. -/
theorem Faithful.settled_of_agenda (h : Faithful answers s s.Pending) (hempty : s.agenda = [])
    (hc : s.calls[i]? = some c) (hquiet : s.reason? c.signal = none) : c.settled.isSome := by
  have hidle : ∀ j, ¬ s.Pending j := by
    rintro j ⟨turns, hj⟩
    rw [hempty] at hj
    cases hj
  refine Decidable.byContradiction fun hunsettled => ?_
  have hnone : c.settled = none := by simpa using hunsettled
  -- whoever waits is served by a job or told by a load
  obtain ⟨j, hj, -⟩ | ⟨l, hl, hended, hi⟩ := h.served i c hc ⟨hnone, hquiet⟩
  · exact hidle j hj
  · -- the load that would tell the call is wanted, so some job would bring it to its end
    obtain ⟨c', hc', hload⟩ := (h.loads l hl).subscribers i hi
    obtain rfl : c = c' := Option.some.inj (hc.symm.trans hc')
    obtain ⟨l', hl', hid, -, aborted, hcontrol, hon⟩ := (h.calls i c hc).loaded l.id hload
    obtain rfl := List.inj_on_of_nodup_map h.distinct hl' hl hid
    obtain rfl := hon ⟨hnone, hquiet⟩
    obtain ⟨j, hj, -⟩ := h.furthered l' hl' hcontrol hended
    exact hidle j hj

/-- A call whose signal does not abort gets what its query text should give. -/
theorem InOrder.settlesWith (hsteady : Steady store answers) (h : InOrder answers s)
    (hc : s.calls[i]? = some c) (hquiet : s.reason? c.signal = none) :
    SettlesWith cfg store s i (answers.expected c.text) := by
  have hkept : ∀ n, ∃ c', (Engine.ticks cfg store n s).calls[i]? = some c' ∧ c'.text = c.text ∧
      (Engine.ticks cfg store n s).reason? c'.signal = none := by
    intro n
    have hkeeps : Keeps s (Engine.ticks cfg store n s) := keeps_ticks hsteady n
    obtain ⟨c', hc', htext, hsignal⟩ := hkeeps.calls i c hc
    refine ⟨c', hc', htext, ?_⟩
    rw [hsignal, State.reason?, hkeeps.signals]
    exact hquiet
  constructor
  · obtain ⟨n, hn⟩ : ∃ n, ∀ m, n ≤ m → (Engine.ticks cfg store m s).agenda = [] :=
      exists_agenda_empty cfg store s
    refine ⟨n, fun m hm => ?_⟩
    obtain ⟨c', hc', -, hquiet'⟩ := hkept m
    rw [State.result?, hc']
    exact (h.ticks hsteady m).faithful.settled_of_agenda (hn m hm) hc' hquiet'
  · intro n result hresult
    obtain ⟨c', hc', htext, hquiet'⟩ := hkept n
    rw [State.result?, hc'] at hresult
    rw [← htext]
    exact ((h.ticks hsteady n).faithful.calls i c' hc').settled result hresult hquiet'

/-- A call that is made at some point of a list of events gets what its query text should give, if
no event aborts its signal. -/
theorem settlesWith_of_run (hsteady : Steady store answers) (cfg : Settings) (start : Time)
    (before after : List Event) (text : Text) (signal : Option Text)
    (hquiet : ∀ name reason, Event.abort name reason ∈ before ++ after → signal ≠ some name) :
    SettlesWith cfg store (run cfg store (.initial start) (before ++ .call text signal :: after))
      (run cfg store (.initial start) before).calls.length (answers.expected text) := by
  let s := run cfg store (.initial start) before
  have hmade : Keeps { s with calls := s.calls ++ [⟨text, signal, s.now, none, false, none⟩] }
      (call cfg store s text signal) := keeps_call hsteady text signal
  obtain ⟨c, hc, htext, hsignal⟩ := hmade.calls s.calls.length _ List.getElem?_concat_length
  have hlater : ∃ c', (run cfg store (call cfg store s text signal) after).calls[s.calls.length]? =
      some c' ∧ c'.text = c.text ∧ c'.signal = c.signal := call_of_run hsteady after hc
  obtain ⟨c', hc', htext', hsignal'⟩ := hlater
  -- the call is made in the middle of the run; the rest only adds to it
  have hsplit : run cfg store (.initial start) (before ++ .call text signal :: after) =
      run cfg store (call cfg store s text signal) after := by
    rw [run, List.foldl_append]
    rfl
  have hnone : (run cfg store (.initial start) (before ++ .call text signal :: after)).reason?
      signal = none := by
    apply reason?_of_run hsteady _ (by cases signal <;> rfl)
    intro name reason hmem
    apply hquiet name reason
    obtain hbefore | hafter := List.mem_append.mp hmem
    · exact List.mem_append_left _ hbefore
    · obtain hcall | hafter := List.mem_cons.mp hafter
      · cases hcall
      · exact List.mem_append_right _ hafter
  have horder : InOrder answers
      (run cfg store (.initial start) (before ++ .call text signal :: after)) :=
    (inOrder_initial start).run hsteady _
  have hc'' : (run cfg store (.initial start)
      (before ++ .call text signal :: after)).calls[s.calls.length]? = some c' := by
    rw [hsplit]
    exact hc'
  have hsignal'' : c'.signal = signal := hsignal'.trans hsignal
  have htext'' : c'.text = text := htext'.trans htext
  have hsettles : SettlesWith cfg store _ s.calls.length (answers.expected c'.text) :=
    horder.settlesWith hsteady hc'' (hsignal''.symm ▸ hnone)
  exact htext'' ▸ hsettles

/-- Keeping and sharing results is transparent. Over a steady store, a call whose signal no event
aborts gets the same as the one call to an engine that neither keeps nor shares anything: the same
issues and the same report, or the same failure. -/
theorem caching_transparent (hsteady : Steady store answers) (cfg : Settings) (start start' : Time)
    (before after : List Event) (text : Text) (signal : Option Text)
    (hquiet : ∀ name reason, Event.abort name reason ∈ before ++ after → signal ≠ some name) :
    ∃ expected,
      SettlesWith { cfg with disabled := true } store
        (run { cfg with disabled := true } store (.initial start') [.call text none]) 0 expected ∧
      SettlesWith cfg store (run cfg store (.initial start) (before ++ .call text signal :: after))
        (run cfg store (.initial start) before).calls.length expected := by
  refine ⟨answers.expected text, ?_, ?_⟩
  · exact settlesWith_of_run hsteady _ start' [] [] text none fun _ _ hmem => nomatch hmem
  · exact settlesWith_of_run hsteady cfg start before after text signal hquiet

theorem steady_tableStore (words : List Text) (ds : List Dependency) :
    Steady (tableStore words ds) fun statement => .ok (tableRows words ds statement) :=
  ⟨fun _ _ => rfl, fun _ _ => rfl⟩

/-- Two issues, the second of which depends on the first. -/
def pairStore : Store := tableStore ["a", "b"] [⟨"b", "a", "blocks"⟩]

/-- Two calls of one text are made, and then the signal of the first one aborts. -/
def leftByFirst : State :=
  run ⟨5, false, default⟩ pairStore (.initial 0)
    ([.call "id=a expand down" (some "a")] ++
      .call "id=a expand down" (some "b") :: [.abort "a" "gone"])

/-- The two calls share a load, which the first one leaves. The second one gets both issues, as a call
does that is alone. -/
theorem caching_transparent_joined_load :
    (leftByFirst.loads.map Load.id = [0] ∧ leftByFirst.calls.map Call.load = [some 0, some 0] ∧
      leftByFirst.calls.map (fun c => c.settled.isSome) = [true, false]) ∧
    ∃ expected : Except Rejection Outcome,
      expected.toOption.map (fun out => out.issues.map Issue.title) =
        some [Text.ofString "a", Text.ofString "b"] ∧
      SettlesWith ⟨5, true, default⟩ pairStore
        (run ⟨5, true, default⟩ pairStore (.initial 3) [.call "id=a expand down" none]) 0 expected ∧
      SettlesWith ⟨5, false, default⟩ pairStore leftByFirst 1 expected := by
  have hrun : (leftByFirst.loads.map Load.id = [0] ∧
        leftByFirst.calls.map Call.load = [some 0, some 0] ∧
        leftByFirst.calls.map (fun c => c.settled.isSome) = [true, false]) ∧
      (run ⟨5, false, default⟩ pairStore (.initial 0)
        [.call "id=a expand down" (some "a")]).calls.length = 1 ∧
      (ticks ⟨5, false, default⟩ pairStore 20 leftByFirst).titles? 1 =
        some [Text.ofString "a", Text.ofString "b"] := by
    decide +kernel
  obtain ⟨hshared, hfirst, htitles⟩ := hrun
  have hsteady : Steady pairStore _ := steady_tableStore _ _
  -- the one signal that aborts is not that of the second call
  have hquiet : ∀ name reason,
      Event.abort name reason ∈ [.call "id=a expand down" (some "a")] ++ [.abort "a" "gone"] →
      some (Text.ofString "b") ≠ some name := by
    intro name reason hmem
    obtain ⟨rfl, -⟩ : name = "a" ∧ reason = "gone" := by simpa using hmem
    decide
  obtain ⟨expected, halone, hjoined⟩ :=
    caching_transparent hsteady ⟨5, false, default⟩ 0 3 _ _ _ _ hquiet
  rw [hfirst] at hjoined
  refine ⟨hshared, expected, ?_, halone, hjoined⟩
  obtain ⟨c, result, hc, hsettled, hissues⟩ := exists_of_titles? htitles
  have hresult : (ticks ⟨5, false, default⟩ pairStore 20 leftByFirst).result? 1 =
      some (.ok result) := by
    rw [State.result?, hc]
    exact hsettled
  rw [← hjoined.agrees 20 _ hresult, ← hissues]
  rfl

end IssueQuery.Engine
