import IssueQuery.Proofs.Engine.Draining

/-!
# What the log tells of results

Of all that an engine writes to the log, only what it says of results is for standard output, and it
says it once of each. Whatever else it writes, of expansions that stop and of calls that fail, is for
standard error.

* `outputLines`        the lines for standard output;
* `State.results`      the results that calls have got;
* `Hushed`             nothing is written to standard output, and nobody gets a result;
* `State.Announced`    every result has been announced, and nothing else has;
* `announced_run`      it is so in every state of an engine;
* `drain_outputLines`  what a call alone makes the log say.
-/

namespace IssueQuery

/-- The lines of a log that are for standard output. -/
def outputLines (lines : List LogLine) : List LogLine := lines.filter fun l => !l.diagnostic

@[simp] theorem outputLines_append (lines lines' : List LogLine) :
    outputLines (lines ++ lines') = outputLines lines ++ outputLines lines' :=
  List.filter_append lines lines'

theorem outputLines_line? (logger : Logger) (severity : Severity) (message : Text)
    (values : List Json) :
    outputLines (logger.line? severity message values).toList =
      if severity.isDiagnostic then [] else (logger.line? severity message values).toList := by
  unfold Logger.line?
  cases severity <;> split <;> rfl

namespace Engine

variable {cfg : Settings} {store : Store} {s s' s'' : State} {c : Call} {i load : Nat}
  {text signal reason : Text} {ε ε' α β : Type}

/-! ## Results -/

/-- The result that the call has got, if it has got one. -/
def Call.result? (c : Call) : Option Result := c.settled.bind Except.toOption

/-- The results that calls have got, in the order of the calls. -/
def State.results (s : State) : List Result := s.calls.filterMap Call.result?

/-- A call that can be turned away has got nothing yet. -/
def State.Expectant (s : State) : Prop := ∀ c ∈ s.calls, c.listening = true → c.settled = none

/-- Whoever carries the signal in the first state has no result in the second one. -/
def State.Unheard (s : State) (signal : Text) (s' : State) : Prop :=
  ∀ i, s.Carries signal i → ∀ c, s'.calls[i]? = some c → c.result? = none

theorem State.Expectant.unheard (h : s.Expectant) : s.Unheard signal s := by
  rintro i ⟨c', hc', hlistens, -⟩ c hc
  obtain rfl := Option.some.inj (hc'.symm.trans hc)
  rw [Call.result?, h c' (List.mem_of_getElem? hc') hlistens]
  rfl

theorem State.Unheard.turnAway (h : s.Unheard signal s') (i : Nat) :
    s.Unheard signal (s'.turnAway signal reason i) := by
  intro j hj c hc
  obtain hsame | ⟨-, -, -, -, -, hcalls⟩ := turnAway_leaves s' signal reason i
  · exact h j hj c (hsame ▸ hc)
  · rw [hcalls] at hc
    obtain ⟨c', hc', ⟨-, rfl⟩ | ⟨-, rfl⟩⟩ := getElem?_modify_cases hc
    · rfl
    · exact h j hj c hc'

theorem filterMap_modify {f : α → Option β} {change : α → α} {l : List α}
    (h : ∀ a, l[i]? = some a → f (change a) = f a) :
    (l.modify i change).filterMap f = l.filterMap f := by
  induction l generalizing i with
  | nil => rw [List.modify_nil]
  | cons a rest ih =>
    cases i with
    | zero => rw [List.modify_zero_cons, List.filterMap_cons, List.filterMap_cons, h a rfl]
    | succ i => rw [List.modify_succ_cons, List.filterMap_cons, List.filterMap_cons, ih h]

theorem filterMap_modify_perm {f : α → Option β} {change : α → α} {l : List α} {a : α} {b : β}
    (ha : l[i]? = some a) (hnone : f a = none) (hsome : f (change a) = some b) :
    ((l.modify i change).filterMap f).Perm (b :: l.filterMap f) := by
  induction l generalizing i with
  | nil => cases ha
  | cons first rest ih =>
    cases i with
    | zero =>
      obtain rfl := Option.some.inj ha
      rw [List.modify_zero_cons, List.filterMap_cons_some hsome, List.filterMap_cons_none hnone]
    | succ i =>
      rw [List.modify_succ_cons]
      cases hfirst : f first with
      | none =>
        rw [List.filterMap_cons_none hfirst, List.filterMap_cons_none hfirst]
        exact ih ha
      | some b' =>
        rw [List.filterMap_cons_some hfirst, List.filterMap_cons_some hfirst]
        exact ((ih ha).cons b').trans (.swap b b' _)

/-! ## Where nothing is announced -/

/-- Between the states nothing is written to standard output, and nobody gets a result. -/
structure Hushed (s s' : State) : Prop where
  output : outputLines s'.lines = outputLines s.lines
  expectant : s.Expectant → s'.Expectant
  results : s.Expectant → s'.results = s.results

namespace Hushed

theorem of_same (hcalls : s'.calls = s.calls) (hlines : s'.lines = s.lines) : Hushed s s' where
  output := by rw [hlines]
  expectant := fun h => by rwa [State.Expectant, hcalls]
  results := fun _ => by rw [State.results, hcalls, State.results]

theorem refl (s : State) : Hushed s s := .of_same rfl rfl

theorem trans (h : Hushed s s') (h' : Hushed s' s'') : Hushed s s'' where
  output := h'.output.trans h.output
  expectant := fun hs => h'.expectant (h.expectant hs)
  results := fun hs => (h'.results (h.expectant hs)).trans (h.results hs)

theorem log {severity : Severity} (hdiagnostic : severity.isDiagnostic = true) (s : State)
    (message : Text) (members : List (Text × Json)) :
    Hushed s (s.log cfg severity message members) where
  output := by
    show outputLines (s.lines ++ _) = _
    rw [outputLines_append, outputLines_line?, if_pos hdiagnostic, List.append_nil]
  expectant := id
  results := fun _ => rfl

/-- A call changes, but neither gets a result nor begins to listen with something that it has got. -/
theorem modifyCall {change : Call → Call}
    (hchange : ∀ c, s.calls[i]? = some c →
      (change c).result? = c.result? ∧ ((change c).listening = true → (change c).settled = none)) :
    Hushed s (s.modifyCall i change) where
  output := rfl
  expectant := by
    intro h c' hc' hlistening
    obtain ⟨k, hk⟩ := List.mem_iff_getElem?.mp hc'
    obtain ⟨c, hc, ⟨rfl, rfl⟩ | ⟨-, rfl⟩⟩ := getElem?_modify_cases hk
    · exact (hchange c hc).2 hlistening
    · exact h c' (List.mem_of_getElem? hc) hlistening
  results := fun _ => filterMap_modify fun c hc => (hchange c hc).1

/-- A call that is turned away gets no result. -/
theorem turnAway (hnone : ∀ c, s.calls[i]? = some c → c.result? = none) :
    Hushed s (s.turnAway signal reason i) := by
  obtain hsame | ⟨-, -, -, -, -, hcalls⟩ := turnAway_leaves s signal reason i
  · rw [hsame]
    exact .refl s
  · have hturned : Hushed s (s.modifyCall i fun c =>
        { c with settled := some (.error (.aborted reason)), listening := false }) :=
      .modifyCall fun c hc => ⟨(hnone c hc).symm, fun hlistening => nomatch hlistening⟩
    exact hturned.trans (.of_same hcalls (turnAway_same s signal reason i).2.2)

theorem abort (s : State) (signal reason : Text) : Hushed s (s.abort signal reason) := by
  have hkept (h : s.Expectant) : (s.abort signal reason).Expectant ∧
      (s.abort signal reason).results = s.results ∧ s.Unheard signal (s.abort signal reason) := by
    -- whoever is turned away next must have got nothing yet, so this is carried along
    refine abort_keeps (P := fun s' => s'.Expectant ∧ s'.results = s.results ∧ s.Unheard signal s')
      ⟨h, rfl, h.unheard⟩ (fun _ => ⟨h, rfl, h.unheard⟩) ?_
    rintro s' i hcarries ⟨hexpectant, hresults, hunheard⟩
    have hturned : Hushed s' (s'.turnAway signal reason i) := .turnAway (hunheard i hcarries)
    exact ⟨hturned.expectant hexpectant, (hturned.results hexpectant).trans hresults,
      hunheard.turnAway i⟩
  refine ⟨?_, fun h => (hkept h).1, fun h => (hkept h).2.1⟩
  refine abort_keeps (P := fun s' => outputLines s'.lines = outputLines s.lines) rfl
    (fun _ => rfl) fun s' i _ hsame => ?_
  rw [(turnAway_same s' signal reason i).2.2, hsame]

end Hushed

/-! ## Work -/

/-- The work of a load announces nothing. -/
def Hushes (work : Work ε α) : Prop := ∀ s, Hushed s (work s).2

theorem hushes_pure (a : α) : Hushes (pure a : Work ε α) := .refl

theorem hushes_result (result : Except ε α) : Hushes (ExceptT.mk (pure result) : Work ε α) := .refl

theorem Hushes.bind {work : Work ε α} {next : α → Work ε β} (h : Hushes work)
    (hnext : ∀ a, Hushes (next a)) : Hushes (work >>= next) := by
  intro s
  have hwork := h s
  rw [bind_run]
  generalize work s = done at hwork ⊢
  obtain ⟨r, s'⟩ := done
  cases r with
  | error e => exact hwork
  | ok a => exact hwork.trans (hnext a s')

theorem Hushes.adapt {work : Work ε α} (h : Hushes work) (f : ε → ε') : Hushes (work.adapt f) := h

theorem hushes_unlessCalledOff (load : Nat) : Hushes (unlessCalledOff load) := by
  intro s
  unfold unlessCalledOff
  split <;> exact .refl s

theorem hushes_log {severity : Severity} (hdiagnostic : severity.isDiagnostic = true)
    (message : Text) (members : List (Text × Json)) :
    Hushes (modify fun s => s.log cfg severity message members : Work ε PUnit) := fun s =>
  .log hdiagnostic s message members

theorem hushes_ask (store : Store) (statement : Statement) : Hushes (ask store statement) := by
  intro s
  unfold ask
  cases store s.asked statement with
  | refused message => exact .of_same rfl rfl
  | ran elapsed aborts rows =>
    have hnoted : Hushed s (({ s with asked := s.asked + 1 }.record
        (.statement statement.sql (some statement.params))).advance elapsed) := .of_same rfl rfl
    exact List.foldlRecOn aborts _ hnoted fun s' h a _ => h.trans (.abort s' a.1 a.2)

theorem hushes_query (store : Store) (statement : Statement) (read : Option Json → RowReading α) :
    Hushes (query store statement read) :=
  (hushes_ask store statement).bind fun _ => hushes_result _

theorem hushes_fetch (store : Store) (load : Nat) (statement : Statement) :
    Hushes (fetch store load statement) := by
  refine ((hushes_query store statement Issue.ofRow).adapt _).bind fun issues => ?_
  dsimp only
  split
  · exact hushes_pure []
  · refine (hushes_unlessCalledOff load).bind fun _ => ?_
    refine ((hushes_query store _ Dependency.ofRow).adapt _).bind fun dependencies => ?_
    refine ((hushes_query store _ Labelling.ofRow).adapt _).bind fun labels => ?_
    refine ((hushes_query store _ CommentCount.ofRow).adapt _).bind fun counts => ?_
    exact hushes_pure _

theorem hushes_fetchBase (store : Store) (load : Nat) (q : Query) :
    Hushes (fetchBase store load q) := by
  refine (hushes_result _).bind fun selection => ?_
  exact (hushes_unlessCalledOff load).bind fun _ => hushes_fetch store load _

theorem hushes_loadGraph (store : Store) : Hushes (staged .graph (loadGraph store)) :=
  ((hushes_query store .allDependencies Dependency.ofRow).bind fun _ => hushes_pure _).adapt _

/-- An expansion that stops at the ceiling is a matter for standard error. -/
theorem hushes_expand (cfg : Settings) (store : Store) (load : Nat) (base : List Issue)
    (e : Expansion) (graph : Graph) : Hushes (expand cfg store load base e graph) := by
  apply expand_of_fetchReach
  · exact fun hwork => (hushes_unlessCalledOff load).bind fun _ => hwork
  · exact fun hwork message members => (hushes_log rfl message members).bind fun _ => hwork
  · unfold fetchReach
    dsimp only
    split
    · exact hushes_pure _
    · exact (hushes_fetch store load _).bind fun _ => hushes_pure _

/-! ## Loads and jobs -/

namespace Hushed

theorem concludeEarly (s : State) (l : Load) (expanding : Bool)
    (outcome : Except LoadFailure Outcome) : Hushed s (concludeEarly s l expanding outcome) := by
  unfold Engine.concludeEarly
  split <;> exact .of_same rfl rfl

theorem requestGraph (cfg : Settings) (store : Store) (s : State) (load : Nat) :
    Hushed s (requestGraph cfg store s load) := by
  unfold Engine.requestGraph
  split
  · exact .of_same rfl rfl
  · exact .of_same rfl rfl
  · rename_i g graphs _
    have hrequested : Hushed s { s with graphs := graphs } := .of_same rfl rfl
    exact (hrequested.trans (hushes_loadGraph store { s with graphs := graphs })).trans
      (.of_same rfl rfl)

theorem turnToGraph (cfg : Settings) (store : Store) (s : State) (l : Load) :
    Hushed s (turnToGraph cfg store s l) := by
  unfold Engine.turnToGraph
  split
  · exact .of_same rfl rfl
  · split
    · exact .requestGraph cfg store s l.id
    · exact (hushes_loadGraph store s).trans (.of_same rfl rfl)

theorem startLoad (cfg : Settings) (store : Store) (s : State) (l : Load) :
    Hushed s (startLoad cfg store s l) := by
  have hadded : Hushed s { s with loads := s.loads ++ [l] } := .of_same rfl rfl
  have hfetched := hadded.trans (hushes_fetchBase store l.id l.query _)
  obtain ⟨expanding, outcome, -, hstart⟩ | ⟨base, e, -, -, -, hstart⟩ :=
    startLoad_cases cfg store s l
  · rw [hstart]
    exact hfetched.trans (.concludeEarly _ l expanding outcome)
  · rw [hstart]
    have hbase : Hushed s (State.modifyLoad _ l.id fun l => { l with base := base }) :=
      hfetched.trans (.of_same rfl rfl)
    exact hbase.trans (.turnToGraph cfg store _ l)

/-- A call that has got nothing yet may begin to listen. -/
theorem join (hunsettled : ∀ c, s.calls[i]? = some c → c.settled = none) (load : Nat) :
    Hushed s (join s i load) := by
  have hwaits (listening : Bool) : Hushed s (s.modifyCall i fun c =>
      { c with load := some load, listening := listening }) :=
    .modifyCall fun c hc => ⟨rfl, fun _ => hunsettled c hc⟩
  obtain hjoin | hjoin := join_cases s i load <;> rw [hjoin] <;>
    exact (hwaits _).trans (.of_same rfl rfl)

theorem conclude (s : State) (l : Load) (outcome : Except LoadFailure Outcome) :
    Hushed s (conclude s l outcome) := by
  unfold Engine.conclude
  split <;> exact .of_same rfl rfl

/-- Only a call that finishes gets a result, and only then is there something to announce. -/
theorem performed {job : Job} (hs : Performed cfg store s job s')
    (hjob : ∀ call outcome, job ≠ .finish call outcome) : Hushed s s' := by
  cases hs with
  | unserved | unawaited | unknown | deliveredLate => exact .refl s
  | toldLate | subscribed | settled | settledGraph | deliveredGraph => exact .of_same rfl rfl
  | graphless | plain => exact .conclude s _ _
  | @expanded id l e found =>
    exact (hushes_expand cfg store id l.base e found s).trans (.conclude _ l _)
  | @delivered call =>
    have hdeaf : Hushed s (s.modifyCall call fun c => { c with listening := false }) :=
      .modifyCall fun _ _ => ⟨rfl, fun hlistening => absurd hlistening Bool.false_ne_true⟩
    exact hdeaf.trans (.of_same rfl rfl)
  | finished | finishedLate => exact absurd rfl (hjob _ _)

end Hushed

/-! ## Announcements -/

/-- The line that announces a result, if the logger passes it on. -/
def announcement? (logger : Logger) (r : Result) : Option LogLine :=
  logger.line? .debug "query complete"
    [.obj [("query", .str r.text), ("count", Issue.jsonInt r.outcome.issues.length),
      ("elapsed_ms", .num r.elapsed)]]

/-- Every result has been announced on standard output, and nothing else is there. -/
structure State.Announced (cfg : Settings) (s : State) : Prop where
  expectant : s.Expectant
  output : (outputLines s.lines).Perm (s.results.filterMap (announcement? cfg.logger))

namespace State.Announced

theorem hushed (h : s.Announced cfg) (hs : Hushed s s') : s'.Announced cfg :=
  ⟨hs.expectant h.expectant, by rw [hs.output, hs.results h.expectant]; exact h.output⟩

open scoped List in
/-- A call that has got nothing yet gets something, which is announced if it is a result. -/
theorem finishWith (h : s.Announced cfg) (hc : s.calls[i]? = some c) (hunsettled : c.settled = none)
    (result : Except Rejection Result) : (finishWith cfg s i result).Announced cfg := by
  cases result with
  -- a rejection is no result, and what is written about it goes elsewhere
  | error rejection =>
    have hrejected : Hushed s (s.settleCall i (.error rejection)) := by
      refine .modifyCall fun c' hc' => ⟨?_, fun hlistening => nomatch hlistening⟩
      obtain rfl := Option.some.inj (hc.symm.trans hc')
      rw [Call.result?, Call.result?, hunsettled]
      rfl
    refine (h.hushed hrejected).hushed ?_
    cases rejection with
    | failed text failure => exact .log rfl _ _ _
    | aborted reason => exact .refl _
  | ok r =>
    have hnone : c.result? = none := by rw [Call.result?, hunsettled]; rfl
    -- the call had no result before, so there is one more line and one more result
    have hresults : (State.results (s.settleCall i (.ok r))).Perm (r :: s.results) :=
      filterMap_modify_perm hc hnone rfl
    refine ⟨?_, ?_⟩
    · intro c' hc' hlistening
      obtain ⟨c, hold, rfl | ⟨-, rfl⟩⟩ := mem_modify hc'
      · exact h.expectant c' hold hlistening
      · exact nomatch hlistening
    · show (outputLines (s.lines ++ (announcement? cfg.logger r).toList)).Perm _
      have hline : outputLines (announcement? cfg.logger r).toList =
          (announcement? cfg.logger r).toList := outputLines_line? _ _ _ _
      rw [outputLines_append, hline]
      calc outputLines s.lines ++ (announcement? cfg.logger r).toList
        _ ~ s.results.filterMap (announcement? cfg.logger) ++ (announcement? cfg.logger r).toList :=
          h.output.append_right _
        _ ~ (announcement? cfg.logger r).toList ++ s.results.filterMap (announcement? cfg.logger) :=
          List.perm_append_comm
        _ = (r :: s.results).filterMap (announcement? cfg.logger) := by
          rw [List.filterMap_cons]
          cases announcement? cfg.logger r <;> rfl
        _ ~ _ := (hresults.filterMap _).symm

theorem perform (h : s.Announced cfg) {job : Job} (hs : Performed cfg store s job s') :
    s'.Announced cfg := by
  by_cases hjob : ∀ call outcome, job ≠ .finish call outcome
  · exact h.hushed (.performed hs hjob)
  · obtain ⟨call, outcome, rfl⟩ : ∃ call outcome, job = .finish call outcome := by
      simpa using hjob
    cases hs with
    | finished _ hc hunsettled => exact h.finishWith hc hunsettled _
    | finishedLate => exact h

theorem tick (h : s.Announced cfg) (hs : Ticked cfg store s s') : s'.Announced cfg := by
  cases hs with
  | idle => exact h
  | @due _ rest _ _ hs =>
    have hrest : State.Announced cfg { s with agenda := rest } := ⟨h.expectant, h.output⟩
    exact hrest.perform hs
  | putOff => exact ⟨h.expectant, h.output⟩

theorem call (h : s.Announced cfg) (text : Text) (signal : Option Text) :
    (call cfg store s text signal).Announced cfg := by
  let c : Call := ⟨text, signal, s.now, none, false, none⟩
  obtain ⟨texts, hcases⟩ := call_spec cfg store s text signal
  have hmade : State.Announced cfg { s with calls := s.calls ++ [c], expanding := texts } := by
    refine h.hushed ⟨rfl, fun hexpectant c' hc' => ?_, fun _ => ?_⟩
    · obtain hold | hnew := List.mem_append.mp hc'
      · exact hexpectant c' hold
      · obtain rfl := List.mem_singleton.mp hnew
        exact fun hlistening => nomatch hlistening
    · show (s.calls ++ [c]).filterMap Call.result? = _
      rw [List.filterMap_append]
      exact List.append_nil _
  have hlast : (s.calls ++ [c])[s.calls.length]? = some c := List.getElem?_concat_length
  obtain ⟨failure, -, hcall⟩ | ⟨q, hquery, ⟨reason, -, hcall⟩ | ⟨-, hcall⟩⟩ := hcases
  · rw [hcall]
    exact hmade.finishWith hlast rfl _
  · rw [hcall]
    exact hmade.finishWith hlast rfl (.error (.aborted reason))
  · rw [hcall]
    -- the cache of queries has no part in what is announced
    have hasked (queries : ReadThrough Text Outcome) : State.Announced cfg
        { s with calls := s.calls ++ [c], expanding := texts, queries := queries } :=
      hmade.hushed (.of_same rfl rfl)
    split
    · exact (hasked _).hushed (.startLoad cfg store _ _)
    · obtain ⟨selection, hselect⟩ := Query.select_of_check (check_of_readQuery hquery)
      unfold requestShared
      split
      · exact hmade.hushed (.of_same rfl rfl)
      · rename_i load queries _
        refine (hasked queries).hushed (.join (fun c' hc' => ?_) load)
        obtain rfl := Option.some.inj (hlast.symm.trans hc')
        rfl
      · rename_i load queries _
        dsimp only
        refine ((hasked queries).hushed (.startLoad cfg store _ _)).hushed
          (.join (fun c' hc' => ?_) load)
        -- the call has no load yet, so nothing has become of it
        have hstart : Aborting { s with
            calls := s.calls ++ [c], expanding := texts, queries := queries }
            (startLoad cfg store _ ⟨load, q, .shared none, [], none, [], none⟩) :=
          aborting_startLoad hselect _
        have hsame := hstart.free hlast rfl
        obtain rfl := Option.some.inj (hsame.symm.trans hc')
        rfl

theorem step (h : s.Announced cfg) (event : Event) : (step cfg store s event).Announced cfg := by
  cases event with
  | call text signal => exact h.call text signal
  | tick => exact h.tick (ticked cfg store s)
  | abort signal reason => exact h.hushed (.abort s signal reason)
  | invalidate => exact h.hushed (.of_same rfl rfl)
  | invalidateGraph => exact h.hushed (.of_same rfl rfl)
  | advance span => exact h.hushed (.of_same rfl rfl)
  | close => exact h.hushed (.of_same rfl rfl)

theorem run (h : s.Announced cfg) (events : List Event) :
    (run cfg store s events).Announced cfg :=
  List.foldlRecOn events _ h fun _ h event _ => h.step event

end State.Announced

theorem announced_new (now : Time) (queries : TtlCache Text Outcome)
    (graphs : TtlCache Unit Graph) : (State.new now queries graphs).Announced cfg :=
  ⟨fun _ hc => (List.not_mem_nil hc).elim, .refl []⟩

/-- In every state of an engine all results have been announced on standard output, and nothing else
is there. -/
theorem announced_run (cfg : Settings) (store : Store) (now : Time) (queries : TtlCache Text Outcome)
    (graphs : TtlCache Unit Graph) (events : List Event) :
    (run cfg store (.new now queries graphs) events).Announced cfg :=
  (announced_new now queries graphs).run events

/-! ## A call alone -/

/-- No call comes up in a turn. -/
theorem length_calls_tick (cfg : Settings) (store : Store) (s : State) :
    (tick cfg store s).calls.length = s.calls.length := by
  have hs := ticked cfg store s
  generalize tick cfg store s = s' at hs ⊢
  cases hs with
  | idle | putOff => rfl
  | @due job _ _ _ hs =>
    cases hjob : job.asks with
    | false => exact (hs.noWider hjob).calls
    | true =>
      -- a call that asks to be told has come up before
      cases hs with
      | unserved | toldLate | subscribed => rfl
      | settled | settledGraph | deliveredGraph | unawaited | unknown | graphless | plain
      | expanded | delivered | deliveredLate | finished | finishedLate => cases hjob

theorem length_calls_drain (cfg : Settings) (store : Store) (s : State) :
    (drain cfg store s).calls.length = s.calls.length := by
  unfold drain
  generalize patience s = n
  induction n generalizing s with
  | zero => rfl
  | succ n ih =>
    rw [ticks]
    split
    · rfl
    · rw [ih, length_calls_tick]

/-- The log says nothing on standard output for a call alone but to announce its result. -/
theorem drain_outputLines {now : Time} {signal : Option Text} {r : Result}
    (hresult : (drain cfg store (call cfg store (.initial now) text signal)).result? 0 =
      some (.ok r)) :
    outputLines (drain cfg store (call cfg store (.initial now) text signal)).lines =
      (announcement? cfg.logger r).toList := by
  have hannounced : (drain cfg store (call cfg store (.initial now) text signal)).Announced cfg := by
    have hrun : drain cfg store (call cfg store (.initial now) text signal) =
        run cfg store (.initial now) (.call text signal ::
          List.replicate (patience (call cfg store (.initial now) text signal)) .tick) :=
      ticks_eq_run cfg store _ _
    rw [hrun]
    exact announced_run cfg store now _ _ _
  have hcount := length_calls_drain cfg store (call cfg store (.initial now) text signal)
  rw [(called cfg store (.initial now) text signal).light.calls] at hcount
  -- only one call was made, so a permutation of its results is a list of one line
  generalize drain cfg store (call cfg store (.initial now) text signal) = s at *
  obtain ⟨c, hc⟩ := List.length_eq_one_iff.mp hcount
  have hsettled : c.settled = some (.ok r) := by
    rw [State.result?, hc] at hresult
    exact hresult
  have hresults : s.results = [r] := by
    rw [State.results, hc, List.filterMap_cons, Call.result?, hsettled]
    rfl
  have houtput := hannounced.output
  rw [hresults, List.filterMap_cons] at houtput
  cases hline : announcement? cfg.logger r with
  | none =>
    rw [hline] at houtput
    exact List.perm_nil.mp houtput
  | some line =>
    rw [hline] at houtput
    exact List.perm_singleton.mp houtput

end Engine

end IssueQuery
