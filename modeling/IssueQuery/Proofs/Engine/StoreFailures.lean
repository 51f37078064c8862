import IssueQuery.Proofs.Engine.FailedLoads
import IssueQuery.Proofs.Engine.Tables

/-!
# Failures of the store

A statement of a load may fail in three ways: the store refuses it, it fails while it runs, or a row is
unfit. Whichever statement it is, and whether the load has asked it itself or waits for a graph that
another load has asked for, everybody who shares the load is told the step that failed, and nothing
else comes of the load. Only if the cause is a bare value without a text, they are told neither. A text
that is no query does not even get that far.

* `Json.Wordless`  values without a text;
* `Tells`          what is told of a step that failed;
* `TurnedDown`     a call is rejected at once and leaves no trace;
* `RejectedFor`    a call of a load that failed gets the failure;
* `FailsIn`        a load has failed in a step;
* `Atlas`          charts for all runs of a new engine;
* `failures_are_staged` what comes of every statement that fails.
-/

namespace IssueQuery

/-! ## Values without a text -/

/-- An object has no text if it has a member `toString`, whatever that is, and an array has none if it
holds a value that has none. -/
inductive Json.Wordless : Json → Prop
  | object {members : List (Text × Json)} (value : Json)
    (hmember : (Text.ofString "toString", value) ∈ members) : Wordless (.obj members)
  | array {items : List Json} (item : Json) (hitem : item ∈ items) (hwordless : Wordless item) :
    Wordless (.arr items)

namespace Json

theorem isSome_member?_iff {name : Text} {members : List (Text × Json)} :
    (member? name members).isSome ↔ ∃ value, (name, value) ∈ members := by
  simp [member?]

theorem displayItems?_cons_eq_none_iff (item : Json) (rest : List Json) :
    displayItems? (item :: rest) = none ↔ item.display? = none ∨ displayItems? rest = none := by
  cases item with
  | null => simp [displayItems?, display?]
  | bool _ | num _ | str _ | arr _ | obj _ =>
    rw [displayItems?]
    · generalize display? _ = text
      cases text <;> simp
    · nofun

theorem displayItems?_eq_none_iff (items : List Json) :
    displayItems? items = none ↔ ∃ item ∈ items, item.display? = none := by
  induction items with
  | nil => simp [displayItems?]
  | cons item rest ih => rw [displayItems?_cons_eq_none_iff, ih, List.exists_mem_cons_iff]

/-- These values have no text, and all others have one. -/
theorem display?_eq_none_iff : ∀ value : Json, value.display? = none ↔ value.Wordless
  | .null | .bool _ | .num _ | .str _ => ⟨nofun, nofun⟩
  | .obj members => by
    rw [display?]
    split
    · rename_i hfound
      obtain ⟨value, hmember⟩ := isSome_member?_iff.mp hfound
      exact ⟨fun _ => .object value hmember, fun _ => rfl⟩
    · rename_i hmissing
      refine ⟨nofun, ?_⟩
      rintro ⟨value, hmember⟩
      exact absurd (isSome_member?_iff.mpr ⟨value, hmember⟩) hmissing
  | .arr items => by
    rw [display?, Option.map_eq_none_iff, displayItems?_eq_none_iff]
    constructor
    · rintro ⟨item, hitem, hnone⟩
      exact .array item hitem ((display?_eq_none_iff item).mp hnone)
    · rintro (_ | ⟨item, hitem, hwordless⟩)
      exact ⟨item, hitem, (display?_eq_none_iff item).mpr hwordless⟩

end Json

end IssueQuery

namespace IssueQuery.Engine

variable {store : Store} {cfg : Settings} {m : Mark} {s s₀ : State} {l : Load} {c : Call} {q : Query}
  {text : Text} {signal : Option Text} {failure : QueryFailure} {events : List Event}
  {G : List Event → Charts} {load i : Nat} {stage : Stage} {cause : StageCause} {e : LoadFailure}

/-! ## Texts that are no queries -/

/-- The call gets the failure of its text at once. But for that and for lines in the log, the engine is
as it was. -/
def TurnedDown (cfg : Settings) (store : Store) (s : State) (text : Text) (signal : Option Text)
    (failure : QueryFailure) : Prop :=
  ∃ lines, call cfg store s text signal =
    { s with
      calls := s.calls ++ [⟨text, signal, s.now, none, false, some (.error (.failed text failure))⟩]
      lines := lines }

theorem turnedDown_of_failure (cfg : Settings) (store : Store) (s : State) (signal : Option Text)
    (h : readQuery text = .error failure) : TurnedDown cfg store s text signal failure := by
  unfold TurnedDown call
  rw [h]
  dsimp only
  rw [finishWith, logResult, State.log, State.settleCall, State.modifyCall, modify_length_append]
  exact ⟨_, rfl⟩

theorem readQuery_of_parse_error {e : ParseError} (h : Query.parse text = .error e) :
    readQuery text = .error (.parse e) := by
  rw [readQuery, h]
  rfl

theorem readQuery_of_check_error {e : CheckError} (h : Query.parse text = .ok q)
    (hcheck : q.check = .error e) : readQuery text = .error (.validate e) := by
  rw [readQuery, h]
  show (do (q.check.mapError QueryFailure.validate); return q) = _
  rw [hcheck]
  rfl

/-! ## What is said of a load that failed -/

/-- The cause has no message: the store failed with a bare value that has no text. -/
def StageCause.Wordless : StageCause → Prop
  | .store (.bare value) => value.Wordless
  | .store (.error _) | .row _ => False

theorem StageCause.message?_eq_none_iff : cause.message? = none ↔ cause.Wordless := by
  cases cause with
  | store fault =>
    cases fault with
    | error message => exact ⟨nofun, nofun⟩
    | bare value => exact value.display?_eq_none_iff
  | row faults => exact ⟨nofun, nofun⟩

/-- What is told of a step that failed: which one it is, with the cause. Of a cause that has no message
neither is told. -/
structure Tells (e : LoadFailure) (stage : Stage) (cause : StageCause) : Prop where
  names : (∃ told, e = .stage stage cause told) ↔ ¬ cause.Wordless
  loses : cause.Wordless → e = .wordless

theorem tells_ofStep (stage : Stage) (cause : StageCause) :
    Tells (.ofStep stage cause) stage cause := by
  rw [LoadFailure.ofStep]
  by_cases told : cause.message?.isSome
  · have hwords : ¬ cause.Wordless := by
      rw [← StageCause.message?_eq_none_iff]
      exact Option.isSome_iff_ne_none.mp told
    rw [dif_pos told]
    exact ⟨⟨fun _ => hwords, fun _ => ⟨told, rfl⟩⟩, fun hwordless => absurd hwordless hwords⟩
  · have hwordless : cause.Wordless := by
      rw [← StageCause.message?_eq_none_iff]
      exact Option.not_isSome_iff_eq_none.mp told
    rw [dif_neg told]
    exact ⟨⟨nofun, fun hwords => absurd hwordless hwords⟩, fun _ => rfl⟩

/-- A call of a load gets the failure and nothing else, unless the signal of the call aborts, and it has
got that after enough turns. Once it has, the next call of the text begins with the statement of the
query again, unless a newer load of the text has started. -/
structure RejectedFor (cfg : Settings) (store : Store) (s : State) (i : Nat) (c : Call) (l : Load)
    (e : LoadFailure) : Prop where
  agrees : ∀ result, c.settled = some result → result = .error (.failed c.text (.execute e))
  settles : ∃ n, ∀ k, n ≤ k → (ticks cfg store k s).reason? c.signal = none →
    (ticks cfg store k s).result? i = some (.error (.failed c.text (.execute e)))
  again : c.settled ≠ none → (∀ k, s.Claims c.text k → k ≤ l.id) →
    AsksAgain cfg store s c.text l.query

/-- The load fails in the step for the cause, at the latest with the last of the events. Whatever happens
behind them, nothing more is asked for the load; at no time is anything kept that comes from it; and
every call that it serves is rejected with what is told of the step, unless the signal of the call
aborts. -/
structure FailsIn (cfg : Settings) (store : Store) (s₀ : State) (events : List Event) (load : Nat)
    (stage : Stage) (cause : StageCause) : Prop where
  closed : ∀ more, ledger cfg store load s₀ (events ++ more) = ledger cfg store load s₀ events
  keepsNothing : ∀ more before after text outcome, events ++ more = before ++ after →
    (run cfg store s₀ before).queries.store.Holds text outcome →
    Supplied cfg store s₀ before load text outcome
  rejects : ∃ e, Tells e stage cause ∧ ∀ more, let s := run cfg store s₀ (events ++ more)
    ∀ (i : Nat) (c : Call) (l : Load), s.calls[i]? = some c → l ∈ s.loads → l.id = load →
      l.Serves i c → s.reason? c.signal = none → RejectedFor cfg store s i c l e

/-! ## Engines that do not share their loads -/

/-- A turn keeps or drops what there is in the cache, but for the turn in which a load ends. -/
theorem queries_tick (cfg : Settings) (store : Store) (s : State) :
    s.queries.Subsides (tick cfg store s).queries ∨ ∃ load outcome rest,
      s.agenda = (0, .settle load outcome) :: rest ∧
      (tick cfg store s).queries = s.queries.settle load outcome.toOption s.now := by
  have hs := ticked cfg store s
  generalize tick cfg store s = s' at hs ⊢
  cases hs with
  | idle | putOff => exact .inl (.refl _)
  | @due job rest _ hagenda hs =>
    cases job with
    | subscribe _ | settleGraph _ _ | deliverGraph _ _ | resume _ _ =>
      exact .inl (hs.aborting rfl).queries
    | settle load outcome =>
      cases hs with
      | settled => exact .inr ⟨load, outcome, rest, hagenda, rfl⟩
    | deliver i outcome => cases hs <;> exact .inl (.refl _)
    | finish i outcome =>
      cases hs with
      | finished => exact .inl (frame_finishWith cfg { s with agenda := rest } i _).queriesSubside
      | finishedLate => exact .inl (.refl _)

/-- In an engine that does not share its loads, there is never anything of any text. -/
theorem not_has_run_of_disabled (hoff : cfg.disabled = true) (h : ∀ text, ¬ Has s.queries text)
    (events : List Event) (text : Text) : ¬ Has (run cfg store s events).queries text := by
  induction events generalizing s with
  | nil => exact h text
  | cons event rest ih =>
    refine ih fun text hhas => ?_
    by_cases hcall : ∃ text signal, event = .call text signal
    · obtain ⟨made, signal, rfl⟩ := hcall
      have hcalled : Called cfg store s made signal (step cfg store s (.call made signal)) :=
        called cfg store s made signal
      generalize step cfg store s (.call made signal) = s' at hcalled hhas
      -- a call that is not kept in the cache leaves it as it was, and the others need it enabled
      cases hcalled with
      | rejected texts rejection lines hcause => exact h text hhas
      | kept texts queries out hon => exact nomatch hoff.symm.trans hon
      | joined texts queries load hon => exact nomatch hoff.symm.trans hon
      | shared texts queries q hon => exact nomatch hoff.symm.trans hon
      | own texts q _ hquery hquiet =>
        obtain ⟨selection, hselect⟩ := Query.select_of_check (check_of_readQuery hquery)
        let idle : State := s.made made signal texts s.queries.startUnshared.2
        have haborting : Aborting idle (startLoad cfg store idle
            ⟨s.queries.started, q, .own s.calls.length signal, [], none, [], none⟩) :=
          aborting_startLoad hselect idle
        have hidle : Has idle.queries text := hhas.of_subsides haborting.queries
        exact h text hidle
    by_cases htick : event = .tick
    · subst htick
      obtain hsubsides | ⟨load, outcome, rest, -, hsettles⟩ := queries_tick cfg store s
      · exact h text (hhas.of_subsides hsubsides)
      · have hhas : Has (tick cfg store s).queries text := hhas
        rw [hsettles] at hhas
        exact h text hhas.of_settle
    · have hlulls := lulls_step cfg store s (fun text signal hsame => hcall ⟨text, signal, hsame⟩) htick
      exact h text (hhas.of_subsides hlulls.queries)

/-- In such an engine every call of a query starts a load. -/
theorem begins_of_disabled (hoff : cfg.disabled = true)
    (hbelow : ∀ l ∈ s.loads, l.id < s.queries.started) (hquery : readQuery text = .ok q)
    (hquiet : s.reason? signal = none) : Begins q s (call cfg store s text signal) := by
  obtain ⟨texts, hcases⟩ := call_spec cfg store s text signal
  obtain ⟨failure, hfailure, -⟩ | ⟨q', hquery', ⟨reason, hreason, -⟩ | ⟨-, hcall⟩⟩ := hcases
  · exact nomatch hquery.symm.trans hfailure
  · exact nomatch hquiet.symm.trans hreason
  · obtain rfl := Except.ok.inj (hquery.symm.trans hquery')
    rw [hcall, if_pos hoff]
    let made : State := { s with
      calls := s.calls ++ [⟨text, signal, s.now, none, false, none⟩], expanding := texts }
    have hbegins : Begins q made (requestOwn cfg store made s.calls.length signal q) :=
      begins_requestOwn cfg store (s := made) hbelow (check_of_readQuery hquery) s.calls.length hquiet
    exact hbegins

/-! ## Charts for all runs -/

/-- These are charts for all runs of an engine in which nothing is kept. -/
structure Atlas (cfg : Settings) (store : Store) (m : Mark) (s₀ : State)
    (G : List Event → Charts) : Prop where
  logged : ∀ events, Logged store (fun load => ledger cfg store load s₀ events) (G events)
    (run cfg store s₀ events)
  grows : ∀ events more, (G events).Grows (G (events ++ more))
  sound : ∀ events, Sound cfg store m (run cfg store s₀ events)
  tidy : cfg.disabled = false → Tidy store s₀
  current : cfg.disabled = false → ∀ events, Current (G events) (run cfg store s₀ events)
  empty : ∀ text, ¬ Has s₀.queries text

theorem exists_atlas (cfg : Settings) (store : Store) (now : Time)
    (ttl interval ttl' interval' : Option Time) :
    let s₀ := State.new now (.new now ttl interval) (.new now ttl' interval')
    ∃ G, Atlas cfg store (s₀.mark fun _ => True) s₀ G := by
  intro s₀
  have hsound : Sound cfg store _ s₀ := sound_new now ttl interval ttl' interval'
  obtain ⟨G, hstart, hG⟩ :=
    (logged_new store now ttl interval ttl' interval').exists_charts cfg hsound.traced
  have hlogged (events : List Event) : Logged store (fun load => ledger cfg store load s₀ events)
      (G events) (run cfg store s₀ events) := by
    simpa using (hG events).1
  have htidy (hon : cfg.disabled = false) : Tidy store s₀ :=
    Reachable.tidy hon ⟨now, ttl, interval, ttl', interval', [], rfl⟩
  have hempty (text : Text) : ¬ Has s₀.queries text := by
    rintro (⟨outcome, hholds⟩ | ⟨f, hf, -⟩)
    · exact TtlCache.not_holds_new hholds
    · exact nomatch hf
  refine ⟨G, hlogged, fun events => (hG events).2, fun events => (hsound.run events).1, htidy,
    fun hon events => ?_, hempty⟩
  have hbare : Current (G []) (run cfg store s₀ []) :=
    ⟨fun _ hf => (nomatch hf), fun text outcome hheld => absurd (.inl ⟨outcome, hheld⟩) (hempty text)⟩
  exact hbare.run hon (htidy hon) (fun events => (hlogged events).charted) (fun events => (hG events).2)
    events

namespace Atlas

/-- Loads stay. -/
theorem exists_load (h : Atlas cfg store m s₀ G) (hl : l ∈ (run cfg store s₀ events).loads)
    (more : List Event) : ∃ l' ∈ (run cfg store s₀ (events ++ more)).loads, l'.id = l.id :=
  (h.logged (events ++ more)).exists_load
    (((h.grows events more).loads l.id).made_ne_nil ((h.logged events).begun l hl))

theorem closed (h : Atlas cfg store m s₀ G) (hl : l ∈ (run cfg store s₀ events).loads)
    (hfails : ((G events).loads l.id).Fails e) (more : List Event) :
    ledger cfg store l.id s₀ (events ++ more) = ledger cfg store l.id s₀ events := by
  have htraced := (h.sound events).traced
  have hnothing : ledger cfg store l.id (run cfg store s₀ events) more = [] :=
    (h.logged events).closed htraced (htraced.below l hl) hfails more
  rw [ledger_append, hnothing, List.append_nil]

theorem keepsNothing (h : Atlas cfg store m s₀ G) (hl : l ∈ (run cfg store s₀ events).loads)
    (hfails : ((G events).loads l.id).Fails e) {more before after : List Event} {text : Text}
    {outcome : Outcome} (hsame : events ++ more = before ++ after)
    (hholds : (run cfg store s₀ before).queries.store.Holds text outcome) :
    Supplied cfg store s₀ before l.id text outcome := by
  cases hmode : cfg.disabled with
  | true =>
    exact absurd (.inl ⟨outcome, hholds⟩) (not_has_run_of_disabled hmode h.empty before text)
  | false =>
    obtain hheld | ⟨front, back, f, rest, rfl, hf, -, hkey, hagenda⟩ :=
      (h.tidy hmode).exists_supplier hmode hholds
    · exact absurd (.inl ⟨outcome, hheld⟩) (h.empty text)
    · refine ⟨front, back, f, rest, rfl, hf, fun hid => ?_, hkey, hagenda⟩
      -- the load would have come to the outcome, and yet it fails
      have hended : ((G front).loads f.id).fate = some (.ok outcome) :=
        (h.logged front).charted.jobs (.settle f.id (.ok outcome)) (pending_head hagenda)
      have hfate : ((G (events ++ more)).loads l.id).fate = some (.ok outcome) := by
        rw [hsame, List.append_assoc, ← hid]
        exact ((h.grows front _).loads f.id).fate _ hended
      obtain ⟨l', hl', hid'⟩ := h.exists_load hl more
      have hlawful := ((h.logged (events ++ more)).charted.loads l' hl').lawful
      rw [hid'] at hlawful
      exact nomatch hlawful.eq_of_fails (hfails.grows ((h.grows events more).loads l.id)) hfate

/-- Once a call of a load that fails has got its failure, there is nothing of its text, unless a newer
load of the text has started. -/
theorem asksAgain (h : Atlas cfg store m s₀ G) (hl : l ∈ (run cfg store s₀ events).loads)
    (hfails : ((G events).loads l.id).Fails e) (hc : (run cfg store s₀ events).calls[i]? = some c)
    (hserves : l.Serves i c) (hquiet : (run cfg store s₀ events).reason? c.signal = none)
    (hsettled : c.settled ≠ none)
    (hlast : ∀ k, (run cfg store s₀ events).Claims c.text k → k ≤ l.id) :
    AsksAgain cfg store (run cfg store s₀ events) c.text l.query := by
  have hsound := h.sound events
  have hcharted := (h.logged events).charted
  obtain ⟨hquery, hserver⟩ := hcharted.served hsound.traced hc hl hserves
  obtain ⟨hon, htidy⟩ | ⟨hoff, -⟩ := hsound.attended
  · obtain ⟨result, hresult⟩ := Option.ne_none_iff_exists'.mp hsettled
    obtain ⟨-, hover⟩ := hcharted.rejected hl hfails hserver hc hquiet hresult
    have hload : c.load = some l.id := by
      obtain ⟨aborted, hshared⟩ := (htidy.alert.attentive.loads l hl).shared
      unfold Load.Serves at hserves
      rwa [hshared] at hserves
    apply htidy.asksAgain hon hquery
    refine (h.current hon events).not_has ⟨⟨i, c, hc, rfl, hload⟩, hlast⟩
      (hcharted.isOver l.id hover) fun out hfate => ?_
    exact nomatch (hcharted.loads l hl).lawful.eq_of_fails hfails hfate
  · exact fun more signal _ hsignal =>
      begins_of_disabled hoff (hsound.run more).1.traced.below hquery hsignal

/-- A call of a load that fails gets the failure, unless its signal aborts. -/
theorem rejectedFor (h : Atlas cfg store m s₀ G) (hl : l ∈ (run cfg store s₀ events).loads)
    (hfails : ((G events).loads l.id).Fails e) (hc : (run cfg store s₀ events).calls[i]? = some c)
    (hserves : l.Serves i c) (hquiet : (run cfg store s₀ events).reason? c.signal = none) :
    RejectedFor cfg store (run cfg store s₀ events) i c l e where
  agrees := by
    intro result hresult
    have hcharted := (h.logged events).charted
    obtain ⟨-, hserver⟩ := hcharted.served (h.sound events).traced hc hl hserves
    exact (hcharted.rejected hl hfails hserver hc hquiet hresult).1
  settles := by
    obtain ⟨-, hserver⟩ := (h.logged events).charted.served (h.sound events).traced hc hl hserves
    obtain ⟨n, hn⟩ := exists_agenda_empty cfg store (run cfg store s₀ events)
    refine ⟨n, fun k hk hstill => ?_⟩
    have hempty := hn k hk
    rw [ticks_eq_run] at hempty hstill ⊢
    obtain ⟨hsound, hcalls⟩ := (h.sound events).run (List.replicate k .tick)
    obtain ⟨c', hc', htext, hsignal⟩ := hcalls i c hc
    obtain ⟨result, hresult⟩ :=
      Option.ne_none_iff_exists'.mp (hsound.attended.settled_of_agenda hempty hc')
    -- the load is still there, it still serves the call, and it still fails
    obtain ⟨l', hl', hid⟩ := h.exists_load hl (List.replicate k .tick)
    have hgrows := h.grows events (List.replicate k .tick)
    have hcharted := (h.logged (events ++ List.replicate k .tick)).charted
    rw [run_append] at hl' hcharted
    obtain ⟨rfl, -⟩ := hcharted.rejected hl' (hid ▸ hfails.grows (hgrows.loads l.id))
      (hid ▸ hgrows.server i _ hserver) hc' (hsignal ▸ hstill) hresult
    rw [State.result?, hc', Option.bind_some, hresult, htext]
  again := h.asksAgain hl hfails hc hserves hquiet

theorem failsIn (h : Atlas cfg store m s₀ G) (hl : l ∈ (run cfg store s₀ events).loads)
    (hfails : ((G events).loads l.id).Fails (.ofStep stage cause)) :
    FailsIn cfg store s₀ events l.id stage cause where
  closed := h.closed hl hfails
  keepsNothing := fun more before after text outcome => h.keepsNothing hl hfails
  rejects := by
    refine ⟨_, tells_ofStep stage cause, ?_⟩
    intro more s i c l' hc hl' hid hserves hquiet
    exact h.rejectedFor hl' (hid ▸ hfails.grows ((h.grows events more).loads l.id)) hc hserves hquiet

end Atlas

/-- Whatever comes to an engine, and whatever the store answers: a text that is no query is turned down
at once, with the failure of its parsing or its check, and but for a line in the log the engine stays as
it is.

Every other failure is that of a statement. What is asked for a load follows a plan, and if one of
these inquiries fails, then it is the last one and the load fails in its step: nothing more is asked
for it and nothing is ever kept of it, whoever shares it is rejected unless the signal of that call
aborts, and the next call of the text begins anew. The failure names the step and the cause, unless the
cause is a bare value without a text. So it is with a load that waits for a load of the graph, be it that
another load has started that: it fails if the statement fails with which that load of the graph is to
end. -/
theorem failures_are_staged (cfg : Settings) (store : Store) (now : Time)
    (ttl interval ttl' interval' : Option Time) (events : List Event) :
    let s₀ := State.new now (.new now ttl interval) (.new now ttl' interval')
    let s := run cfg store s₀ events
    (∀ (s : State) (text : Text) (signal : Option Text),
      (∀ e, Query.parse text = .error e → TurnedDown cfg store s text signal (.parse e)) ∧
      ∀ q e, Query.parse text = .ok q → q.check = .error e →
        TurnedDown cfg store s text signal (.validate e)) ∧
    ∀ l ∈ s.loads,
      (∃ made, Planned store l.query made ∧ ledger cfg store l.id s₀ events = entries store made ∧
        ∀ before b n after cause, made = before ++ (b, n) :: after → b.fault? store n = some cause →
          after = [] ∧ FailsIn cfg store s₀ events l.id b.stage cause) ∧
      ∀ g, (g, l.id) ∈ s.graphWaiters →
        ∃ asker n, (Inquiry.graph.entry store n, n) ∈ ledger cfg store asker s₀ events ∧
          (∀ graph, s.Pending (.settleGraph g graph) → graph = graphOf store n) ∧
          ∀ cause, Inquiry.graph.fault? store n = some cause →
            FailsIn cfg store s₀ events l.id .graph cause := by
  intro s₀ s
  obtain ⟨G, hatlas⟩ : ∃ G, Atlas cfg store _ s₀ G :=
    exists_atlas cfg store now ttl interval ttl' interval'
  have hlogged := hatlas.logged events
  refine ⟨fun s text signal => ⟨fun e h => ?_, fun q e h hcheck => ?_⟩, fun l hl => ⟨?_, fun g hg => ?_⟩⟩
  · exact turnedDown_of_failure cfg store s signal (readQuery_of_parse_error h)
  · exact turnedDown_of_failure cfg store s signal (readQuery_of_check_error h hcheck)
  · have hlawful := (hlogged.charted.loads l hl).lawful
    refine ⟨((G events).loads l.id).made, hlawful.planned (hlogged.begun l hl), hlogged.past l.id, ?_⟩
    intro before b n after cause hmade hfault
    obtain ⟨hlast, hfails⟩ := hlawful.of_fault hmade hfault
    exact ⟨hlast, hatlas.failsIn hl hfails⟩
  · obtain ⟨n, hn, hsource⟩ := hlogged.charted.waiters (g, l.id) hg
    -- a graph that a load waits for was asked by some load, whose ledger shows it
    obtain ⟨asker, hasked⟩ := hlogged.charted.asked g n hn
    refine ⟨asker, n, ?_, fun graph hpending => ?_, fun cause hfault => ?_⟩
    · have hpast : ledger cfg store asker s₀ events = entries store ((G events).loads asker).made :=
        hlogged.past asker
      rw [hpast]
      exact List.mem_map_of_mem hasked
    · obtain ⟨k, hk, hgraph⟩ := hlogged.charted.jobs _ hpending
      obtain rfl := Option.some.inj (hk.symm.trans hn)
      exact hgraph
    · obtain ⟨graph, -, hnone⟩ | ⟨cause', hgraph, hsome⟩ := graphOf_cases store n
      · exact nomatch hnone.symm.trans hfault
      · obtain rfl := Option.some.inj (hsome.symm.trans hfault)
        exact hatlas.failsIn hl (.inr (hgraph ▸ hsource))

/-- There is a table of issues. Of dependencies there is none, as the only statement without values
finds out. -/
def untabled : Store := fun n statement =>
  if statement.params.isEmpty then .refused "no such table: dependencies"
  else tableStore ["a"] [] n statement

/-- Two queries wait for one graph. -/
def twoWaiting : State :=
  run ⟨5, false, default⟩ untabled (.initial 0)
    [.call "id=a expand up" none, .call "id=a expand down" none]

/-- The load that has asked for the graph fails with it, and so does the other one. -/
theorem failures_are_staged_twoWaiting :
    twoWaiting.loads.map Load.id = [0, 1] ∧ ∀ l ∈ twoWaiting.loads,
      FailsIn ⟨5, false, default⟩ untabled (.initial 0)
        [.call "id=a expand up" none, .call "id=a expand down" none] l.id .graph
        (.store (.error "no such table: dependencies")) := by
  have hrun : twoWaiting.loads.map Load.id = [0, 1] ∧ twoWaiting.graphWaiters = [(0, 0), (0, 1)] := by
    decide +kernel
  obtain ⟨hloads, hwaiters⟩ := hrun
  obtain ⟨-, hfailures⟩ := failures_are_staged ⟨5, false, default⟩ untabled 0 none none none none
    [.call "id=a expand up" none, .call "id=a expand down" none]
  refine ⟨hloads, fun l hl => ?_⟩
  have hid : l.id ∈ twoWaiting.loads.map Load.id := List.mem_map_of_mem hl
  have hwaits : (0, l.id) ∈ twoWaiting.graphWaiters := by
    rw [hwaiters]
    rw [hloads] at hid
    simpa using hid
  obtain ⟨asker, n, -, -, hfails⟩ := (hfailures l hl).2 0 hwaits
  exact hfails _ rfl

/-- A store that fails with an object which has a member `toString`. -/
def mutteringStore : Store := fun _ _ =>
  .ran 0 [] (.error (.bare (.obj [(Text.ofString "toString", .num 1)])))

/-- The one call over the store, when all turns are taken. -/
def muttered : State :=
  run ⟨5, false, default⟩ mutteringStore (.initial 0)
    (.call "status=open" none :: List.replicate 8 .tick)

/-- The message of the failure of a call's load, with the step that the failure names. -/
def State.failure? (s : State) (i : Nat) : Option (Text × Option Stage) :=
  match s.result? i with
  | some (.error (.failed _ (.execute e))) =>
    some (e.message, match e with | .stage stage _ _ => some stage | _ => none)
  | _ => none

/-- The first statement fails, and the call gets a failure that does not name its step. -/
theorem failures_are_staged_wordless :
    (∀ selection, ∃ cause, (Inquiry.selected selection).fault? mutteringStore 0 = some cause) ∧
    muttered.journal.length = 1 ∧
    muttered.failure? 0 = some (Text.ofString "Cannot convert object to primitive value", none) ∧
    ∀ stage cause told, muttered.result? 0 ≠
      some (.error (.failed "status=open" (.execute (.stage stage cause told)))) := by
  have hrun : muttered.journal.length = 1 ∧
      muttered.failure? 0 = some (Text.ofString "Cannot convert object to primitive value", none) := by
    decide +kernel
  obtain ⟨hlength, hfailure⟩ := hrun
  refine ⟨fun selection => ⟨_, rfl⟩, hlength, hfailure, fun stage cause told hresult => ?_⟩
  rw [State.failure?, hresult] at hfailure
  cases (Prod.mk.inj (Option.some.inj hfailure)).2

end IssueQuery.Engine
