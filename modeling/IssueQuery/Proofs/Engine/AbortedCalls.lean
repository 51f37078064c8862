import IssueQuery.Proofs.Engine.Steps

/-!
# Aborted calls

A call whose signal aborts before it has its result gets the reason of its signal and nothing else,
at whatever moment that happens. If it is turned away from a load that nobody else has joined, then
nothing that the load comes to is kept, and the next call of the text asks the store again.

A call listens to its signal only once it has joined its load, which is when the first statements
have run. If its signal aborts earlier, while those run, the load goes on and its outcome is kept. So
it is if the signal aborts when the load has just ended.

* `RejectsWith`, `CachesNothing`, `AsksAgain` what is said of a call, a load and a text;
* `Doomed`                a call whose signal has aborted;
* `Detached`              a load that nobody can join;
* `Tidy.lone`             a call that has a load for itself;
* `aborted_call`          an aborted call gets its reason, and no result is kept for it;
* `aborted_call_kept`     unless it is aborted while its first statements run, or too late.
-/

namespace IssueQuery.Engine

variable {cfg : Settings} {store : Store} {s s' : State} {c : Call} {i load : Nat} {text : Text}
  {reason : Text} {event : Event} {q : Query} {f : Flight Text}

/-! ## What is said of calls, loads and texts -/

/-- Whatever happens to the engine, the call gets nothing but the reason, and it has got that after
enough turns. -/
structure RejectsWith (cfg : Settings) (store : Store) (s : State) (i : Nat) (reason : Text) :
    Prop where
  agrees : ∀ events result, (run cfg store s events).result? i = some result →
    result = .error (.aborted reason)
  settles : ∀ events, ∃ n, ∀ m, n ≤ m →
    (ticks cfg store m (run cfg store s events)).result? i = some (.error (.aborted reason))

/-- Among the events is a turn that ends another load of the text with the outcome. -/
def Supplied (cfg : Settings) (store : Store) (s : State) (events : List Event) (load : Nat)
    (text : Text) (outcome : Outcome) : Prop :=
  ∃ before after f rest, events = before ++ .tick :: after ∧
    f ∈ (run cfg store s before).queries.flights ∧ f.id ≠ load ∧ f.key = text ∧
    (run cfg store s before).agenda = (0, .settle f.id (.ok outcome)) :: rest

/-- Whatever happens to the engine, results that are kept then are kept already, or they come from
other loads. -/
def CachesNothing (cfg : Settings) (store : Store) (s : State) (load : Nat) : Prop :=
  ∀ events text outcome, (run cfg store s events).queries.store.Holds text outcome →
    s.queries.store.Holds text outcome ∨ Supplied cfg store s events load text outcome

/-- The next call of the text starts a load, which begins with the statement of the query, unless
the signal of that call has aborted before. -/
def AsksAgain (cfg : Settings) (store : Store) (s : State) (text : Text) (q : Query) : Prop :=
  ∀ events signal, (∀ signal, .call text signal ∉ events) →
    (run cfg store s events).reason? signal = none →
    Begins q (run cfg store s events) (call cfg store (run cfg store s events) text signal)

/-! ## Calls whose signals have aborted -/

/-- The signal of the call has aborted, and the call has got nothing but its reason, if anything. -/
def Doomed (s : State) (i : Nat) (reason : Text) : Prop :=
  ∃ c, s.calls[i]? = some c ∧ s.reason? c.signal = some reason ∧
    (c.settled = none ∨ c.settled = some (.error (.aborted reason)))

/-- An event at which the signal of a call aborts, or at which a call is made whose signal has
aborted. -/
theorem Shape.dooms (h : Shape store s event s') (hstore : Unfailing store)
    (hopen : s.result? i = none)
    (hc : s'.calls[i]? = some c) (hquery : readQuery c.text = .ok q)
    (habort : s'.reason? c.signal = some reason) : Doomed s' i reason := by
  refine ⟨c, hc, habort, ?_⟩
  cases hold : s.calls[i]? with
  | none => exact (h.made hc hold q hquery).imp_right fun heeds => heeds reason habort
  | some c₀ =>
    have hunsettled : c₀.settled = none := by
      rw [State.result?, hold] at hopen
      exact hopen
    obtain ⟨c', hc', hcontinues⟩ := h.continues hold
    obtain rfl := Option.some.inj (hc.symm.trans hc')
    exact hcontinues.settled.imp (fun hsame => hsame.trans hunsettled) fun heeds =>
      heeds hstore reason habort

theorem Shape.doomed (h : Shape store s event s') (hstore : Unfailing store)
    (hdoomed : Doomed s i reason) :
    Doomed s' i reason := by
  obtain ⟨c, hc, hreason, hsettled⟩ := hdoomed
  obtain ⟨c', hc', hcontinues⟩ := h.continues hc
  have hreason' : s'.reason? c'.signal = some reason := by
    rw [hcontinues.signal]
    exact h.remembers _ _ hreason
  refine ⟨c', hc', hreason', ?_⟩
  obtain hsame | heeds := hcontinues.settled
  · rw [hsame]
    exact hsettled
  · exact .inr (heeds hstore reason hreason')

theorem Doomed.run (hon : cfg.disabled = false) (hstore : Unfailing store) (h : Tidy store s)
    (hdoomed : Doomed s i reason) (events : List Event) :
    Doomed (run cfg store s events) i reason :=
  h.run_keeps (P := fun s => Doomed s i reason) hon hdoomed
    (fun _ _ _ _ hshape hd => hshape.doomed hstore hd) events

/-- Once the agenda is empty, every call has got its result. -/
theorem Tidy.settled_of_agenda (h : Tidy store s) (hempty : s.agenda = [])
    (hc : s.calls[i]? = some c) :
    c.settled ≠ none := by
  have hidle : ∀ j, ¬ s.Pending j := by
    rintro j ⟨turns, hj⟩
    rw [hempty] at hj
    exact nomatch hj
  intro hunsettled
  have hattentive := h.alert.attentive
  obtain ⟨j, hj, -⟩ | ⟨l, hl, hended, hi⟩ := hattentive.served i c hc hunsettled
  · exact hidle j hj
  · -- the load that would tell the call is not called off, so some job would further it
    obtain ⟨c', hc', hload⟩ := (hattentive.loads l hl).subscribers i hi
    obtain rfl := Option.some.inj (hc.symm.trans hc')
    obtain ⟨l', hl', hid, hon⟩ := (hattentive.calls i c hc).loaded l.id hload
    obtain rfl := List.inj_on_of_nodup_map hattentive.distinct hl' hl hid
    obtain ⟨j, hj, -⟩ := hattentive.furthered l' hl' (hon hunsettled) hended
    exact hidle j hj

/-- Turns are events, and a turn with nothing to do changes nothing. -/
theorem ticks_eq_run (cfg : Settings) (store : Store) (n : Nat) (s : State) :
    ticks cfg store n s = run cfg store s (List.replicate n .tick) := by
  induction n generalizing s with
  | zero => rfl
  | succ n ih =>
    rw [ticks]
    split
    · rename_i hempty
      have hidle : tick cfg store s = s := by
        unfold tick
        rw [List.isEmpty_iff.mp hempty]
      have hstays : ticks cfg store n s = s := by
        cases n with
        | zero => rfl
        | succ n => rw [ticks, if_pos hempty]
      show s = run cfg store (tick cfg store s) (List.replicate n .tick)
      rw [hidle, ← ih, hstays]
    · exact ih (tick cfg store s)

/-- A call whose signal has aborted gets its reason. -/
theorem Doomed.rejectsWith (hon : cfg.disabled = false) (hstore : Unfailing store)
    (h : Tidy store s)
    (hdoomed : Doomed s i reason) : RejectsWith cfg store s i reason where
  agrees := by
    intro events result hresult
    obtain ⟨c, hc, -, hnone | hsettled⟩ := hdoomed.run hon hstore h events
    · rw [State.result?, hc, Option.bind_some, hnone] at hresult
      exact nomatch hresult
    · rw [State.result?, hc, Option.bind_some, hsettled] at hresult
      exact (Option.some.inj hresult).symm
  settles := by
    intro events
    have hrun := h.run hon events
    obtain ⟨n, hn⟩ := exists_agenda_empty cfg store (Engine.run cfg store s events)
    refine ⟨n, fun m hm => ?_⟩
    have hempty := hn m hm
    rw [ticks_eq_run] at hempty ⊢
    obtain ⟨c, hc, -, hnone | hsettled⟩ :=
      (hdoomed.run hon hstore h events).run hon hstore hrun (List.replicate m .tick)
    · exact absurd hnone ((hrun.run hon _).settled_of_agenda hempty hc)
    · rw [State.result?, hc]
      exact hsettled

/-! ## Loads that nobody can join -/

/-- The load has started, and nobody can join it. -/
structure Detached (queries : ReadThrough Text Outcome) (load : Nat) : Prop where
  started : load < queries.started
  flights : ∀ f ∈ queries.flights, f.id = load → f.attached = false

namespace Detached

variable {queries queries' : ReadThrough Text Outcome}

theorem subsides (h : Detached queries load) (hs : queries.Subsides queries') :
    Detached queries' load where
  started := by
    rw [hs.started]
    exact h.started
  flights := by
    intro f hf hid
    refine Bool.eq_false_iff.mpr fun hattached => ?_
    obtain ⟨g, hg, hgattached, hgid, -⟩ := hs.flights f hf hattached
    rw [h.flights g hg (hgid.trans hid)] at hgattached
    exact nomatch hgattached

theorem settle (h : Detached queries load) (ended : Nat) (value : Option Outcome) (now : Time) :
    Detached (queries.settle ended value now) load where
  started := by
    rw [ReadThrough.settle_started]
    exact h.started
  flights := by
    exact fun f hf => h.flights f (ReadThrough.mem_settle_flights.mp hf).1

theorem starts (h : Detached queries load) (hs : queries.Starts queries' text) :
    Detached queries' load where
  started := by
    rw [hs.started]
    exact Nat.lt_succ_of_lt h.started
  flights := by
    obtain ⟨ttl, hflights⟩ := hs.flights
    intro f hf hid
    rw [hflights] at hf
    obtain hold | hnew := List.mem_append.mp hf
    · exact h.flights f hold hid
    · obtain rfl := List.mem_singleton.mp hnew
      exact absurd hid (Nat.ne_of_gt h.started)

end Detached

/-- A load that nobody can join stays so. -/
theorem Shape.detached (h : Shape store s event s') (hd : Detached s.queries load) :
    Detached s'.queries load := by
  cases h with
  | aborting h => exact hd.subsides h.queries
  | quiet _ hqueries => exact hd.subsides hqueries
  | settles _ _ _ hqueries =>
    rw [hqueries]
    exact hd.settle _ _ _
  | @opens _ _ middle last _ h =>
    rw [h.joins, join_queries]
    exact (hd.starts h.starts).subsides h.aborting.queries

/-- What an event adds to the results that are kept comes from a load that callers can join. -/
theorem Shape.holds (h : Shape store s event s') {outcome : Outcome}
    (hholds : s'.queries.store.Holds text outcome) :
    s.queries.store.Holds text outcome ∨ event = .tick ∧ ∃ f rest, f ∈ s.queries.flights ∧
      f.attached = true ∧ f.key = text ∧ s.agenda = (0, .settle f.id (.ok outcome)) :: rest := by
  cases h with
  | aborting h => exact .inl (h.queries.holds _ _ hholds)
  | quiet _ hqueries => exact .inl (hqueries.holds _ _ hholds)
  | @settles _ _ result rest htick hagenda hqueries =>
    rw [hqueries] at hholds
    obtain ⟨hvalue, f, hf, hid, hkey, hattached⟩ | hheld := ReadThrough.holds_settle hholds
    · refine .inr ⟨htick, f, rest, hf, hattached, hkey, ?_⟩
      cases result with
      | error e => exact nomatch hvalue
      | ok out =>
        obtain rfl : out = outcome := Option.some.inj hvalue
        rw [hagenda, hid]
    · exact .inl hheld
  | @opens _ _ middle last _ h =>
    rw [h.joins, join_queries] at hholds
    exact .inl (h.starts.holds _ _ (h.aborting.queries.holds _ _ hholds)).1

/-- What comes to be kept in a run comes from a load that ended in one of its turns, when callers
could join it. -/
theorem Tidy.exists_supplier (hon : cfg.disabled = false) (h : Tidy store s) {events : List Event}
    {outcome : Outcome} (hholds : (Engine.run cfg store s events).queries.store.Holds text outcome) :
    s.queries.store.Holds text outcome ∨
      ∃ before after f rest, events = before ++ .tick :: after ∧
        f ∈ (Engine.run cfg store s before).queries.flights ∧ f.attached = true ∧ f.key = text ∧
        (Engine.run cfg store s before).agenda = (0, .settle f.id (.ok outcome)) :: rest := by
  induction events generalizing s with
  | nil => exact .inl hholds
  | cons event rest ih =>
    obtain hheld | ⟨before, after, f, agenda, hevents, hsupplied⟩ := ih (h.step hon event) hholds
    · obtain hheld | ⟨rfl, f, agenda, hsupplied⟩ := (h.shape hon event).holds hheld
      · exact .inl hheld
      · exact .inr ⟨[], rest, f, agenda, rfl, hsupplied⟩
    · exact .inr ⟨event :: before, after, f, agenda, by rw [hevents]; rfl, hsupplied⟩

/-- Nothing is kept of a load that nobody can join. -/
theorem Detached.cachesNothing (hon : cfg.disabled = false)
    (h : Tidy store s) (hd : Detached s.queries load) : CachesNothing cfg store s load := by
  intro events text outcome hholds
  refine (h.exists_supplier hon hholds).imp_right ?_
  rintro ⟨before, after, f, rest, hevents, hf, hattached, hkey, hagenda⟩
  have hdetached : Detached (run cfg store s before).queries load :=
    h.run_keeps (P := fun s => Detached s.queries load) hon hd
      (fun _ _ _ _ hshape hd => hshape.detached hd) before
  refine ⟨before, after, f, rest, hevents, hf, fun hsame => ?_, hkey, hagenda⟩
  rw [hdetached.flights f hf hsame] at hattached
  exact nomatch hattached

/-! ## Texts of which there is nothing -/

/-- Nothing of a text comes up in a run without calls of it. -/
theorem Tidy.not_has_run (hon : cfg.disabled = false) (h : Tidy store s)
    (hnot : ¬ Has s.queries text) {events : List Event}
    (hother : ∀ signal, .call text signal ∉ events) :
    ¬ Has (Engine.run cfg store s events).queries text := by
  induction events generalizing s with
  | nil => exact hnot
  | cons event rest ih =>
    apply ih (h.step hon event)
    · apply (h.shape hon event).not_has hnot
      rintro signal rfl
      exact hother signal List.mem_cons_self
    · exact fun signal hmem => hother signal (List.mem_cons_of_mem _ hmem)

/-- A call of a text of which there is nothing starts a load. -/
theorem Tidy.begins (hon : cfg.disabled = false) (h : Tidy store s)
    (hquery : readQuery text = .ok q)
    (hnot : ¬ Has s.queries text) {signal : Option Text} (hquiet : s.reason? signal = none) :
    Begins q s (call cfg store s text signal) := by
  obtain ⟨texts, hcases⟩ := call_cases hon store s text signal
  obtain ⟨failure, hfailure, -⟩ | ⟨q', hquery', ⟨reason, hreason, -⟩ | ⟨-, hcall⟩⟩ := hcases
  · exact nomatch hquery.symm.trans hfailure
  · exact nomatch hquiet.symm.trans hreason
  · obtain rfl := Except.ok.inj (hquery.symm.trans hquery')
    rw [hcall]
    let made : State := { s with
      calls := s.calls ++ [⟨text, signal, s.now, none, false, none⟩], expanding := texts }
    obtain ⟨out, hstored, -⟩ | ⟨f, hfound, -⟩ | ⟨-, hrequest⟩ :=
      s.queries.request_cases true text (some cfg.ttl) s.now
    · exact absurd (.inl ⟨out, hstored⟩) hnot
    · obtain ⟨hf, hattached, hkey⟩ := ReadThrough.mem_of_attached? hfound
      exact absurd (.inr ⟨f, hf, hattached, hkey⟩) hnot
    · -- the call is made before the request, which touches neither the journal nor the loads
      have hbegins : Begins q made (requestShared cfg store made s.calls.length text q) :=
        begins_requestShared (s := made) cfg store
          (fun l hl => (h.alert.attentive.loads l hl).below)
          (check_of_readQuery hquery) s.calls.length text hrequest rfl
      exact hbegins

theorem Tidy.asksAgain (hon : cfg.disabled = false) (h : Tidy store s)
    (hquery : readQuery text = .ok q) (hnot : ¬ Has s.queries text) :
    AsksAgain cfg store s text q := by
  intro events signal hother hquiet
  exact (h.run hon events).begins hon hquery (h.not_has_run hon hnot hother) hquiet

/-! ## A call that has a load for itself -/

theorem claims_eq_one {calls : List Call} (hc : calls[i]? = some c) (hload : c.load = some load)
    (hothers : ∀ (j : Nat) (c : Call), calls[j]? = some c → c.load = some load → j = i) :
    claims calls load = 1 := by
  have hcount := claims_modify hc (fun c => { c with load := none }) load
  -- without the call there is none
  have hnone : claims (calls.modify i fun c => { c with load := none }) load = 0 := by
    apply claims_eq_zero.mpr
    intro j c' hc' hload'
    obtain ⟨c₀, hc₀, ⟨-, rfl⟩ | ⟨hne, rfl⟩⟩ := getElem?_modify_cases hc'
    · exact nomatch hload'
    · exact hne (hothers j c' hc₀ hload')
  rw [hnone, hload] at hcount
  simpa using hcount.symm

/-- A call that waits for a load under way, which no other call has, listens to its signal, and the
load is left if the call leaves it. -/
theorem Tidy.lone (h : Tidy store s) (hc : s.calls[i]? = some c) (hunsettled : c.settled = none)
    (hf : f ∈ s.queries.flights) (hload : c.load = some f.id) (hsignal : c.signal.isSome)
    (hquiet : s.reason? c.signal = none)
    (hothers : ∀ (j : Nat) (c : Call), s.calls[j]? = some c → c.load = some f.id → j = i) :
    Lone s i f.id c.signal := by
  have hattentive := h.alert.attentive
  constructor
  · refine ⟨c, hc, hload, rfl, ?_, hunsettled⟩
    obtain hlistens | ⟨l, hl, hid, hended⟩ :=
      (hattentive.calls i c hc).hears f.id hload hunsettled hsignal hquiet
    · exact hlistens
    · -- the load has not ended
      obtain ⟨l', hl', hid', hunended, -⟩ := hattentive.flights f hf
      obtain rfl := List.inj_on_of_nodup_map hattentive.distinct hl hl' (hid.trans hid'.symm)
      rw [hunended] at hended
      exact nomatch hended
  · exact hothers
  · intro g hg hgid
    have hclaims := h.tally.count g hg
    have hcount := h.alert.counted.count g hg
    have hwaits : 0 < waiting s.calls g.id :=
      List.countP_pos_iff.mpr ⟨c, List.mem_of_getElem? hc, by simp [Call.isWaiting, *]⟩
    rw [hgid, claims_eq_one hc hload hothers] at hclaims
    omega

/-- A load that starts is another one. -/
theorem Opens.lone {middle last : State} (h : Opens s s' text middle last)
    (halert : Alert store s s.Pending) {name : Option Text} (hlone : Lone s i load name) :
    Lone middle i load name := by
  obtain ⟨c, hc, hload, hsignal, hlistens, hunsettled⟩ := hlone.call
  obtain ⟨made, -, hfree, -, hcalls⟩ := h.calls
  obtain ⟨ttl, hflights⟩ := h.starts.flights
  constructor
  · exact ⟨c, hcalls ▸ getElem?_concat hc made, hload, hsignal, hlistens, hunsettled⟩
  · intro j c' hc' hload'
    rw [hcalls] at hc'
    obtain hold | ⟨-, rfl⟩ := getElem?_concat_cases hc'
    · exact hlone.others j c' hold hload'
    · exact nomatch hfree.symm.trans hload'
  · intro g hg hid
    rw [hflights] at hg
    obtain hold | hnew := List.mem_append.mp hg
    · exact hlone.last g hold hid
    · obtain rfl := List.mem_singleton.mp hnew
      obtain ⟨l, hl, hlid, -⟩ := (halert.attentive.calls i c hc).loaded load hload
      exact absurd (hlid.trans hid.symm) (Nat.ne_of_lt (halert.attentive.loads l hl).below)

/-- Another call may join a load. -/
theorem Gone.join {name : Option Text} (h : Gone s i load name) {j : Nat} (hj : j ≠ i)
    (joined : Nat) : Gone (join s j joined) i load name := by
  obtain ⟨c, hc, hsignal, hdeaf, r, hr, hsettled⟩ := h.call
  constructor
  · refine ⟨c, ?_, hsignal, hdeaf, r, ?_, hsettled⟩
    · rw [join_calls, List.getElem?_modify_ne _ _ hj]
      exact hc
    · rw [reason?_congr (join_signals _ _ _)]
      exact hr
  · rw [join_queries]
    exact h.detached

/-- The signal of such a call aborts: the call is turned away, and its load can not be joined. -/
theorem Shape.gone (h : Shape store s event s') (halert : Alert store s s.Pending)
    {name : Option Text}
    (hlone : Lone s i load name) (hquiet : s.reason? name = none)
    (habort : s'.reason? name ≠ none) : Gone s' i load name := by
  have hsignals : s'.signals ≠ s.signals := by
    intro hsame
    rw [reason?_congr hsame] at habort
    exact habort hquiet
  cases h with
  | aborting h =>
    obtain ⟨-, hstill⟩ | hgone := h.lone hlone hquiet
    · exact absurd hstill habort
    · exact hgone
  | quiet h => exact absurd h.signals hsignals
  | settles h => exact absurd h.signals hsignals
  -- the load that starts is later than the call, and the caller that joins it is another one
  | @opens _ _ middle last _ h =>
    obtain ⟨c, hc, -⟩ := hlone.call
    obtain ⟨hi, -⟩ := List.getElem?_eq_some_iff.mp hc
    have hmiddle : middle.reason? name = none := by
      rw [reason?_congr h.signals]
      exact hquiet
    rw [h.joins] at habort ⊢
    rw [reason?_congr (join_signals _ _ _)] at habort
    obtain ⟨-, hstill⟩ | hgone := h.aborting.lone (h.lone halert hlone) hmiddle
    · exact absurd hstill habort
    · exact hgone.join (Nat.ne_of_gt hi) _

/-- Once the load of a text that callers could join can not be joined any more, because a signal has
aborted, there is nothing of the text. -/
theorem Shape.not_has_of_detached (h : Shape store s event s') (hexclusive : Exclusive s.queries)
    (hf : f ∈ s.queries.flights) (hattached : f.attached = true)
    (hsignals : s'.signals ≠ s.signals)
    (hdetached : ∀ g ∈ s'.queries.flights, g.id = f.id → g.attached = false) :
    ¬ Has s'.queries f.key := by
  -- whatever there is of the text was there before, so it is that load
  suffices hbefore : (∀ outcome, s'.queries.store.Holds f.key outcome →
      s.queries.store.Holds f.key outcome) ∧ ∀ g ∈ s'.queries.flights, g.attached = true →
      g.key = f.key → ∃ g' ∈ s.queries.flights, g'.attached = true ∧ g'.id = g.id ∧
        g'.key = g.key by
    rintro (⟨outcome, hholds⟩ | ⟨g, hg, hgattached, hkey⟩)
    · exact hexclusive.absent f hf hattached outcome (hbefore.1 outcome hholds)
    · obtain ⟨g', hg', hgattached', hid, hkey'⟩ := hbefore.2 g hg hgattached hkey
      have hsame := hexclusive.unique g' hg' f hf hgattached' hattached (hkey'.trans hkey)
      rw [hdetached g hg (hid.symm.trans hsame)] at hgattached
      exact nomatch hgattached
  cases h with
  | aborting h => exact ⟨h.queries.holds f.key, fun g hg hon _ => h.queries.flights g hg hon⟩
  | quiet h => exact absurd h.signals hsignals
  | settles h => exact absurd h.signals hsignals
  | @opens text _ middle last _ h =>
    rw [h.joins, join_queries]
    obtain ⟨ttl, hflights⟩ := h.starts.flights
    refine ⟨fun outcome hholds =>
      (h.starts.holds _ _ (h.aborting.queries.holds _ _ hholds)).1, fun g hg hon hkey => ?_⟩
    obtain ⟨g', hg', hon', hid, hkey'⟩ := h.aborting.queries.flights g hg hon
    rw [hflights] at hg'
    obtain hold | hnew := List.mem_append.mp hg'
    · exact ⟨g', hold, hon', hid, hkey'⟩
    · -- the load that starts is of another text, as there was nothing of that one
      obtain rfl := List.mem_singleton.mp hnew
      exact absurd (hkey.symm.trans hkey'.symm) (h.starts.other f hf hattached)

/-! ## Aborted calls -/

/-- A call whose signal has aborted before gets the reason at once. -/
theorem call_aborted (hon : cfg.disabled = false) (store : Store) {signal : Option Text}
    (hquery : readQuery text = .ok q) (hbefore : s.reason? signal = some reason) :
    let s' := call cfg store s text signal
    s'.result? s.calls.length = some (.error (.aborted reason)) ∧ Notes s s' [] ∧
      s'.queries = s.queries := by
  obtain ⟨texts, hcases⟩ := call_cases hon store s text signal
  obtain ⟨failure, hfailure, -⟩ | ⟨-, -, ⟨r, hr, hcall⟩ | ⟨hquiet, -⟩⟩ := hcases
  · cases hquery.symm.trans hfailure
  · obtain rfl := Option.some.inj (hbefore.symm.trans hr)
    rw [hcall]
    refine ⟨?_, .of_eq rfl rfl, rfl⟩
    rw [State.result?, State.settleCall, State.modifyCall, modify_length_append,
      List.getElem?_concat_length]
    rfl
  · cases hbefore.symm.trans hquiet

/-- A call that has a load for itself gets the reason when its signal aborts. Its load can not be
joined behind that, so if it could be before, there is nothing of its text. -/
theorem Tidy.turned_away (h : Tidy store s) (h' : Tidy store s') (hshape : Shape store s event s')
    (hc : s.calls[i]? = some c) (hunsettled : c.settled = none) (hf : f ∈ s.queries.flights)
    (hload : c.load = some f.id)
    (hothers : ∀ (j : Nat) (c : Call), s.calls[j]? = some c → c.load = some f.id → j = i)
    (hquiet : s.reason? c.signal = none) (habort : s'.reason? c.signal = some reason) :
    s'.result? i = some (.error (.aborted reason)) ∧ Detached s'.queries f.id ∧
      (f.attached = true → ¬ Has s'.queries c.text) := by
  have hsignal : c.signal.isSome := by
    cases hname : c.signal with
    | none =>
      rw [hname] at habort
      exact nomatch habort
    | some name => rfl
  have hlone := h.lone hc hunsettled hf hload hsignal hquiet hothers
  have hgone : Gone s' i f.id c.signal :=
    hshape.gone h.alert hlone hquiet (by rw [habort]; exact nofun)
  obtain ⟨c', hc', hsignal', -, r, hr, hsettled⟩ := hgone.call
  refine ⟨?_, ⟨?_, hgone.detached⟩, fun hattached => ?_⟩
  · rw [hsignal', habort] at hr
    obtain rfl := Option.some.inj hr
    rw [State.result?, hc']
    exact hsettled
  · -- the call still has the load
    obtain ⟨c'', hc'', hcontinues⟩ := hshape.continues hc
    obtain ⟨l, hl, hid, -⟩ := (h'.alert.attentive.calls i c'' hc'').loaded f.id
      (hcontinues.load.trans hload)
    rw [← hid]
    exact (h'.alert.attentive.loads l hl).below
  · rw [h.tally.keyed f hf c (List.mem_of_getElem? hc) hload]
    refine hshape.not_has_of_detached h.exclusive hf hattached (fun hsame => ?_) hgone.detached
    rw [reason?_congr hsame] at habort
    exact nomatch habort.symm.trans hquiet

/-- An aborted call gets the reason of its signal and nothing else, at whatever moment before it has
its result the signal aborts, and however many turns are to come.

If the signal has aborted before the call is made, the call gets the reason at once, without asking
for anything. If it aborts while the call waits for a load under way that no other call has, the
call gets the reason at once too, and nothing is ever kept of what the load comes to. In both cases
the next call of the text starts with its statement again, unless there was something of the text
already. -/
theorem aborted_call (hon : cfg.disabled = false) (hstore : Unfailing store)
    (hs : Reachable cfg store s) (event : Event) (hopen : s.result? i = none)
    (hc : (step cfg store s event).calls[i]? = some c) (hquery : readQuery c.text = .ok q)
    (habort : (step cfg store s event).reason? c.signal = some reason) :
    let s' := step cfg store s event
    RejectsWith cfg store s' i reason ∧
    (event = .call c.text c.signal → i = s.calls.length → s.reason? c.signal = some reason →
      s'.result? i = some (.error (.aborted reason)) ∧ Notes s s' [] ∧ s'.queries = s.queries ∧
      (¬ Has s.queries c.text → AsksAgain cfg store s' c.text q)) ∧
    ∀ c₀ f, s.calls[i]? = some c₀ → s.reason? c₀.signal = none →
      f ∈ s.queries.flights → c₀.load = some f.id →
      (∀ (j : Nat) (c : Call), s.calls[j]? = some c → c.load = some f.id → j = i) →
      s'.result? i = some (.error (.aborted reason)) ∧ CachesNothing cfg store s' f.id ∧
      (f.attached = true ∨ ¬ Has s'.queries c.text → AsksAgain cfg store s' c.text q) := by
  intro s'
  have htidy := hs.tidy hon
  have htidy' : Tidy store s' := htidy.step hon event
  have hshape : Shape store s event s' := htidy.shape hon event
  refine ⟨(hshape.dooms hstore hopen hc hquery habort).rejectsWith hon hstore htidy', ?_, ?_⟩
  · -- the signal was given before the call: the call goes no further
    rintro hcall rfl hbefore
    obtain ⟨hresult, hnotes, hqueries⟩ := call_aborted hon store hquery hbefore
    have hsame : s' = call cfg store s c.text c.signal := by
      show step cfg store s event = _
      rw [hcall]
      rfl
    rw [hsame] at htidy' ⊢
    refine ⟨hresult, hnotes, hqueries, fun hnot => htidy'.asksAgain hon hquery ?_⟩
    rw [hqueries]
    exact hnot
  · -- the call was the only caller of its load, so the load is left with nobody
    intro c₀ f hc₀ hquiet hf hload hothers
    obtain ⟨c', hc', hcontinues⟩ := hshape.continues hc₀
    obtain rfl := Option.some.inj (hc.symm.trans hc')
    rw [hcontinues.signal] at habort
    have hunsettled : c₀.settled = none := by
      rw [State.result?, hc₀] at hopen
      exact hopen
    obtain ⟨hresult, hdetached, hnothing⟩ :=
      htidy.turned_away htidy' hshape hc₀ hunsettled hf hload hothers hquiet habort
    refine ⟨hresult, hdetached.cachesNothing hon htidy', fun hlacked => ?_⟩
    apply htidy'.asksAgain hon hquery
    rw [hcontinues.text] at hlacked ⊢
    exact hlacked.elim hnothing id

/-- A store without rows, while the statements of which given signals abort. -/
def rowlessStore (aborts : List (Text × Text)) : Store := fun _ _ => .ran 0 aborts (.ok [])

theorem unfailing_rowlessStore (aborts : List (Text × Text)) :
    Unfailing (rowlessStore aborts) := by
  constructor <;> intros <;> exact ⟨0, aborts, [], [], rfl, rfl⟩

/-- A call with a signal waits for its load. -/
def abandoned : State :=
  run ⟨5, false, default⟩ (rowlessStore []) (.initial 0) [.call "status=open" (some "A")]

/-- The signal aborts while the call waits. -/
theorem aborted_call_abandoned :
    let s' := step ⟨5, false, default⟩ (rowlessStore []) abandoned (.abort "A" "gone")
    ∃ q, readQuery "status=open" = .ok q ∧
      s'.result? 0 = some (.error (.aborted "gone")) ∧
      RejectsWith ⟨5, false, default⟩ (rowlessStore []) s' 0 "gone" ∧
      CachesNothing ⟨5, false, default⟩ (rowlessStore []) s' 0 ∧
      AsksAgain ⟨5, false, default⟩ (rowlessStore []) s' "status=open" q := by
  intro s'
  let f : Flight Text := ⟨0, "status=open", some 5, 1, 0, true⟩
  have hreachable : Reachable ⟨5, false, default⟩ (rowlessStore []) abandoned :=
    ⟨0, none, none, none, none, _, rfl⟩
  have hrun : (abandoned.calls.length = 1 ∧ abandoned.queries.flights = [f] ∧
      (abandoned.calls[0]?).map (fun c => (c.signal, c.load, c.settled.isNone)) =
        some (some (Text.ofString "A"), some 0, true) ∧ abandoned.reason? (some "A") = none) ∧
      (s'.calls[0]?).map (fun c => (c.text, c.signal)) =
        some (Text.ofString "status=open", some (Text.ofString "A")) ∧
      s'.reason? (some "A") = some ("gone" : Text) ∧
      (readQuery "status=open").toOption.isSome := by
    decide +kernel
  obtain ⟨⟨hlength, hflights, hbefore, hquiet⟩, hafter, habort, hfit⟩ := hrun
  obtain ⟨c₀, hc₀, hsame₀⟩ := Option.map_eq_some_iff.mp hbefore
  obtain ⟨hsignal₀, hload₀, hunsettled⟩ := by simpa only [Prod.mk.injEq] using hsame₀
  obtain ⟨c, hc, hsame⟩ := Option.map_eq_some_iff.mp hafter
  obtain ⟨htext, hsignal⟩ := by simpa only [Prod.mk.injEq] using hsame
  cases hquery : readQuery "status=open" with
  | error failure =>
    rw [hquery] at hfit
    exact nomatch hfit
  | ok q =>
    rw [← hsignal] at habort
    rw [← hsignal₀] at hquiet
    obtain ⟨hrejects, -, hlater⟩ := aborted_call rfl (unfailing_rowlessStore []) hreachable
      (.abort "A" "gone") (by rw [State.result?, hc₀]; simpa using hunsettled) hc
      (htext ▸ hquery) habort
    obtain ⟨hresult, hcaches, hasks⟩ := hlater c₀ f hc₀ hquiet
      (hflights ▸ List.mem_singleton_self f) hload₀ <| by
        intro j c hj _
        obtain ⟨hlt, -⟩ := List.getElem?_eq_some_iff.mp hj
        exact Nat.lt_one_iff.mp (hlength ▸ hlt)
    rw [htext] at hasks
    exact ⟨q, rfl, hresult, hrejects, hcaches, hasks (.inl rfl)⟩

/-- The reason that a call was turned away with. -/
def State.turnedAway? (s : State) (i : Nat) : Option Text :=
  match s.result? i with
  | some (.error (.aborted reason)) => some reason
  | _ => none

/-- The only call that there was got the reason of its signal, but an outcome of its text is kept,
and the next call of the text asks for nothing. -/
def KeptAnyway (store : Store) (s : State) : Prop :=
  s.calls.length = 1 ∧ s.turnedAway? 0 = some (Text.ofString "gone") ∧
    Has s.queries "status=open" ∧ s.queries.pending = 0 ∧
    (call ⟨5, false, default⟩ store s "status=open" none).journal = s.journal

/-- The signal of a call aborts while its first statement runs, and all turns are taken. -/
def overheard : State :=
  run ⟨5, false, default⟩ (rowlessStore [("A", "gone")]) (.initial 0)
    (.call "status=open" (some "A") :: List.replicate 8 .tick)

/-- The signal of a call aborts when its load has ended, but has not yet told the call. -/
def overtaken : State :=
  run ⟨5, false, default⟩ (rowlessStore []) (.initial 0)
    (.call "status=open" (some "A") :: .tick :: .abort "A" "gone" :: List.replicate 8 .tick)

/-- A call is turned away, and yet the outcome of its load is kept, which nobody else has joined: the
signal aborted before the call listened to it, or when the load had ended. -/
theorem aborted_call_kept :
    Unfailing (rowlessStore [("A", "gone")]) ∧ Unfailing (rowlessStore []) ∧
    ¬ Has (State.initial 0).queries "status=open" ∧
    KeptAnyway (rowlessStore [("A", "gone")]) overheard ∧
    KeptAnyway (rowlessStore []) overtaken := by
  refine ⟨unfailing_rowlessStore _, unfailing_rowlessStore _, ?_⟩
  unfold KeptAnyway
  decide +kernel

end IssueQuery.Engine
