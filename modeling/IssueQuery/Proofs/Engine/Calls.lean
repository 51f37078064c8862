import IssueQuery.Proofs.Engine.Loads

/-!
# Calls keep an engine faithful

A call that is made is counted as if the job that finishes it were under way from the start. Once
the call has found a kept result, has joined a load or has a load of its own, that job is done.

* `join_cases`              what a call that joins a load leaves behind;
* `Faithful.join`           a call joins a load;
* `Faithful.requestShared`  a call gets a kept result, joins a load or starts one;
* `InOrder.call`            a call is made.
-/

namespace IssueQuery.Engine

variable {answers : Answers} {store : Store} {cfg : Settings} {s s' : State} {l : Load} {c : Call}
  {J : Job → Prop} {i : Nat} {outcome : Except LoadFailure Outcome} {q : Query} {text : Text}
  {signal : Option Text}

theorem modify_length_append {α : Type} (items : List α) (a : α) (change : α → α) :
    (items ++ [a]).modify items.length change = items ++ [change a] := by
  induction items with
  | nil => rfl
  | cons first rest ih =>
    rw [List.cons_append, List.length_cons, List.modify_succ_cons, ih, List.cons_append]

/-- A load that starts knows nothing yet. -/
theorem Load.Sound.fresh (hbelow : l.id < s.queries.started) (hended : l.ended = none)
    (hgraph : l.graphLoad = none) (hsubscribers : l.subscribers = [])
    (hown : ∀ i signal, l.control = .own i signal →
      ∃ c, s.calls[i]? = some c ∧ c.signal = signal ∧ readQuery c.text = .ok l.query) :
    l.Sound answers s where
  below := hbelow
  ended := by
    intro outcome hsome
    rw [hended] at hsome
    cases hsome
  based := by
    rw [hgraph]
    intro hsome
    cases hsome
  subscribers := by
    rw [hsubscribers]
    intro _ hi
    cases hi
  own := hown

/-! ## Joining a load -/

/-- A call has got its load, and listens if it has a signal that is quiet. -/
def State.awaiting (s : State) (call load : Nat) : State :=
  s.modifyCall call fun c =>
    { c with
      load := some load
      listening := ((s.calls[call]?).bind Call.signal).isSome &&
        (s.reason? ((s.calls[call]?).bind Call.signal)).isNone }

/-- The load knows at once of a call that joins it, or a job of the next turn tells it. -/
theorem join_cases (s : State) (call load : Nat) :
    join s call load = (s.awaiting call load).modifyLoad load (fun l =>
      { l with subscribers := l.subscribers ++ [call] }) ∨
    join s call load = (s.awaiting call load).schedule 0 (.subscribe call) := by
  unfold join State.awaiting
  cases (s.calls[call]?).bind Call.signal with
  | some signal => exact .inl rfl
  | none => exact .inr rfl

@[simp] theorem join_calls (s : State) (call load : Nat) :
    (join s call load).calls = s.calls.modify call fun c =>
      { c with
        load := some load
        listening := ((s.calls[call]?).bind Call.signal).isSome &&
          (s.reason? ((s.calls[call]?).bind Call.signal)).isNone } := by
  obtain hjoin | hjoin := join_cases s call load <;> rw [hjoin] <;> rfl

@[simp] theorem join_queries (s : State) (call load : Nat) :
    (join s call load).queries = s.queries := by
  obtain hjoin | hjoin := join_cases s call load <;> rw [hjoin] <;> rfl

@[simp] theorem join_signals (s : State) (call load : Nat) :
    (join s call load).signals = s.signals := by
  obtain hjoin | hjoin := join_cases s call load <;> rw [hjoin] <;> rfl

@[simp] theorem join_journal (s : State) (call load : Nat) :
    (join s call load).journal = s.journal := by
  obtain hjoin | hjoin := join_cases s call load <;> rw [hjoin] <;> rfl

namespace Faithful

/-- A call that waits joins a load of its text. -/
theorem join (h : Faithful answers s fun j => j = .finish i outcome ∨ s.Pending j)
    (hc : s.calls[i]? = some c) (hfree : c.load = none) (hwaits : c.Waits s) {f : Flight Text}
    (hf : f ∈ s.queries.flights) (hattached : f.attached = true) (hkey : f.key = c.text) :
    Faithful answers (join s i f.id) (join s i f.id).Pending := by
  obtain ⟨l, hl, hid, hcontrol, hended, hquery⟩ := h.joinable f hf hattached
  -- the call takes the number of the load before it is entered as a subscriber or told later
  have hjoined : ∀ listening, Faithful answers
      (s.modifyCall i fun c => { c with load := some f.id, listening := listening })
      fun j => j = .finish i outcome ∨ s.Pending j := by
    intro listening
    apply h.modifyCall
    intro c' hc'
    obtain rfl : c = c' := Option.some.inj (hc.symm.trans hc')
    constructor
    · refine ⟨rfl, rfl, ?_, id⟩
      intro id hload
      rw [hfree] at hload
      cases hload
    · exact
        { loaded := by
            intro id hload
            obtain rfl : f.id = id := Option.some.inj hload
            exact ⟨l, hl, hid, hkey ▸ hquery, none, hcontrol, fun _ => rfl⟩
          listens := fun _ => ⟨hwaits.1, rfl⟩
          settled := (h.calls i c hc).settled }
  have hmade : ∀ listening, ∃ c', (s.modifyCall i fun c =>
      { c with load := some f.id, listening := listening }).calls[i]? = some c' ∧
      c'.load = some f.id := by
    intro listening
    refine ⟨{ c with load := some f.id, listening := listening }, ?_, rfl⟩
    rw [State.modifyCall, List.getElem?_modify, hc]
    exact congrArg some (if_pos rfl)
  obtain ⟨c', hc', hload⟩ := hmade (((s.calls[i]?).bind Call.signal).isSome &&
    (s.reason? ((s.calls[i]?).bind Call.signal)).isNone)
  obtain hjoin | hjoin := join_cases s i f.id <;> rw [hjoin, State.awaiting]
  · rw [← hid] at hjoined hc' hload ⊢
    apply ((hjoined _).addSubscriber hl hended hc' hload).doneServing rfl
    rintro _ _ _ _ rfl
    exact .inr (told_addSubscriber hl hended)
  · have hnext := (hjoined _).replace (.subscribe i) trivial
      (by
        rintro _ rfl
        exact ⟨rfl, c', hc', by rw [hload]; rfl⟩)
      (fun _ _ _ hfurthers => False.elim hfurthers) rfl
    exact hnext.schedule 0

/-- The number of a load that starts is new. -/
theorem fresh_started (h : Faithful answers s J) : ∀ l ∈ s.loads, l.id ≠ s.queries.started :=
  fun l hl => Nat.ne_of_lt (h.loads l hl).below

/-- A load is added that callers may join, and a job will end it. -/
theorem addShared (h : Faithful answers s J) (hquery : readQuery text = .ok q)
    {queries : ReadThrough Text Outcome} {ttl : Option Time}
    (hholds : ∀ text outcome, queries.store.Holds text outcome →
      answers.expected text = .ok outcome)
    (hflights : queries.flights = s.queries.flights ++ [⟨s.queries.started, text, ttl, 1, 0, true⟩])
    (hstarted : queries.started = s.queries.started + 1) (base : List Issue) :
    Faithful answers
      { s with
        queries := queries
        loads := s.loads ++ [⟨s.queries.started, q, .shared none, base, none, [], none⟩] }
      fun j => j = .settle s.queries.started (answers.outcome q) ∨ J j := by
  let l : Load := ⟨s.queries.started, q, .shared none, base, none, [], none⟩
  have hl : l ∈ s.loads ++ [l] := List.mem_append_right _ (List.mem_singleton.mpr rfl)
  -- the load is there before callers may join it
  have hnumbered : Faithful answers
      { s with queries := { queries with flights := s.queries.flights } } J := by
    apply h.setQueries { queries with flights := s.queries.flights } _ hholds h.joinable
    show s.queries.started ≤ queries.started
    rw [hstarted]
    exact Nat.le_succ _
  have hloaded : Faithful answers
      { s with
        queries := { queries with flights := s.queries.flights }
        loads := s.loads ++ [l] }
      fun j => j = .settle s.queries.started (answers.outcome q) ∨ J j := by
    apply hnumbered.addLoad
    · apply Load.Sound.fresh _ rfl rfl rfl
      · intro _ _ hown
        cases hown
      · show s.queries.started < queries.started
        rw [hstarted]
        exact Nat.lt_succ_self _
    · exact h.fresh_started
    · exact fun _ => .inr
    · rintro j (rfl | hj)
      · exact .inr ⟨l, hl, rfl, fun _ => rfl⟩
      · exact .inl hj
    · exact fun _ => ⟨_, .inl rfl, rfl⟩
  apply hloaded.setQueries queries (Nat.le_refl _) hholds
  intro f hf hattached
  rw [hflights] at hf
  obtain hold | hnew := List.mem_append.mp hf
  · exact hloaded.joinable f hold hattached
  · obtain rfl := List.mem_singleton.mp hnew
    exact ⟨l, hl, rfl, rfl, rfl, hquery⟩

/-- A call whose query is fit starts a load that others may join. -/
theorem startShared (hsteady : Steady store answers)
    (h : Faithful answers s fun j => j = .finish i (answers.outcome q) ∨ s.Pending j)
    (hc : s.calls[i]? = some c) (hfree : c.load = none) (hwaits : c.Waits s)
    (hquery : readQuery c.text = .ok q) {queries : ReadThrough Text Outcome} {ttl : Option Time}
    (hholds : ∀ text outcome, queries.store.Holds text outcome →
      answers.expected text = .ok outcome)
    (hflights : queries.flights =
      s.queries.flights ++ [⟨s.queries.started, c.text, ttl, 1, 0, true⟩])
    (hstarted : queries.started = s.queries.started + 1) :
    let s' := Engine.startLoad cfg store { s with queries := queries }
      ⟨s.queries.started, q, .shared none, [], none, [], none⟩
    Faithful answers (Engine.join s' i s.queries.started)
      (Engine.join s' i s.queries.started).Pending := by
  let l : Load := ⟨s.queries.started, q, .shared none, [], none, [], none⟩
  let J : Job → Prop := fun j => j = .finish i (answers.outcome q)
  have hadded : ∀ base, Faithful answers
      { s with queries := queries, loads := s.loads ++ [{ l with base := base }] }
      fun j => j = endJob l (answers.outcome l.query) ∨ J j ∨ s.Pending j :=
    fun base => h.addShared hquery hholds hflights hstarted base
  have hready : Faithful answers (Engine.startLoad cfg store { s with queries := queries } l)
      fun j => J j ∨ (Engine.startLoad cfg store { s with queries := queries } l).Pending j :=
    Faithful.startLoad hsteady hadded h.fresh_started rfl
  have hsame : Undisturbed { s with queries := queries }
      (Engine.startLoad cfg store { s with queries := queries } l) := undisturbed_startLoad hsteady
  have hmem : ⟨s.queries.started, c.text, ttl, 1, 0, true⟩ ∈
      (Engine.startLoad cfg store { s with queries := queries } l).queries.flights := by
    rw [hsame.flights, hflights]
    exact List.mem_append_right _ (List.mem_singleton.mpr rfl)
  -- the load that started is the one that the call joins
  apply hready.join _ hfree _ hmem rfl rfl
  · rw [hsame.calls]
    exact hc
  · refine ⟨hwaits.1, ?_⟩
    rw [State.reason?, hsame.signals]
    exact hwaits.2

/-- A call whose query is fit gets a kept result, joins a load or starts one. -/
theorem requestShared (hsteady : Steady store answers)
    (h : Faithful answers s fun j => j = .finish i (answers.outcome q) ∨ s.Pending j)
    (hc : s.calls[i]? = some c) (hfree : c.load = none) (hwaits : c.Waits s)
    (hquery : readQuery c.text = .ok q) :
    Faithful answers (requestShared cfg store s i c.text q)
      (requestShared cfg store s i c.text q).Pending := by
  have hstored : ∀ text outcome,
      (s.queries.stored true c.text (some cfg.ttl) s.now).2.store.Holds text outcome →
      answers.expected text = .ok outcome :=
    fun text outcome hholds => h.results text outcome (ReadThrough.holds_stored hholds)
  unfold Engine.requestShared
  obtain ⟨out, hheld, hrequest⟩ | ⟨f, hattached, hrequest⟩ | ⟨-, hrequest⟩ :=
    s.queries.request_cases true c.text (some cfg.ttl) s.now
  · rw [hrequest]
    -- what is kept for the text is what the query gives
    have hkept : answers.outcome q = .ok out := by
      have hexpected := h.results c.text out hheld
      rw [answers.expected_of_readQuery hquery] at hexpected
      cases houtcome : answers.outcome q with
      | error e =>
        rw [houtcome] at hexpected
        cases hexpected
      | ok out' =>
        rw [houtcome] at hexpected
        exact congrArg Except.ok (Except.ok.inj hexpected)
    rw [hkept] at h
    have hread : Faithful answers
        { s with queries := (s.queries.stored true c.text (some cfg.ttl) s.now).2 }
        fun j => j = .finish i (.ok out) ∨ s.Pending j :=
      h.setQueries _ (Nat.le_refl _) hstored h.joinable
    exact hread.schedule 0
  · rw [hrequest]
    obtain ⟨hf, hon, hkey⟩ := ReadThrough.mem_of_attached? hattached
    -- one caller more: what can be joined does not change
    have hjoined := h.setQueries
      ((s.queries.stored true c.text (some cfg.ttl) s.now).2.modify f.id
        fun f => { f with waiters := f.waiters + 1 }) (Nat.le_refl _) hstored <| by
      intro f' hf' hattached'
      obtain ⟨f₀, hf₀, hid, hkey₀, hattached₀, -⟩ := ReadThrough.exists_of_mem_join hf'
      rw [State.Joinable, ← hid, ← hkey₀]
      exact h.joinable f₀ hf₀ (hattached₀.trans hattached')
    have hmem : { f with waiters := f.waiters + 1 } ∈
        ((s.queries.stored true c.text (some cfg.ttl) s.now).2.modify f.id
          fun f => { f with waiters := f.waiters + 1 }).flights :=
      List.mem_map.mpr ⟨f, hf, if_pos rfl⟩
    have hwaiting := hjoined.join hc hfree hwaits hmem hon hkey
    exact hwaiting
  · rw [hrequest]
    exact h.startShared hsteady hc hfree hwaits hquery hstored rfl rfl

/-- A call whose query is fit starts a load of its own. -/
theorem requestOwn (hsteady : Steady store answers)
    (h : Faithful answers s fun j => j = .finish i (answers.outcome q) ∨ s.Pending j)
    (hc : s.calls[i]? = some c) (hwaits : c.Waits s) (hquery : readQuery c.text = .ok q) :
    Faithful answers (requestOwn cfg store s i c.signal q)
      (requestOwn cfg store s i c.signal q).Pending := by
  -- the job that finishes the call is the one with which its own load ends
  let l : Load := ⟨s.queries.started, q, .own i c.signal, [], none, [], none⟩
  let queries := s.queries.startUnshared.2
  have hadded : ∀ base, Faithful answers
      { s with queries := queries, loads := s.loads ++ [{ l with base := base }] }
      fun j => j = endJob l (answers.outcome l.query) ∨ False ∨ s.Pending j := by
    intro base
    have hnumbered : Faithful answers { s with queries := queries }
        fun j => j = .finish i (answers.outcome q) ∨ s.Pending j :=
      h.setQueries queries (Nat.le_succ _) h.results h.joinable
    apply hnumbered.addLoad
    · apply Load.Sound.fresh (Nat.lt_succ_self _) rfl rfl rfl
      intro i' signal hown
      obtain ⟨rfl, rfl⟩ := Control.own.inj hown
      exact ⟨c, hc, rfl, hquery⟩
    · exact h.fresh_started
    · exact fun j hj => hj.imp_right .inr
    · rintro j (hj | hj | hj)
      · exact .inl (.inl hj)
      · exact False.elim hj
      · exact .inl (.inr hj)
    · intro hshared
      cases hshared
  have hready : Faithful answers (Engine.startLoad cfg store { s with queries := queries } l)
      fun j => False ∨ (Engine.startLoad cfg store { s with queries := queries } l).Pending j :=
    Faithful.startLoad (J := fun _ => False) hsteady hadded h.fresh_started hwaits.2
  exact hready.congr fun j => (false_or _).symm.to_iff

/-- A call is made that gets its result at once. -/
theorem addSettled (h : Faithful answers s J) {result : Except Rejection Result}
    (hright : s.reason? c.signal = none → result.map Result.outcome = answers.expected c.text)
    (hfree : c.load = none) :
    Faithful answers ({ s with calls := s.calls ++ [c] }.settleCall s.calls.length result) J := by
  have hsettled : { s with calls := s.calls ++ [c] }.settleCall s.calls.length result =
      { s with calls := s.calls ++ [{ c with settled := some result, listening := false }] } := by
    rw [State.settleCall, State.modifyCall, modify_length_append]
  rw [hsettled]
  apply h.addCall
  · exact
      { loaded := by
          intro id hload
          rw [hfree] at hload
          cases hload
        listens := by
          intro hlistens
          cases hlistens
        settled := by
          intro result' hresult hquiet
          obtain rfl : result = result' := Option.some.inj hresult
          exact hright hquiet }
  · exact fun _ => id
  · exact fun _ => .inl
  · intro hwaits
    cases hwaits.1

/-- A call is made that waits, and that a job will finish. -/
theorem addWaiting (h : Faithful answers s s.Pending) (hfree : c.load = none)
    (hdeaf : c.listening = false) (hunsettled : c.settled = none)
    (hquery : readQuery c.text = .ok q) :
    Faithful answers { s with calls := s.calls ++ [c] }
      fun j => j = .finish s.calls.length (answers.outcome q) ∨ s.Pending j := by
  apply h.addCall
  · exact
      { loaded := by
          intro id hload
          rw [hfree] at hload
          cases hload
        listens := by
          rw [hdeaf]
          intro hlistens
          cases hlistens
        settled := by
          rw [hunsettled]
          exact fun _ hresult => nomatch hresult }
  · exact fun _ => .inr
  · rintro j (rfl | hj)
    · right
      -- the job tells the new call what its own query is due
      refine ⟨c, ?_, fun _ => ⟨q, hquery, rfl⟩⟩
      exact List.getElem?_concat_length
    · exact .inl hj
  · exact fun _ => ⟨_, .inl rfl, rfl⟩

end Faithful

/-! ## Counting calls that are made -/

namespace Counted

variable {queries queries' : ReadThrough Text Outcome} {calls : List Call} {load : Nat}

theorem waiting_append (hfree : c.load = none) : waiting (calls ++ [c]) load = waiting calls load := by
  simp [waiting, Call.isWaiting, hfree]

theorem waiting_join {change : Call → Call} (hc : calls[i]? = some c) {other : Nat}
    (hload : (change c).load = some load) :
    waiting (calls.modify i change) other ≤
      waiting calls other + if other = load then 1 else 0 := by
  have hcount : waiting (calls.modify i change) other + (if c.isWaiting other then 1 else 0) =
      waiting calls other + if (change c).isWaiting other then 1 else 0 := waiting_modify hc
  -- at most the call that joins is counted anew, and only for the load that it joins
  by_cases hsame : other = load
  · rw [if_pos hsame]
    split at hcount <;> split at hcount <;> omega
  · have hnot : (change c).isWaiting other = false := by
      simp [Call.isWaiting, hload, Ne.symm hsame]
    rw [hnot, if_neg Bool.false_ne_true] at hcount
    rw [if_neg hsame]
    omega

/-- A call joins a load under way. -/
theorem join (h : Counted queries calls) {change : Call → Call} (hc : calls[i]? = some c)
    (hload : (change c).load = some load)
    (hflights : queries'.flights = (queries.modify load fun f =>
      { f with waiters := f.waiters + 1 }).flights)
    (hstarted : queries'.started = queries.started) :
    Counted queries' (calls.modify i change) where
  below := by
    intro f hf
    rw [hflights] at hf
    obtain ⟨g, hg, hid, -⟩ := ReadThrough.exists_of_mem_join hf
    rw [← hid, hstarted]
    exact h.below g hg
  count := by
    intro f hf
    rw [hflights] at hf
    obtain ⟨g, hg, hid, -, -, hdeparted, hwaiters⟩ := ReadThrough.exists_of_mem_join hf
    have hcount := h.count g hg
    have hmore : waiting (calls.modify i change) g.id ≤
        waiting calls g.id + if g.id = load then 1 else 0 := waiting_join hc hload
    rw [← hid, ← hdeparted, hwaiters]
    omega

/-- A load that starts is on the count, if nobody waits for it yet. -/
theorem added {f : Flight Text} (h : Counted queries calls) (hid : f.id = queries.started)
    (hflights : queries'.flights = queries.flights ++ [f])
    (hstarted : queries'.started = queries.started + 1) (hwaiters : f.departed ≤ f.waiters)
    (hnobody : waiting calls f.id = 0) : Counted queries' calls where
  below := by
    intro g hg
    rw [hflights] at hg
    obtain hold | hnew := List.mem_append.mp hg
    · have hbelow := h.below g hold
      omega
    · obtain rfl := List.mem_singleton.mp hnew
      omega
  count := by
    intro g hg
    rw [hflights] at hg
    obtain hold | hnew := List.mem_append.mp hg
    · exact h.count g hold
    · obtain rfl := List.mem_singleton.mp hnew
      omega

/-- A call claims a place that is free on the count of a load. -/
theorem claim (h : Counted queries calls) {change : Call → Call} (hc : calls[i]? = some c)
    (hload : (change c).load = some load)
    (hfree : ∀ f ∈ queries.flights, f.id = load →
      f.departed + waiting calls load + 1 ≤ f.waiters) :
    Counted queries (calls.modify i change) where
  below := h.below
  count := by
    intro f hf
    have hmore : waiting (calls.modify i change) f.id ≤
        waiting calls f.id + if f.id = load then 1 else 0 := waiting_join hc hload
    have hcount := h.count f hf
    by_cases hid : f.id = load
    · have hroom := hfree f hf hid
      rw [if_pos hid] at hmore
      rw [hid] at hmore hcount ⊢
      omega
    · rw [if_neg hid] at hmore
      omega

/-- A call starts a load. -/
theorem start (h : Counted queries calls) {change : Call → Call} (hc : calls[i]? = some c)
    (hload : (change c).load = some queries.started)
    (hnew : waiting calls queries.started = 0) {key : Text} {ttl : Option Time}
    (hflights : queries'.flights = queries.flights ++ [⟨queries.started, key, ttl, 1, 0, true⟩])
    (hstarted : queries'.started = queries.started + 1) :
    Counted queries' (calls.modify i change) := by
  have hadded : Counted queries' calls := h.added rfl hflights hstarted (Nat.zero_le _) hnew
  refine hadded.claim hc hload fun f hf hid => ?_
  rw [hflights] at hf
  obtain hold | hlast := List.mem_append.mp hf
  · exact absurd hid (Nat.ne_of_lt (h.below f hold))
  · -- the load has counted the call that starts it
    obtain rfl := List.mem_singleton.mp hlast
    exact Nat.le_of_eq (congrArg (0 + · + 1) hnew)

theorem requestShared (hsteady : Steady store answers) (h : Counted s.queries s.calls)
    (hc : s.calls[i]? = some c) (hnew : waiting s.calls s.queries.started = 0) :
    Counted (requestShared cfg store s i text q).queries
      (requestShared cfg store s i text q).calls := by
  unfold Engine.requestShared
  obtain ⟨out, -, hrequest⟩ | ⟨f, -, hrequest⟩ | ⟨-, hrequest⟩ :=
    s.queries.request_cases true text (some cfg.ttl) s.now
  · rw [hrequest]
    exact h.mono (fun _ => id) (Nat.le_refl _) fun _ => Nat.le_refl _
  · rw [hrequest]
    dsimp only
    rw [join_queries, join_calls]
    exact h.join hc rfl rfl rfl
  · rw [hrequest]
    dsimp only
    -- the new load has one claim, that of the call: nobody can have had its number before
    generalize hqueries : ({ (s.queries.stored true text (some cfg.ttl) s.now).2 with
      flights := s.queries.flights ++ [⟨s.queries.started, text, some cfg.ttl, 1, 0, true⟩]
      started := s.queries.started + 1 } : ReadThrough Text Outcome) = queries
    have hsame : Undisturbed { s with queries := queries }
        (Engine.startLoad cfg store { s with queries := queries }
          ⟨s.queries.started, q, .shared none, [], none, [], none⟩) := undisturbed_startLoad hsteady
    rw [join_queries, join_calls, hsame.calls]
    apply h.start hc rfl hnew
    · rw [hsame.flights, ← hqueries]
    · rw [hsame.started, ← hqueries]

theorem requestOwn (hsteady : Steady store answers) (h : Counted s.queries s.calls) :
    Counted (requestOwn cfg store s i signal q).queries
      (requestOwn cfg store s i signal q).calls := by
  have hsame : Undisturbed { s with queries := s.queries.startUnshared.2 }
      (Engine.startLoad cfg store { s with queries := s.queries.startUnshared.2 }
        ⟨s.queries.started, q, .own i signal, [], none, [], none⟩) := undisturbed_startLoad hsteady
  show Counted (Engine.startLoad cfg store _ _).queries (Engine.startLoad cfg store _ _).calls
  apply h.mono
  · exact fun f hf => hsame.flights ▸ hf
  · exact hsame.started ▸ Nat.le_succ _
  · exact fun load => Nat.le_of_eq (congrArg (waiting · load) hsame.calls)

end Counted

/-! ## Events -/

/-- The engine is faithful to the answers, and knows which callers are the last ones. -/
structure InOrder (answers : Answers) (s : State) : Prop where
  faithful : Faithful answers s s.Pending
  counted : Counted s.queries s.calls

theorem inOrder_initial (now : Time) : InOrder answers (.initial now) where
  faithful :=
    { results := fun _ _ hholds => absurd hholds TtlCache.not_holds_new
      graph := fun _ hholds => absurd hholds TtlCache.not_holds_new
      distinct := List.nodup_nil
      loads := fun _ hl => nomatch hl
      calls := fun _ _ hc => nomatch hc
      joinable := fun _ hf => nomatch hf
      jobs := fun _ ⟨_, hj⟩ => nomatch hj
      served := fun _ _ hc => nomatch hc
      furthered := fun _ hl => nomatch hl
      underWay := fun _ hf => nomatch hf }
  counted :=
    { below := fun _ hf => nomatch hf
      count := fun _ hf => nomatch hf }

/-- Nobody waits for the load that starts next. -/
theorem Faithful.waiting_started (h : Faithful answers s J) :
    waiting s.calls s.queries.started = 0 := by
  apply List.countP_eq_zero.mpr
  -- a call waits for a load that is there, and numbers of such loads are below
  intro c hc hwaits
  obtain ⟨i, hi⟩ := List.mem_iff_getElem?.mp hc
  simp only [Call.isWaiting, Bool.and_eq_true, beq_iff_eq] at hwaits
  obtain ⟨l, hl, hid, -⟩ := (h.calls i c hi).loaded _ hwaits.1
  have hbelow := (h.loads l hl).below
  omega

namespace InOrder

theorem frame (h : InOrder answers s) (hframe : Frame s s') : InOrder answers s' where
  faithful := by
    rw [pending_congr hframe.agenda]
    exact h.faithful.frame hframe
  counted := h.counted.frame hframe

/-- A call is made that gets its result at once. -/
theorem addSettled (h : InOrder answers s) {result : Except Rejection Result}
    (hright : s.reason? c.signal = none → result.map Result.outcome = answers.expected c.text)
    (hfree : c.load = none) :
    InOrder answers ({ s with calls := s.calls ++ [c] }.settleCall s.calls.length result) where
  faithful := h.faithful.addSettled hright hfree
  counted := by
    have hcounted : Counted s.queries (s.calls ++ [c]) :=
      h.counted.mono (fun _ => id) (Nat.le_refl _) fun _ =>
        Nat.le_of_eq (Counted.waiting_append hfree)
    exact Counted.settleCall (s := { s with calls := s.calls ++ [c] }) hcounted result

/-- The texts of expanding queries do not matter. -/
theorem setExpanding (h : InOrder answers s) (texts : List Text) :
    InOrder answers { s with expanding := texts } where
  faithful := h.faithful.transfer rfl rfl rfl (fun _ => id) (Nat.le_refl _) h.faithful.results
    h.faithful.graph h.faithful.joinable h.faithful.underWay
  counted := h.counted

theorem call (hsteady : Steady store answers) (h : InOrder answers s) :
    InOrder answers (call cfg store s text signal) := by
  let c : Call := ⟨text, signal, s.now, none, false, none⟩
  unfold Engine.call
  cases hquery : readQuery text with
  | error failure =>
    have hsettled : InOrder answers ({ s with calls := s.calls ++ [c] }.settleCall s.calls.length
        (.error (.failed text failure))) := by
      apply h.addSettled _ rfl
      intro _
      rw [Answers.expected, hquery]
      rfl
    exact hsettled.frame (frame_finishWith ..)
  | ok q =>
    -- whether the query expands makes no difference but to the texts noted
    have hnoted : ∃ texts, (if q.expansion.isSome then
        { { s with calls := s.calls ++ [c] } with expanding := addNew s.expanding text }
        else { s with calls := s.calls ++ [c] }) =
        { { s with expanding := texts } with calls := s.calls ++ [c] } := by
      split
      · exact ⟨_, rfl⟩
      · exact ⟨s.expanding, rfl⟩
    obtain ⟨texts, hnoted⟩ := hnoted
    dsimp only
    rw [hnoted]
    have hs := h.setExpanding texts
    cases hreason : s.reason? signal with
    | some reason =>
      have hsettled : InOrder answers
          ({ { s with expanding := texts } with calls := s.calls ++ [c] }.settleCall s.calls.length
            (.error (.aborted reason))) := by
        apply hs.addSettled _ rfl
        intro hquiet
        exact absurd (hreason.symm.trans hquiet) (Option.some_ne_none reason)
      dsimp only [State.reason?] at hreason ⊢
      rw [hreason]
      exact hsettled
    | none =>
      have hwaiting := hs.faithful.addWaiting (c := c) rfl rfl rfl hquery
      have hlast : (s.calls ++ [c])[s.calls.length]? = some c := List.getElem?_concat_length
      have hcounted : Counted s.queries (s.calls ++ [c]) :=
        h.counted.mono (fun _ => id) (Nat.le_refl _) fun _ =>
          Nat.le_of_eq (Counted.waiting_append rfl)
      have hwaits : c.Waits s := ⟨rfl, hreason⟩
      dsimp only [State.reason?] at hreason ⊢
      rw [hreason]
      dsimp only
      split
      · exact ⟨hwaiting.requestOwn hsteady hlast hwaits hquery, Counted.requestOwn hsteady hcounted⟩
      · have hnew : waiting (s.calls ++ [c]) s.queries.started = 0 :=
          (Counted.waiting_append rfl).trans h.faithful.waiting_started
        exact ⟨hwaiting.requestShared hsteady hlast rfl hwaits hquery,
          Counted.requestShared hsteady hcounted hlast hnew⟩

end InOrder

end IssueQuery.Engine
