import IssueQuery.Proofs.Engine.Resuming
import IssueQuery.Proofs.Engine.Vouching

/-!
# What is asked for each load

The journal of a run falls into the ledgers of the loads, since every statement is given for one of
them. While a load can still go on with the graph, its ledger has the statements with which it began,
and once it has gone on its ledger is closed. So the outcome of an expanding query is accounted for
by the ledger of the load that came to it, wherever it is told and however late.

* `ledger`             what is asked for a load in a run;
* `Traced.mem_journal_iff` each entry of the journal is in just one of them;
* `Account`            a ledger from which an outcome came;
* `Books`              what is known of ledgers in the middle of a run;
* `vouched_run`        every outcome that is kept or told is accounted for.
-/

namespace IssueQuery.Engine

variable {cfg : Settings} {store : Store} {m : Mark} {s s' : State} {l : Load} {event : Event}
  {load : Nat} {q : Query} {e : Expansion} {out : Outcome} {draws : Draws}
  {entries : List StoreCall} {statements : List Statement} {past : Nat → List (StoreCall × Nat)}

/-! ## Ledgers -/

/-- What an event adds to the journal for a load, each entry with its number. -/
def share (cfg : Settings) (store : Store) (load : Nat) (s : State) (event : Event) :
    List (StoreCall × Nat) :=
  if s.asker event = some load
  then ((step cfg store s event).journal.drop s.journal.length).zipIdx s.journal.length
  else []

/-- What is added to the journal for a load in a run, each entry with its number. -/
def ledger (cfg : Settings) (store : Store) (load : Nat) : State → List Event →
    List (StoreCall × Nat)
  | _, [] => []
  | s, event :: rest =>
    share cfg store load s event ++ ledger cfg store load (step cfg store s event) rest

/-- What comes first is past when the rest comes. -/
theorem ledger_cons (past : Nat → List (StoreCall × Nat)) (s : State) (event : Event)
    (rest : List Event) :
    (fun load => past load ++ ledger cfg store load s (event :: rest)) =
      fun load => (past load ++ share cfg store load s event) ++
        ledger cfg store load (step cfg store s event) rest :=
  funext fun _ => (List.append_assoc _ _ _).symm

theorem share_of_asker (hasker : s.asker event = some load)
    (hjournal : (step cfg store s event).journal = s.journal ++ entries) :
    share cfg store load s event = entries.zipIdx s.journal.length := by
  rw [share, if_pos hasker, hjournal, List.drop_left]

theorem share_of_other (hasker : s.asker event ≠ some load) :
    share cfg store load s event = [] :=
  if_neg hasker

/-- What is in a share was added to the journal by the event, for the load that is its asker. -/
theorem mem_share {n : Nat} {entry : StoreCall} :
    (entry, n) ∈ share cfg store load s event ↔ s.asker event = some load ∧
      s.journal.length ≤ n ∧ (step cfg store s event).journal[n]? = some entry := by
  by_cases hasker : s.asker event = some load
  · rw [share, if_pos hasker, List.mem_zipIdx_iff_le_and_getElem?_sub, and_iff_right hasker]
    refine and_congr_right fun hn => ?_
    rw [List.getElem?_drop, Nat.add_sub_cancel' hn]
  · rw [share_of_other hasker]
    exact ⟨fun hmem => absurd hmem List.not_mem_nil, fun hmem => absurd hmem.1 hasker⟩

/-- The journal keeps its entries. -/
theorem Traced.getElem?_run (h : Traced store m s) (events : List Event) {n : Nat}
    (hn : n < s.journal.length) :
    (Engine.run cfg store s events).journal[n]? = s.journal[n]? := by
  rw [List.prefix_iff_getElem?.mp (h.journal_run events) n hn, List.getElem?_eq_getElem hn]

/-- What is in a ledger was added to the journal. -/
theorem Traced.getElem?_of_mem_ledger (h : Traced store m s) {events : List Event} {n : Nat}
    {entry : StoreCall} (hmem : (entry, n) ∈ ledger cfg store load s events) :
    s.journal.length ≤ n ∧ (Engine.run cfg store s events).journal[n]? = some entry := by
  induction events generalizing s with
  | nil => exact nomatch hmem
  | cons event rest ih =>
    obtain hnow | hlater := List.mem_append.mp hmem
    · obtain ⟨-, hn, hentry⟩ := mem_share.mp hnow
      obtain ⟨hlt, -⟩ := List.getElem?_eq_some_iff.mp hentry
      exact ⟨hn, ((h.step event).getElem?_run rest hlt).trans hentry⟩
    · obtain ⟨hn, hentry⟩ := ih (h.step event) hlater
      exact ⟨Nat.le_trans (h.grows cfg event).1.length_le hn, hentry⟩

/-- The ledgers of the loads have everything that is added to the journal. -/
theorem Traced.exists_ledger (h : Traced store m s) {events : List Event} {n : Nat}
    {entry : StoreCall} (hn : s.journal.length ≤ n)
    (hentry : (Engine.run cfg store s events).journal[n]? = some entry) :
    ∃ load, (entry, n) ∈ ledger cfg store load s events := by
  induction events generalizing s with
  | nil =>
    have hbeyond : s.journal[n]? = none := List.getElem?_eq_none hn
    exact nomatch hbeyond.symm.trans hentry
  | cons event rest ih =>
    by_cases hlater : (Engine.step cfg store s event).journal.length ≤ n
    · obtain ⟨load, hmem⟩ := ih (h.step event) hlater hentry
      exact ⟨load, List.mem_append_right _ hmem⟩
    · -- the entry was added by the first event, so that has an asker
      have hnow : (Engine.step cfg store s event).journal[n]? = some entry :=
        ((h.step event).getElem?_run rest (Nat.lt_of_not_le hlater)).symm.trans hentry
      cases hasker : s.asker event with
      | none =>
        have hsame : Notes s (Engine.step cfg store s event) [] := notes_of_asker hasker
        have hjournal := hsame.journal
        rw [List.append_nil] at hjournal
        exact absurd (hjournal ▸ hn) hlater
      | some load =>
        exact ⟨load, List.mem_append_left _ (mem_share.mpr ⟨hasker, hn, hnow⟩)⟩

/-- No two loads have the same entry in their ledgers. -/
theorem Traced.eq_of_mem_ledger (h : Traced store m s) {events : List Event} {n load' : Nat}
    {entry entry' : StoreCall} (hmem : (entry, n) ∈ ledger cfg store load s events)
    (hmem' : (entry', n) ∈ ledger cfg store load' s events) : load = load' := by
  induction events generalizing s with
  | nil => exact nomatch hmem
  | cons event rest ih =>
    -- what the first event added comes before everything that is added later
    have happart {load load' : Nat} {entry entry' : StoreCall}
        (hnow : (entry, n) ∈ share cfg store load s event)
        (hlater : (entry', n) ∈ ledger cfg store load' (Engine.step cfg store s event) rest) :
        False := by
      obtain ⟨hlt, -⟩ := List.getElem?_eq_some_iff.mp (mem_share.mp hnow).2.2
      exact Nat.not_lt.mpr ((h.step event).getElem?_of_mem_ledger hlater).1 hlt
    obtain hnow | hlater := List.mem_append.mp hmem
    · obtain hnow' | hlater' := List.mem_append.mp hmem'
      · exact Option.some.inj ((mem_share.mp hnow).1.symm.trans (mem_share.mp hnow').1)
      · exact (happart hnow hlater').elim
    · obtain hnow' | hlater' := List.mem_append.mp hmem'
      · exact (happart hnow' hlater).elim
      · exact ih (h.step event) hlater hlater'

/-- Each entry that is added to the journal in a run is in the ledger of just one load. -/
theorem Traced.mem_journal_iff (h : Traced store m s) {events : List Event} {n : Nat}
    {entry : StoreCall} (hn : s.journal.length ≤ n) :
    (Engine.run cfg store s events).journal[n]? = some entry ↔
      ∃! load, (entry, n) ∈ ledger cfg store load s events := by
  constructor
  · intro hentry
    obtain ⟨load, hmem⟩ := h.exists_ledger hn hentry
    exact ⟨load, hmem, fun load' hmem' => h.eq_of_mem_ledger hmem' hmem⟩
  · rintro ⟨load, hmem, -⟩
    exact (h.getElem?_of_mem_ledger hmem).2

/-- Nothing more is asked for a load that does not go on any more. -/
theorem Traced.ledger_eq_nil (h : Traced store m s)
    (hload : load < s.queries.started) (hspent : s.due load = 0) (events : List Event) :
    ledger cfg store load s events = [] := by
  induction events generalizing s with
  | nil => rfl
  | cons event rest ih =>
    have hstep : (Engine.step cfg store s event).due load +
        (if s.asker event = some load then 1 else 0) ≤ s.due load :=
      (h.step_abides event).2 load hload
    -- to ask once more the load would need a turn that is left
    have hother : s.asker event ≠ some load := by
      intro hasker
      rw [if_pos hasker] at hstep
      omega
    rw [ledger, share_of_other hother, List.nil_append]
    apply ih (h.step event)
    · exact Nat.lt_of_lt_of_le hload (h.grows cfg event).2.1
    · omega

/-- A turn in which a load goes on is the last one for which it asks. -/
theorem Traced.ledger_tick (h : Traced store m s)
    (honce : s.due load ≤ 1) (hload : load < s.queries.started)
    (hasker : s.asker .tick = some load)
    (hjournal : (Engine.step cfg store s .tick).journal = s.journal ++ entries)
    (rest : List Event) :
    ledger cfg store load s (.tick :: rest) = entries.zipIdx s.journal.length := by
  have hstep : (Engine.step cfg store s .tick).due load +
      (if s.asker .tick = some load then 1 else 0) ≤ s.due load :=
    (h.step_abides .tick).2 load hload
  rw [if_pos hasker] at hstep
  have hlater : ledger cfg store load (Engine.step cfg store s .tick) rest = [] := by
    apply (h.step .tick).ledger_eq_nil
    · exact Nat.lt_of_lt_of_le hload (h.grows cfg .tick).2.1
    · omega
  rw [ledger, share_of_asker hasker hjournal, hlater, List.append_nil]

/-! ## Accounts -/

/-- The ledger is that of a load of the query which came to the outcome: with the statements with
which the load began and, if it went on with the graph, with those for what its expansion found. -/
inductive Account (store : Store) (draws : Draws) (q : Query) (e : Expansion) (out : Outcome) :
    List (StoreCall × Nat) → Prop
  | empty {n : Nat} {statements : List Statement} (hbegun : Begun store q n statements [])
    (hout : out = ⟨[], some (emptyReport e 0)⟩) :
    Account store draws q e out ((statements.map ranEntry).zipIdx n)
  | widened {base : List Issue} {graph : Graph} {n k : Nat} {first more : List Statement}
    (hsome : base ≠ []) (hbegun : Begun store q n first base) (hgraph : draws.GivesGraph graph)
    (hwidened : Widened store base e graph k more out) :
    Account store draws q e out
      ((first.map ranEntry).zipIdx n ++ (more.map ranEntry).zipIdx k)

/-- If the query expands, then the outcome is accounted for by the ledger of some load. -/
def Accounted (store : Store) (draws : Draws) (ledgers : Nat → List (StoreCall × Nat)) (q : Query)
    (out : Outcome) : Prop :=
  ∀ e, q.expansion = some e → ∃ load, Account store draws q e out (ledgers load)

/-- What is known of the loads in the middle of a run, when these are their ledgers: a load goes on
with the graph once at most, and until then its ledger has what it began with. -/
structure Books (store : Store) (past : Nat → List (StoreCall × Nat)) (s : State) : Prop where
  once : ∀ load, s.due load ≤ 1
  fresh : ∀ load, s.queries.started ≤ load → past load = []
  opened : ∀ l ∈ s.loads, s.due l.id ≠ 0 → l.base ≠ [] → ∃ statements n,
    past l.id = (statements.map ranEntry).zipIdx n ∧ Begun store l.query n statements l.base

/-! ## How the books are kept -/

/-- A load begins with one statement at least. -/
theorem Begun.ne_nil {n : Nat} {base : List Issue} (h : Begun store q n statements base) :
    statements ≠ [] := by
  obtain ⟨selection, own, -, -, rfl, -⟩ := h
  exact List.append_ne_nil_of_left_ne_nil (List.cons_ne_nil _ _) own

/-- A load with base issues begins with more statements than one that has none. -/
theorem Begun.base_eq_nil {n n' : Nat} {base : List Issue} {q' : Query}
    {statements' : List Statement} (h : Begun store q n statements base)
    (h' : Begun store q' n' statements' []) (hlength : statements.length = statements'.length) :
    base = [] := by
  obtain ⟨selection, own, -, -, rfl, -⟩ := h
  obtain ⟨selection', own', -, rfl | ⟨hnil, -⟩, rfl, -⟩ := h'
  · by_contra hne
    simp [batchStatements, hne] at hlength
  · exact absurd rfl hnil

theorem length_eq_of_entries {statements' : List Statement} {journal : List StoreCall}
    (h : s.journal = journal ++ statements.map ranEntry)
    (h' : s.journal = journal ++ statements'.map ranEntry) :
    statements.length = statements'.length := by
  have hentries := congrArg List.length (List.append_cancel_left (h.symm.trans h'))
  simpa using hentries

namespace Traced

/-- Nothing is asked for a load before it starts. -/
theorem share_of_fresh (h : Traced store m s)
    (hload : (Engine.step cfg store s event).queries.started ≤ load) :
    share cfg store load s event = [] := by
  have hbefore := Nat.le_trans (h.grows cfg event).2.1 hload
  by_cases hasker : s.asker event = some load
  · cases event with
    | call text signal =>
      obtain hn | ⟨q, -, selection, entries, -, hstarted, -⟩ :=
        call_notes cfg store h.below text signal
      · exact share_of_asker hasker hn.journal
      · -- the load of the number asked for is the one that the call starts
        obtain rfl : s.queries.started = load := Option.some.inj hasker
        exact absurd (hstarted ▸ hload) (Nat.not_succ_le_self _)
    | tick =>
      obtain ⟨graph, rest, hagenda⟩ := exists_resume_of_asker hasker
      obtain ⟨l, hl, rfl, -⟩ := h.jobs (.resume load graph) (pending_head hagenda)
      exact absurd (h.below l hl) (Nat.not_lt.mpr hbefore)
    | abort signal reason | invalidate | invalidateGraph | advance span | close =>
      cases hasker
  · exact share_of_other hasker

/-- A load that is new has been started by a call. -/
theorem launched (h : Traced store m s)
    (hl : l ∈ (Engine.step cfg store s event).loads) (hnew : s.queries.started ≤ l.id) :
    ∃ text signal l₀, event = .call text signal ∧
      Launches store s (Engine.step cfg store s event) l₀ ∧ l₀.Abides l := by
  have hold : ∀ l₀ ∈ s.loads, ¬ l₀.Abides l := fun l₀ hl₀ habides =>
    absurd (h.below l₀ hl₀) (Nat.not_lt.mpr (habides.id ▸ hnew))
  obtain ⟨text, signal, rfl⟩ | ⟨entries, hnotes⟩ := call_or_notes cfg store s event
  · obtain habides | ⟨l₀, -, hlaunches⟩ := (called cfg store s text signal).launches h
    · obtain ⟨l₀, hl₀, habides⟩ := (habides 0).loads l hl
      exact absurd habides (hold l₀ hl₀)
    · obtain ⟨l₁, hl₁, habides⟩ | habides := hlaunches.loads l hl
      · exact absurd habides (hold l₁ hl₁)
      · exact ⟨text, signal, l₀, rfl, hlaunches, habides⟩
  · have hbelow := (h.step event).below l hl
    rw [hnotes.started] at hbelow
    exact absurd hbelow (Nat.not_lt.mpr hnew)

/-- A load that begins without base issues never goes on with the graph. -/
theorem spent_of_empty {text : Text} {signal : Option Text} (h : Traced store m s)
    (hstore : Unfailing store)
    (hjournal : (Engine.step cfg store s (.call text signal)).journal =
      s.journal ++ statements.map ranEntry)
    (hbegun : Begun store q s.asked statements []) :
    (Engine.step cfg store s (.call text signal)).queries.started = s.queries.started + 1 ∧
      (Engine.step cfg store s (.call text signal)).due s.queries.started = 0 := by
  constructor
  · obtain hn | ⟨q', -, selection, entries, -, hstarted, -⟩ :=
      call_notes cfg store h.below text signal
    · have hnone := List.append_cancel_left (hn.journal.symm.trans hjournal)
      exact absurd (List.map_eq_nil_iff.mp hnone.symm) hbegun.ne_nil
    · exact hstarted
  · have hzero := h.due_eq_zero (Nat.le_refl s.queries.started)
    obtain habides | ⟨l, -, hl⟩ := (called cfg store s text signal).launches h
    · have hdue := (habides _).due _ (Nat.lt_succ_self s.queries.started)
      exact Nat.le_zero.mp (hzero ▸ hdue)
    · have hbase : l.base = [] := by
        by_contra hne
        obtain ⟨statements', hjournal', hbegun'⟩ := hl.begun hstore hne
        exact hne (hbegun'.base_eq_nil hbegun (length_eq_of_entries hjournal' hjournal))
      have hdue := hl.due
      rw [if_pos hbase, hl.id] at hdue
      exact Nat.le_zero.mp hdue

end Traced

theorem Books.step (hb : Books store past s) (h : Traced store m s) (hstore : Unfailing store)
    (event : Event) :
    Books store (fun load => past load ++ share cfg store load s event)
      (step cfg store s event) where
  once := h.due_le_one hb.once event
  fresh := by
    intro load hload
    rw [hb.fresh load (Nat.le_trans (h.grows cfg event).2.1 hload), h.share_of_fresh hload]
    rfl
  opened := by
    intro l' hl' hdue hbase
    by_cases hold : l'.id < s.queries.started
    · obtain ⟨l, hl, habides⟩ := (h.step_abides event).1 l' hl' hold
      have hstep : (Engine.step cfg store s event).due l'.id +
          (if s.asker event = some l'.id then 1 else 0) ≤ s.due l'.id :=
        (h.step_abides event).2 l'.id hold
      have honce := hb.once l'.id
      -- the load can still go on, so it is not the one that went on now
      have hother : s.asker event ≠ some l'.id := by
        intro hasker
        rw [if_pos hasker] at hstep
        omega
      obtain ⟨statements, n, hpast, hbegun⟩ :=
        hb.opened l hl (by rw [← habides.id]; omega) (habides.base ▸ hbase)
      rw [share_of_other hother, List.append_nil, habides.id, habides.query, habides.base]
      exact ⟨statements, n, hpast, hbegun⟩
    · obtain ⟨text, signal, l, rfl, hlaunches, habides⟩ :=
        h.launched hl' (Nat.not_lt.mp hold)
      obtain ⟨statements, hjournal, hbegun⟩ := hlaunches.begun hstore (habides.base ▸ hbase)
      have hasker : s.asker (.call text signal) = some l.id := congrArg some hlaunches.id.symm
      refine ⟨statements, s.asked, ?_, by rw [habides.query, habides.base]; exact hbegun⟩
      rw [hb.fresh _ (Nat.not_lt.mp hold), habides.id, share_of_asker hasker hjournal,
        List.nil_append, show s.journal.length = s.asked from h.recorded]

/-! ## Outcomes are accounted for -/

/-- What a load comes to is accounted for by its ledger, to which nothing is added any more. -/
theorem ComesTo.accounted (hcomes : ComesTo cfg store s event q out) (hb : Books store past s)
    (h : Traced store m s) (hmark : ∀ l : Load, l.Fresh m) (hstore : Unfailing store)
    (rest : List Event) :
    Accounted store ((run cfg store s (event :: rest)).drawn store 0)
      (fun load => past load ++ ledger cfg store load s (event :: rest)) q out := by
  intro e' he'
  cases hcomes with
  | @empty text signal q e statements hquery he hjournal hbegun =>
    obtain rfl : e = e' := Option.some.inj (he.symm.trans he')
    -- the load began and ended with this call, so its ledger is closed
    obtain ⟨hstarted, hspent⟩ := h.spent_of_empty hstore hjournal hbegun
    have hclosed : ledger cfg store s.queries.started (step cfg store s (.call text signal)) rest =
        [] :=
      (h.step _).ledger_eq_nil (hstarted ▸ Nat.lt_succ_self _) hspent rest
    refine ⟨s.queries.started, ?_⟩
    dsimp only
    rw [hb.fresh _ (Nat.le_refl _), List.nil_append, ledger, share_of_asker rfl hjournal, hclosed,
      List.append_nil, show s.journal.length = s.asked from h.recorded]
    exact .empty hbegun rfl
  | @widened l e graph jobs statements out hagenda hl he hjournal hwidened =>
    obtain rfl : e = e' := Option.some.inj (he.symm.trans he')
    obtain ⟨l', hl', hid, hsome, hgraph⟩ :=
      h.jobs (.resume l.id (.ok graph)) (pending_head hagenda)
    obtain rfl := h.eq_of_id hl hl' hid
    have hdue : s.due l'.id ≠ 0 := by
      simp [State.due, hagenda, Job.resumes]
    have hasker : s.asker .tick = some l'.id := by
      simp [State.asker, hagenda]
    -- what the load began with is past, and this turn is its last one
    obtain ⟨first, n, hpast, hbegun⟩ := hb.opened l' hl hdue hsome
    refine ⟨l'.id, ?_⟩
    dsimp only
    rw [hpast, h.ledger_tick (hb.once _) (h.below l' hl) hasker hjournal,
      show s.journal.length = s.asked from h.recorded]
    refine .widened hsome hbegun ((hgraph graph rfl (hmark l')).mono ?_) hwidened
    exact drawn_within (h.journal_run _) (Nat.zero_le _)

/-- Whatever is kept or told in a run is accounted for by the ledgers of the whole run. -/
theorem vouched_run (hb : Books store past s) (h : Traced store m s)
    (hmark : ∀ l : Load, l.Fresh m) (hstore : Unfailing store) (events : List Event)
    (hv : Vouched (Accounted store ((run cfg store s events).drawn store 0)
      fun load => past load ++ ledger cfg store load s events) s) :
    Vouched (Accounted store ((run cfg store s events).drawn store 0)
      fun load => past load ++ ledger cfg store load s events) (run cfg store s events) := by
  -- the ledgers of the whole run stay the same while the past takes over from the future
  induction events generalizing s past with
  | nil => exact hv
  | cons event rest ih =>
    have hplain : ∀ q out, q.expansion = none →
        Accounted store ((run cfg store s (event :: rest)).drawn store 0)
          (fun load => past load ++ ledger cfg store load s (event :: rest)) q out := by
      intro q out hnone e he
      exact nomatch hnone.symm.trans he
    have hnext := hv.step h hstore event hplain fun q out hcomes =>
      hcomes.accounted hb h hmark hstore rest
    rw [ledger_cons] at hnext ⊢
    exact ih (hb.step h hstore event) (h.step event) hnext

theorem books_new (now : Time) (ttl interval ttl' interval' : Option Time) :
    Books store (fun _ => []) (.new now (.new now ttl interval) (.new now ttl' interval')) where
  once := fun _ => by simp [State.due, State.Awaits, State.new]
  fresh := fun _ _ => rfl
  opened := fun _ hl => nomatch hl

/-- A result that a call got of an expanding query is accounted for by the ledger of a load. -/
theorem exists_account (hstore : Unfailing store) (now : Time)
    (ttl interval ttl' interval' : Option Time) (events : List Event) :
    let s₀ := State.new now (.new now ttl interval) (.new now ttl' interval')
    let s := run cfg store s₀ events
    ∀ (i : Nat) (c : Call) (result : Result), s.calls[i]? = some c →
      c.settled = some (.ok result) → ∀ q e, readQuery c.text = .ok q → q.expansion = some e →
      ∃ load, Account store (s.drawn store 0) q e result.outcome
        (ledger cfg store load s₀ events) := by
  intro s₀ s i c result hc hsettled q e hquery he
  have hvouched : Vouched (Accounted store (s.drawn store 0)
      fun load => [] ++ ledger cfg store load s₀ events) s :=
    vouched_run (books_new now ttl interval ttl' interval')
      (traced_new now ttl interval ttl' interval' fun _ => True)
      (fun l => ⟨Nat.zero_le _, trivial⟩) hstore events
      (vouched_new _ now ttl interval ttl' interval')
  exact hvouched.settled i c hc result hsettled q hquery e he

end IssueQuery.Engine
