import IssueQuery.Proofs.Engine.Invalidation
import IssueQuery.Proofs.Query.Conjunct

/-!
# What the store is asked

Every statement that an engine gives to the store is noted in the journal. A load begins with the
statement of its query, the expansion of a load with one for the identifiers that it found, and
whatever else is asked belongs to issues that were fetched before or to the graph.

* `Fetched`                the entries of a statement for issues and of what belongs to them;
* `Notes`                  what is added to the journal between two states;
* `Attaches`, `Fetches`    work that adds entries of these kinds;
* `call_notes`, `tick_notes` what calls and turns ask; nothing else asks anything.
-/

namespace IssueQuery

/-- The entry notes that the store was given the statement, with the values bound if it ran. -/
def StoreCall.Asks (entry : StoreCall) (statement : Statement) : Prop :=
  entry = .statement statement.sql none ∨ entry = .statement statement.sql (some statement.params)

namespace Engine

/-! ## Entries -/

/-- The statements for what belongs to issues, and for the graph. -/
inductive Attachment : Statement → Prop
  | dependencies (ids : List Text) : Attachment (.dependencies ids)
  | labels (ids : List Text) : Attachment (.labels ids)
  | commentCounts (ids : List Text) : Attachment (.commentCounts ids)
  | graph : Attachment .allDependencies

/-- The entries are of statements for what belongs to issues, or for the graph. -/
def Attached (entries : List StoreCall) : Prop :=
  ∀ e ∈ entries, ∃ statement, Attachment statement ∧ e.Asks statement

/-- The entries are of a statement for issues, and then of what belongs to them. -/
def Fetched (statement : Statement) (entries : List StoreCall) : Prop :=
  ∃ first more, entries = first :: more ∧ first.Asks statement ∧ Attached more

variable {entries entries' : List StoreCall} {statement : Statement}

theorem attached_nil : Attached [] := by
  simp [Attached]

theorem Attached.append (h : Attached entries) (h' : Attached entries') :
    Attached (entries ++ entries') := by
  intro e he
  exact (List.mem_append.mp he).elim (h e) (h' e)

theorem Fetched.append (h : Fetched statement entries) (h' : Attached entries') :
    Fetched statement (entries ++ entries') := by
  obtain ⟨first, more, rfl, hfirst, hmore⟩ := h
  exact ⟨first, more ++ entries', rfl, hfirst, hmore.append h'⟩

/-! ## Between two states -/

variable {s s' s'' : State}

/-- The entries are what is added to the journal, and no load starts. -/
structure Notes (s s' : State) (entries : List StoreCall) : Prop where
  journal : s'.journal = s.journal ++ entries
  started : s'.queries.started = s.queries.started

/-- A step that touches neither the journal nor the count of loads. -/
theorem Notes.of_eq (hjournal : s'.journal = s.journal)
    (hstarted : s'.queries.started = s.queries.started) : Notes s s' [] :=
  ⟨by rw [hjournal, List.append_nil], hstarted⟩

theorem Notes.trans (h : Notes s s' entries) (h' : Notes s' s'' entries') :
    Notes s s'' (entries ++ entries') where
  journal := by rw [h'.journal, h.journal, List.append_assoc]
  started := h'.started.trans h.started

/-- A step that notes nothing may follow. -/
theorem Notes.quiet (h : Notes s s' entries) (h' : Notes s' s'' []) : Notes s s'' entries := by
  have htrans := h.trans h'
  rwa [List.append_nil] at htrans

theorem notes_foldl {α : Type} {f : State → α → State} (hf : ∀ s a, Notes s (f s a) [])
    (items : List α) (s : State) : Notes s (items.foldl f s) [] := by
  induction items generalizing s with
  | nil => exact .of_eq rfl rfl
  | cons a items ih => exact (hf s a).quiet (ih (f s a))

theorem notes_turnAway (s : State) (signal reason : Text) (call : Nat) :
    Notes s (s.turnAway signal reason call) [] := by
  have hdeparted (load : Nat) : Notes s (s.departed call load reason) [] :=
    .of_eq rfl ReadThrough.leave_started
  obtain hsame | ⟨-, load, -, -, hturned | hturned⟩ := turnAway_cases s signal reason call
  · rw [hsame]
    exact .of_eq rfl rfl
  · rw [hturned]
    exact hdeparted load
  · obtain ⟨graphs, waiters, hcallOff, -⟩ :=
      callOff_eq (s.departed call load reason) load signal reason
    rw [hturned, hcallOff]
    exact (hdeparted load).quiet (.of_eq rfl rfl)

theorem notes_abort (s : State) (signal reason : Text) : Notes s (s.abort signal reason) [] :=
  abort_keeps (P := fun s' => Notes s s' []) (.of_eq rfl rfl) (fun _ => .of_eq rfl rfl)
    fun s' i _ h => h.quiet (notes_turnAway s' signal reason i)

/-! ## Work -/

variable {ε α β : Type} (cfg : Settings) (store : Store) (load : Nat)

/-- Work that asks for nothing but what belongs to issues, or for the graph. -/
def Attaches (work : Work ε α) : Prop :=
  ∀ s, ∃ entries, Notes s (work s).2 entries ∧ Attached entries

/-- Work that begins with a statement for issues. -/
def Fetches (statement : Statement) (work : Work ε α) : Prop :=
  ∀ s, ∃ entries, Notes s (work s).2 entries ∧ Fetched statement entries

theorem attaches_pure (a : α) : Attaches (pure a : Work ε α) := fun _ =>
  ⟨[], .of_eq rfl rfl, attached_nil⟩

theorem attaches_result (result : Except ε α) : Attaches (ExceptT.mk (pure result) : Work ε α) :=
  fun _ => ⟨[], .of_eq rfl rfl, attached_nil⟩

theorem notes_unlessCalledOff (s : State) :
    Notes s (unlessCalledOff load s).2 [] := by
  unfold unlessCalledOff
  split <;> exact .of_eq rfl rfl

/-- What comes behind some work adds its entries to those of the work, if the work does not fail. -/
theorem notes_bind {P : List StoreCall → Prop} (hnone : P []) {work : Work ε α}
    {next : α → Work ε β} {s : State} (h : Notes s (work s).2 entries)
    (hnext : ∀ a s', ∃ more, Notes s' (next a s').2 more ∧ P more) :
    ∃ more, Notes s ((work >>= next) s).2 (entries ++ more) ∧ P more := by
  rw [bind_run]
  cases hwork : work s with
  | mk r s' =>
    rw [hwork] at h
    cases r with
    | error e => exact ⟨[], (List.append_nil entries).symm ▸ h, hnone⟩
    | ok a =>
      obtain ⟨more, hnotes, hmore⟩ := hnext a s'
      exact ⟨more, h.trans hnotes, hmore⟩

theorem Attaches.bind {work : Work ε α} {next : α → Work ε β} (h : Attaches work)
    (hnext : ∀ a, Attaches (next a)) : Attaches (work >>= next) := by
  intro s
  obtain ⟨entries, hnotes, hentries⟩ := h s
  obtain ⟨more, hboth, hmore⟩ := notes_bind attached_nil hnotes hnext
  exact ⟨entries ++ more, hboth, hentries.append hmore⟩

theorem Fetches.bind {work : Work ε α} {next : α → Work ε β} (h : Fetches statement work)
    (hnext : ∀ a, Attaches (next a)) : Fetches statement (work >>= next) := by
  intro s
  obtain ⟨entries, hnotes, hentries⟩ := h s
  obtain ⟨more, hboth, hmore⟩ := notes_bind attached_nil hnotes hnext
  exact ⟨entries ++ more, hboth, hentries.append hmore⟩

/-- The statement is noted, whether it runs or not; time and aborts note nothing. -/
theorem ask_notes (statement : Statement) (s : State) :
    ∃ entry, Notes s (ask store statement s).2 [entry] ∧ entry.Asks statement := by
  unfold ask
  cases store s.asked statement with
  | refused message => exact ⟨_, ⟨rfl, rfl⟩, .inl rfl⟩
  | ran elapsed aborts rows =>
    refine ⟨.statement statement.sql (some statement.params), ?_, .inr rfl⟩
    have hran : Notes s (({ s with asked := s.asked + 1 }.record
        (.statement statement.sql (some statement.params))).advance elapsed)
        [.statement statement.sql (some statement.params)] := ⟨rfl, rfl⟩
    exact hran.quiet (notes_foldl (fun s a => notes_abort s a.1 a.2) aborts _)

/-- To name the step in a failure notes nothing. -/
theorem Fetches.staged {work : Work StageCause α} (h : Fetches statement work) (stage : Stage) :
    Fetches statement (staged stage work) := h

theorem Attaches.staged {work : Work StageCause α} (h : Attaches work) (stage : Stage) :
    Attaches (staged stage work) := h

theorem fetches_query (statement : Statement) (read : Option Json → RowReading α) :
    Fetches statement (query store statement read) := by
  have hask : Fetches statement (ask store statement) := by
    intro s
    obtain ⟨entry, hnotes, hasks⟩ := ask_notes store statement s
    exact ⟨[entry], hnotes, entry, [], rfl, hasks, attached_nil⟩
  exact hask.bind fun rows => attaches_result (readRows read rows)

theorem attaches_query (h : Attachment statement) (read : Option Json → RowReading α) :
    Attaches (query store statement read) := by
  intro s
  obtain ⟨entries, hnotes, first, more, rfl, hfirst, hmore⟩ :=
    fetches_query store statement read s
  exact ⟨_, hnotes, List.forall_mem_cons.mpr ⟨⟨statement, h, hfirst⟩, hmore⟩⟩

theorem fetches_fetch (statement : Statement) : Fetches statement (fetch store load statement) := by
  apply ((fetches_query store statement Issue.ofRow).staged .base).bind
  intro found
  dsimp only
  split
  · exact attaches_pure []
  · have hstop : Attaches (unlessCalledOff load) := fun s =>
      ⟨[], notes_unlessCalledOff load s, attached_nil⟩
    apply hstop.bind
    intro _
    apply ((attaches_query store (.dependencies _) Dependency.ofRow).staged .dependencies).bind
    intro dependencies
    apply ((attaches_query store (.labels _) Labelling.ofRow).staged .labels).bind
    intro labels
    apply ((attaches_query store (.commentCounts _) CommentCount.ofRow).staged .commentCounts).bind
    intro counts
    exact attaches_pure _

theorem attaches_loadGraph : Attaches (staged .graph (loadGraph store)) := by
  apply Attaches.staged
  apply (attaches_query store .graph Dependency.ofRow).bind
  intro dependencies
  exact attaches_pure _

/-- Work that asks for nothing, or for issues by their identifiers. -/
def Widens (work : Work ε α) : Prop :=
  ∀ s, ∃ entries, Notes s (work s).2 entries ∧
    (entries = [] ∨ ∃ ids, ids ≠ [] ∧ Fetched (.withIds ids) entries)

theorem widens_pure (a : α) : Widens (pure a : Work ε α) := fun _ =>
  ⟨[], .of_eq rfl rfl, .inl rfl⟩

theorem widens_behind {quiet : Work ε α} {next : α → Work ε β}
    (h : ∀ s, Notes s (quiet s).2 []) (hnext : ∀ a, Widens (next a)) : Widens (quiet >>= next) :=
  fun s => notes_bind (.inl rfl) (h s) hnext

theorem widens_expand (base : List Issue) (e : Expansion) (graph : Graph) :
    Widens (expand cfg store load base e graph) := by
  apply expand_of_fetchReach
  · exact fun hwork => widens_behind (notes_unlessCalledOff load) fun _ => hwork
  · -- the line in the log is no entry of the journal
    exact fun hwork _ _ => widens_behind (fun s => .of_eq rfl rfl) fun _ => hwork
  · unfold fetchReach
    dsimp only
    split
    · exact widens_pure _
    · rename_i hsome
      intro s
      obtain ⟨entries, hnotes, hfetched⟩ :=
        ((fetches_fetch store load _).bind fun extra => attaches_pure _) s
      exact ⟨entries, hnotes, .inr ⟨_, fun hnil => hsome (by rw [hnil]; rfl), hfetched⟩⟩

/-! ## Turns -/

theorem notes_logResult (result : Except Rejection Result) (s : State) :
    Notes s (logResult cfg s result) [] := by
  unfold logResult
  repeat' split
  all_goals exact .of_eq rfl rfl

theorem notes_conclude (l : Load) (outcome : Except LoadFailure Outcome) (s : State) :
    Notes s (conclude s l outcome) [] := by
  unfold conclude
  split <;> exact .of_eq rfl rfl

theorem notes_finishWith (call : Nat) (result : Except Rejection Result) (s : State) :
    Notes s (finishWith cfg s call result) [] := by
  have hsettled : Notes s (s.settleCall call result) [] := .of_eq rfl rfl
  exact hsettled.quiet (notes_logResult cfg result _)

variable {cfg store} in
/-- No job asks anything but that with which a load goes on. -/
theorem Performed.notes_of_idle {job : Job} (h : Performed cfg store s job s')
    (hidle : ∀ id graph, job ≠ .resume id graph) : Notes s s' [] := by
  cases h with
  | unknown | graphless | plain | expanded => exact absurd rfl (hidle _ _)
  | settled => exact .of_eq rfl ReadThrough.settle_started
  | finished => exact notes_finishWith cfg _ _ s
  | unserved | toldLate | subscribed | settledGraph | deliveredGraph | unawaited | delivered
  | deliveredLate | finishedLate => exact .of_eq rfl rfl

variable {cfg store} in
/-- A job asks nothing, or for the issues that the expansion of a load found. -/
theorem Performed.notes {job : Job} (h : Performed cfg store s job s') :
    ∃ entries, Notes s s' entries ∧
      (entries = [] ∨ ∃ ids, ids ≠ [] ∧ Fetched (.withIds ids) entries) := by
  cases job with
  | resume id graph =>
    cases h with
    | unknown => exact ⟨[], .of_eq rfl rfl, .inl rfl⟩
    | graphless | plain => exact ⟨[], notes_conclude _ _ s, .inl rfl⟩
    | @expanded _ l e found =>
      obtain ⟨entries, hnotes, hentries⟩ := widens_expand cfg store id l.base e found s
      exact ⟨entries, hnotes.quiet (notes_conclude l _ _), hentries⟩
  | subscribe _ | settle _ _ | settleGraph _ _ | deliverGraph _ _ | deliver _ _ | finish _ _ =>
    exact ⟨[], h.notes_of_idle nofun, .inl rfl⟩

/-- A turn asks nothing, or for the issues of some identifiers. -/
theorem tick_notes (s : State) :
    ∃ entries, Notes s (tick cfg store s) entries ∧
      (entries = [] ∨ ∃ ids, ids ≠ [] ∧ Fetched (.withIds ids) entries) := by
  have hs := ticked cfg store s
  generalize tick cfg store s = s' at hs ⊢
  cases hs with
  | idle | putOff => exact ⟨[], .of_eq rfl rfl, .inl rfl⟩
  | @due _ rest _ _ hs =>
    have hrest : Notes s { s with agenda := rest } [] := .of_eq rfl rfl
    obtain ⟨entries, hnotes, hentries⟩ := hs.notes
    exact ⟨entries, hrest.trans hnotes, hentries⟩

/-! ## Calls -/

theorem attaches_requestGraph (s : State) :
    ∃ entries, Notes s (requestGraph cfg store s load) entries ∧ Attached entries := by
  unfold requestGraph
  split
  · exact ⟨[], .of_eq rfl rfl, attached_nil⟩
  · exact ⟨[], .of_eq rfl rfl, attached_nil⟩
  · rename_i g graphs _
    obtain ⟨entries, hnotes, hentries⟩ := attaches_loadGraph store { s with graphs := graphs }
    exact ⟨entries, ⟨hnotes.journal, hnotes.started⟩, hentries⟩

theorem attaches_fetchOwnGraph (s : State) :
    ∃ entries, Notes s (fetchOwnGraph store s load) entries ∧ Attached entries := by
  obtain ⟨entries, hnotes, hentries⟩ := attaches_loadGraph store s
  exact ⟨entries, ⟨hnotes.journal, hnotes.started⟩, hentries⟩

theorem notes_concludeEarly (l : Load) (expanding : Bool) (outcome : Except LoadFailure Outcome)
    (s : State) : Notes s (concludeEarly s l expanding outcome) [] := by
  unfold concludeEarly
  split <;> exact .of_eq rfl rfl

/-- A load that is added under a new number is called off only if its one caller has left. -/
theorem calledOff?_added (s : State) {l : Load} (hnew : ∀ l' ∈ s.loads, l'.id ≠ l.id)
    (hon : l.control = .shared none ∨
      ∃ call signal, l.control = .own call signal ∧ s.reason? signal = none) :
    State.calledOff? { s with loads := s.loads ++ [l] } l.id = none := by
  have hload : State.load? { s with loads := s.loads ++ [l] } l.id = some l := by
    have hnone : s.loads.find? (fun l' => l'.id == l.id) = none :=
      List.find?_eq_none.mpr fun l' hl' => by simpa using hnew l' hl'
    simp [State.load?, List.find?_append, hnone]
  unfold State.calledOff?
  rw [hload]
  obtain hcontrol | ⟨call, signal, hcontrol, hreason⟩ := hon
  · simp only [hcontrol]
  · simp only [hcontrol]
    cases signal with
    | none => rfl
    | some name =>
      have hlookup : s.signals.lookup name = none := hreason
      simp [hlookup]

/-- The base of a load that is not called off is the issues that its query selects. -/
theorem fetchBase_eq {s : State} {id : Nat} {q : Query} {selection : Selection}
    (hselect : q.select = .ok selection) (hon : s.calledOff? id = none) :
    fetchBase store id q s = fetch store id (.selected selection) s := by
  have hstop : unlessCalledOff id s = (.ok (), s) := by rw [unlessCalledOff, hon]
  unfold fetchBase
  rw [hselect, bind_run]
  show (unlessCalledOff id >>= fun _ => fetch store id (.selected selection)) s = _
  rw [bind_run, hstop]

/-- A load begins with the statement of its query. -/
theorem startLoad_notes (s : State) (l : Load) {selection : Selection}
    (hselect : l.query.select = .ok selection)
    (hon : State.calledOff? { s with loads := s.loads ++ [l] } l.id = none) :
    ∃ entries, Notes s (startLoad cfg store s l) entries ∧
      Fetched (.selected selection) entries := by
  obtain ⟨entries, hnotes, hfetched⟩ := fetches_fetch store l.id (.selected selection)
    { s with loads := s.loads ++ [l] }
  have hbase : Notes s (fetchBase store l.id l.query { s with loads := s.loads ++ [l] }).2
      entries := by
    rw [fetchBase_eq store hselect hon]
    exact ⟨hnotes.journal, hnotes.started⟩
  unfold startLoad
  generalize fetchBase store l.id l.query { s with loads := s.loads ++ [l] } = done at hbase ⊢
  obtain ⟨base, s'⟩ := done
  dsimp only at hbase ⊢
  split
  · exact ⟨entries, hbase.quiet (notes_concludeEarly l _ _ s'), hfetched⟩
  · exact ⟨entries, hbase.quiet (notes_concludeEarly l _ _ s'), hfetched⟩
  · exact ⟨entries, hbase.quiet (notes_concludeEarly l _ _ s'), hfetched⟩
  · rename_i issues e _ _
    -- what the graph takes is asked behind the base
    have hmodified : Notes s (s'.modifyLoad l.id fun l => { l with base := issues }) entries :=
      ⟨hbase.journal, hbase.started⟩
    split
    · exact ⟨entries, hmodified.quiet (.of_eq rfl rfl), hfetched⟩
    · split
      · obtain ⟨more, hnotes', hmore⟩ := attaches_requestGraph cfg store l.id
          (s'.modifyLoad l.id fun l => { l with base := issues })
        exact ⟨entries ++ more, hmodified.trans hnotes', hfetched.append hmore⟩
      · obtain ⟨more, hnotes', hmore⟩ := attaches_fetchOwnGraph store l.id
          (s'.modifyLoad l.id fun l => { l with base := issues })
        exact ⟨entries ++ more, hmodified.trans hnotes', hfetched.append hmore⟩

theorem notes_join (s : State) {queries : ReadThrough Text Outcome}
    (hstarted : queries.started = s.queries.started) (call load : Nat) :
    Notes s (join { s with queries := queries } call load) [] := by
  refine .of_eq (join_journal _ call load) ?_
  rw [join_queries]
  exact hstarted

/-- A load of the query starts, and its statement is the first one that is asked. -/
def Begins (q : Query) (s s' : State) : Prop :=
  ∃ selection entries, q.select = .ok selection ∧
    s'.queries.started = s.queries.started + 1 ∧ s'.journal = s.journal ++ entries ∧
    Fetched (.selected selection) entries

theorem Begins.quiet {q : Query} (h : Begins q s s') (h' : Notes s' s'' []) : Begins q s s'' := by
  obtain ⟨selection, entries, hselect, hstarted, hjournal, hfetched⟩ := h
  refine ⟨selection, entries, hselect, h'.started.trans hstarted, ?_, hfetched⟩
  rw [h'.journal, hjournal, List.append_nil]

theorem begins_startLoad {q : Query} (hcheck : q.check = .ok ())
    (hbelow : ∀ l ∈ s.loads, l.id < s.queries.started) (queries : ReadThrough Text Outcome)
    (hstarted : queries.started = s.queries.started + 1) {control : Control}
    (hon : control = .shared none ∨
      ∃ call signal, control = .own call signal ∧ s.reason? signal = none) :
    Begins q s (startLoad cfg store { s with queries := queries }
      ⟨s.queries.started, q, control, [], none, [], none⟩) := by
  obtain ⟨selection, hselect⟩ := Query.select_of_check hcheck
  let l : Load := ⟨s.queries.started, q, control, [], none, [], none⟩
  have hnew : ∀ l' ∈ s.loads, l'.id ≠ l.id := fun l' hl' => Nat.ne_of_lt (hbelow l' hl')
  have hadded := calledOff?_added { s with queries := queries } hnew hon
  obtain ⟨entries, hnotes, hfetched⟩ :=
    startLoad_notes cfg store { s with queries := queries } l hselect hadded
  exact ⟨selection, entries, hselect, hnotes.started.trans hstarted, hnotes.journal, hfetched⟩

/-- A request that finds nothing starts a load. -/
theorem begins_requestShared (hbelow : ∀ l ∈ s.loads, l.id < s.queries.started) {q : Query}
    (hcheck : q.check = .ok ()) (call : Nat) (text : Text) {queries : ReadThrough Text Outcome}
    (hrequest : s.queries.request true text (some cfg.ttl) s.now =
      (.starts s.queries.started, queries)) (hstarted : queries.started = s.queries.started + 1) :
    Begins q s (requestShared cfg store s call text q) := by
  unfold requestShared
  rw [hrequest]
  have hbegins := begins_startLoad cfg store hcheck hbelow queries hstarted (.inl rfl)
  exact hbegins.quiet (notes_join _ rfl call _)

theorem requestShared_notes (hbelow : ∀ l ∈ s.loads, l.id < s.queries.started) {q : Query}
    (hcheck : q.check = .ok ()) (call : Nat) (text : Text) :
    Notes s (requestShared cfg store s call text q) [] ∨
      Begins q s (requestShared cfg store s call text q) := by
  obtain ⟨outcome, -, hrequest⟩ | ⟨f, -, hrequest⟩ | ⟨-, hrequest⟩ :=
    s.queries.request_cases true text (some cfg.ttl) s.now
  · rw [requestShared, hrequest]
    exact .inl (.of_eq rfl rfl)
  · rw [requestShared, hrequest]
    refine .inl (notes_join s ?_ call f.id)
    rfl
  · exact .inr (begins_requestShared cfg store hbelow hcheck call text hrequest rfl)

theorem begins_requestOwn (hbelow : ∀ l ∈ s.loads, l.id < s.queries.started) {q : Query}
    (hcheck : q.check = .ok ()) (call : Nat) {signal : Option Text}
    (hreason : s.reason? signal = none) : Begins q s (requestOwn cfg store s call signal q) :=
  begins_startLoad cfg store hcheck hbelow _ rfl (.inr ⟨call, signal, rfl, hreason⟩)

theorem check_of_readQuery {text : Text} {q : Query} (h : readQuery text = .ok q) :
    q.check = .ok () := by
  simp only [readQuery, Except.bind_eq_ok_iff, pure, Except.pure, Except.ok.injEq] at h
  obtain ⟨parsed, -, u, hcheck, rfl⟩ := h
  cases hresult : parsed.check with
  | error e =>
    rw [hresult] at hcheck
    exact nomatch hcheck
  | ok u => rfl

/-- What happens to a call when it is made. The texts noted are the old ones or one more. -/
theorem call_spec (s : State) (text : Text) (signal : Option Text) :
    ∃ texts, let made : State := { s with
        calls := s.calls ++ [⟨text, signal, s.now, none, false, none⟩], expanding := texts }
      (∃ failure, readQuery text = .error failure ∧ call cfg store s text signal =
        finishWith cfg made s.calls.length (.error (.failed text failure))) ∨
      ∃ q, readQuery text = .ok q ∧
        ((∃ reason, s.reason? signal = some reason ∧ call cfg store s text signal =
          made.settleCall s.calls.length (.error (.aborted reason))) ∨
        (s.reason? signal = none ∧ call cfg store s text signal =
          if cfg.disabled then requestOwn cfg store made s.calls.length signal q
          else requestShared cfg store made s.calls.length text q)) := by
  let c : Call := ⟨text, signal, s.now, none, false, none⟩
  unfold call
  cases readQuery text with
  | error failure => exact ⟨s.expanding, .inl ⟨failure, rfl, rfl⟩⟩
  | ok q =>
    -- whether the query expands makes no difference but to the texts noted
    obtain ⟨texts, hnoted⟩ : ∃ texts, (if q.expansion.isSome then
        { { s with calls := s.calls ++ [c] } with expanding := addNew s.expanding text }
        else { s with calls := s.calls ++ [c] }) =
        { s with calls := s.calls ++ [c], expanding := texts } := by
      split
      · exact ⟨_, rfl⟩
      · exact ⟨s.expanding, rfl⟩
    have hsame : State.reason? { s with calls := s.calls ++ [c], expanding := texts } signal =
        s.reason? signal := rfl
    refine ⟨texts, .inr ⟨q, rfl, ?_⟩⟩
    dsimp only
    rw [hnoted, hsame]
    cases s.reason? signal with
    | some reason => exact .inl ⟨reason, rfl, rfl⟩
    | none => exact .inr ⟨rfl, rfl⟩

/-- A call asks nothing, or it starts one load, which begins with the statement of the query of the
text. -/
theorem call_notes (hbelow : ∀ l ∈ s.loads, l.id < s.queries.started) (text : Text)
    (signal : Option Text) :
    Notes s (call cfg store s text signal) [] ∨
      ∃ q, readQuery text = .ok q ∧ Begins q s (call cfg store s text signal) := by
  obtain ⟨texts, hcases⟩ := call_spec cfg store s text signal
  let made : State := { s with
    calls := s.calls ++ [⟨text, signal, s.now, none, false, none⟩], expanding := texts }
  have hmade : Notes s made [] := .of_eq rfl rfl
  obtain ⟨failure, -, hcall⟩ | ⟨q, hquery, ⟨reason, -, hcall⟩ | ⟨hreason, hcall⟩⟩ := hcases
  · rw [hcall]
    exact .inl (hmade.quiet (notes_finishWith cfg _ _ made))
  · rw [hcall]
    exact .inl (.of_eq rfl rfl)
  · rw [hcall]
    have hcheck := check_of_readQuery hquery
    split
    · exact .inr ⟨q, hquery,
        begins_requestOwn cfg store (s := made) hbelow hcheck s.calls.length hreason⟩
    · obtain hnotes | hbegins :=
        requestShared_notes cfg store (s := made) hbelow hcheck s.calls.length text
      · exact .inl ⟨hnotes.journal, hnotes.started⟩
      · exact .inr ⟨q, hquery, hbegins⟩

end Engine

end IssueQuery
