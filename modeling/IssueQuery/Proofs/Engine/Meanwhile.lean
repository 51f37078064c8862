import IssueQuery.Proofs.Engine.Answers

/-!
# While the store is asked

While the store is asked, notes are made, time passes and signals abort, in whatever order; nothing
else happens to an engine. If the store does not fail, the work of a load succeeds, unless the load
is called off on the way.

* `Meanwhile`   one state comes from another while the store is asked;
* `abort_keeps`, `turnAway_cases` what an abort does, call by call;
* `Unfailing`   every statement is answered with rows that can be read;
* `Proceeds`    work that only asks, and succeeds unless its load is called off;
* `proceeds_fetchBase`, `proceeds_loadGraph`, `proceeds_expand` the work of loads.
-/

namespace IssueQuery.Engine

/-! ## What may happen -/

/-- The second state comes from the first one while the store is asked. -/
inductive Meanwhile : State → State → Prop
  | refl (s : State) : Meanwhile s s
  | notes {s s' : State} (h : Meanwhile s s') (journal : List StoreCall) (asked : Nat)
    (lines : List LogLine) :
    Meanwhile s { s' with journal := journal, asked := asked, lines := lines }
  | advance {s s' : State} (h : Meanwhile s s') (span : Time) : Meanwhile s (s'.advance span)
  | abort {s s' : State} (h : Meanwhile s s') (signal reason : Text) :
    Meanwhile s (s'.abort signal reason)

variable {s s' s'' : State} {load : Nat} {signal reason : Text}

theorem Meanwhile.trans (h : Meanwhile s s') (h' : Meanwhile s' s'') : Meanwhile s s'' := by
  induction h' with
  | refl => exact h
  | notes _ journal asked lines ih => exact ih.notes journal asked lines
  | advance _ span ih => exact ih.advance span
  | abort _ signal reason ih => exact ih.abort signal reason

/-! ## Aborts -/

/-- The call carries the signal and can still be turned away. -/
def State.Carries (s : State) (signal : Text) (i : Nat) : Prop :=
  ∃ c, s.calls[i]? = some c ∧ c.listening = true ∧ c.signal = some signal

/-- The calls that an abort turns away. -/
def State.leaving (s : State) (signal : Text) : List Nat :=
  (List.range s.calls.length).filter fun i =>
    ((s.calls[i]?).map fun c => c.listening && c.signal == some signal).getD false

theorem mem_leaving {i : Nat} : i ∈ s.leaving signal ↔ s.Carries signal i := by
  unfold State.leaving State.Carries
  rw [List.mem_filter, List.mem_range]
  constructor
  · rintro ⟨-, hlistens⟩
    cases hc : s.calls[i]? with
    | none =>
      rw [hc] at hlistens
      exact nomatch hlistens
    | some c => exact ⟨c, rfl, by simpa [hc] using hlistens⟩
  · rintro ⟨c, hc, hlistens⟩
    obtain ⟨hi, -⟩ := List.getElem?_eq_some_iff.mp hc
    exact ⟨hi, by simpa [hc] using hlistens⟩

/-- The first abort of a signal turns those away who carry it, one after the other. -/
theorem abort_eq (hquiet : s.reason? (some signal) = none) : s.abort signal reason =
    (s.leaving signal).foldl (fun s i => s.turnAway signal reason i)
      { s with signals := s.signals ++ [(signal, reason)] } := by
  unfold State.abort
  rw [hquiet]
  rfl

/-- A further abort of a signal does nothing. -/
theorem abort_again (hsignal : s.reason? (some signal) ≠ none) : s.abort signal reason = s := by
  unfold State.abort
  exact if_pos (Option.isSome_iff_ne_none.mpr hsignal)

/-- What the noting of a signal and every single departure keep, an abort keeps. -/
theorem abort_keeps {P : State → Prop} (h : P s)
    (hsignal : s.reason? (some signal) = none →
      P { s with signals := s.signals ++ [(signal, reason)] })
    (hturn : ∀ s' i, s.Carries signal i → P s' → P (s'.turnAway signal reason i)) :
    P (s.abort signal reason) := by
  by_cases hquiet : s.reason? (some signal) = none
  · rw [abort_eq hquiet]
    -- one call after the other is turned away
    have hfold : ∀ (leaving : List Nat) (s' : State), (∀ i ∈ leaving, s.Carries signal i) → P s' →
        P (leaving.foldl (fun s i => s.turnAway signal reason i) s') := by
      intro leaving
      induction leaving with
      | nil => exact fun _ _ h => h
      | cons i rest ih =>
        intro s' hcarries h'
        apply ih _ fun j hj => hcarries j (List.mem_cons_of_mem i hj)
        exact hturn s' i (hcarries i List.mem_cons_self) h'
    exact hfold _ _ (fun i => mem_leaving.mp) (hsignal hquiet)
  · rw [abort_again hquiet]
    exact h

/-! ## Calls that are turned away -/

/-- A load that is called off changes, and leaves the graph if it waits for it. -/
theorem callOff_eq (s : State) (load : Nat) (signal reason : Text) :
    ∃ graphs waiters,
      s.callOff load signal reason =
        { s.modifyLoad load fun l =>
            { l with control := .shared (some (signal, reason)), graphLoad := none } with
          graphs := graphs
          graphWaiters := waiters } ∧
      (graphs = s.graphs ∨ ∃ g, graphs = (s.graphs.leave g).2) ∧
      waiters.Sublist s.graphWaiters ∧ ∀ w ∈ s.graphWaiters, w.2 ≠ load → w ∈ waiters := by
  unfold State.callOff
  dsimp only
  cases (s.load? load).bind Load.graphLoad with
  | none => exact ⟨s.graphs, s.graphWaiters, rfl, .inl rfl, .refl _, fun w hw _ => hw⟩
  | some g =>
    refine ⟨_, _, rfl, .inr ⟨g, rfl⟩, List.filter_sublist, fun w hw hother => ?_⟩
    refine List.mem_filter.mpr ⟨hw, ?_⟩
    rw [bne_iff_ne]
    rintro rfl
    exact hother rfl

theorem callOff_same (s : State) (load : Nat) (signal reason : Text) :
    (s.callOff load signal reason).calls = s.calls ∧
    (s.callOff load signal reason).signals = s.signals ∧
    (s.callOff load signal reason).queries = s.queries ∧
    (s.callOff load signal reason).agenda = s.agenda ∧
    (s.callOff load signal reason).lines = s.lines := by
  obtain ⟨graphs, waiters, hcallOff, -⟩ := callOff_eq s load signal reason
  rw [hcallOff]
  exact ⟨rfl, rfl, rfl, rfl, rfl⟩

/-- It makes no difference whether a load is called off before a call gets its result or
after it. -/
theorem settleCall_callOff (s : State) (load i : Nat) (result : Except Rejection Result) :
    (s.callOff load signal reason).settleCall i result =
      (s.settleCall i result).callOff load signal reason := by
  have hsame : ((s.settleCall i result).load? load).bind Load.graphLoad =
      (s.load? load).bind Load.graphLoad := rfl
  unfold State.callOff
  dsimp only
  rw [hsame]
  cases (s.load? load).bind Load.graphLoad <;> rfl

/-- The engine when a call has left its load and been turned away, and the load goes on. -/
def State.departed (s : State) (i load : Nat) (reason : Text) : State :=
  State.settleCall { s with queries := (s.queries.leave load).2 } i (.error (.aborted reason))

/-- The last caller of a load calls it off when it is turned away. -/
theorem turnAway_of_load {c : Call} {i : Nat} (signal reason : Text)
    (hc : s.calls[i]? = some c) (hload : c.load = some load) :
    s.turnAway signal reason i =
      if (s.queries.leave load).1 then (s.departed i load reason).callOff load signal reason
      else s.departed i load reason := by
  unfold State.turnAway State.departed
  rw [hc, Option.bind_some, hload, ← settleCall_callOff]
  dsimp only
  split <;> rfl

/-- A call that is turned away leaves its load, if it has one. -/
theorem turnAway_cases (s : State) (signal reason : Text) (i : Nat) :
    s.turnAway signal reason i = s ∨ ∃ c load, s.calls[i]? = some c ∧ c.load = some load ∧
      (s.turnAway signal reason i = s.departed i load reason ∨
        s.turnAway signal reason i =
          (s.departed i load reason).callOff load signal reason) := by
  cases hfree : (s.calls[i]?).bind Call.load with
  | none =>
    unfold State.turnAway
    rw [hfree]
    exact .inl rfl
  | some load =>
    obtain ⟨c, hc, hload⟩ := Option.bind_eq_some_iff.mp hfree
    refine .inr ⟨c, load, hc, hload, ?_⟩
    rw [turnAway_of_load signal reason hc hload]
    split
    · exact .inr rfl
    · exact .inl rfl

theorem turnAway_same (s : State) (signal reason : Text) (i : Nat) :
    (s.turnAway signal reason i).signals = s.signals ∧
    (s.turnAway signal reason i).agenda = s.agenda ∧
    (s.turnAway signal reason i).lines = s.lines := by
  obtain hsame | ⟨c, load, -, -, hturned | hturned⟩ := turnAway_cases s signal reason i
  · rw [hsame]
    exact ⟨rfl, rfl, rfl⟩
  · rw [hturned]
    exact ⟨rfl, rfl, rfl⟩
  · obtain ⟨-, hsignals, -, hagenda, hlines⟩ :=
      callOff_same (s.departed i load reason) load signal reason
    rw [hturned]
    exact ⟨hsignals, hagenda, hlines⟩

/-- What it means for the calls and for the loads of results that a call is turned away. -/
theorem turnAway_left {c : Call} {i : Nat} (signal reason : Text)
    (hc : s.calls[i]? = some c) (hload : c.load = some load) :
    (s.turnAway signal reason i).queries = (s.queries.leave load).2 ∧
    (s.turnAway signal reason i).calls = s.calls.modify i fun c =>
      { c with settled := some (.error (.aborted reason)), listening := false } := by
  obtain ⟨hcalls, -, hqueries, -, -⟩ :=
    callOff_same (s.departed i load reason) load signal reason
  rw [turnAway_of_load signal reason hc hload]
  split
  · exact ⟨hqueries, hcalls⟩
  · exact ⟨rfl, rfl⟩

theorem turnAway_leaves (s : State) (signal reason : Text) (i : Nat) :
    s.turnAway signal reason i = s ∨ ∃ c load, s.calls[i]? = some c ∧ c.load = some load ∧
      (s.turnAway signal reason i).queries = (s.queries.leave load).2 ∧
      (s.turnAway signal reason i).calls = s.calls.modify i fun c =>
        { c with settled := some (.error (.aborted reason)), listening := false } := by
  obtain hsame | ⟨c, load, hc, hload, -⟩ := turnAway_cases s signal reason i
  · exact .inl hsame
  · obtain ⟨hqueries, hcalls⟩ := turnAway_left signal reason hc hload
    exact .inr ⟨c, load, hc, hload, hqueries, hcalls⟩

/-! ## Reasons of signals -/

theorem reason?_congr (h : s'.signals = s.signals) (name : Option Text) :
    s'.reason? name = s.reason? name := by
  rw [State.reason?, h, State.reason?]

/-- A call that is turned away aborts no further signal. -/
theorem reason?_turnAway (s : State) (signal reason : Text) (call : Nat) (name : Option Text) :
    (s.turnAway signal reason call).reason? name = s.reason? name :=
  reason?_congr (turnAway_same s signal reason call).1 name

/-- A signal that has aborted keeps its reason when another one aborts. -/
theorem reason?_append {name : Option Text} (h : s.reason? name = some reason)
    (more : List (Text × Text)) :
    State.reason? { s with signals := s.signals ++ more } name = some reason := by
  cases name with
  | none => exact nomatch h
  | some name =>
    have hlookup : s.signals.lookup name = some reason := h
    simp [State.reason?, List.lookup_append, hlookup]

namespace Meanwhile

theorem agenda (h : Meanwhile s s') : s'.agenda = s.agenda := by
  induction h with
  | refl => rfl
  | notes _ _ _ _ ih => exact ih
  | advance _ _ ih => exact ih
  | abort _ signal reason ih =>
    exact abort_keeps (P := fun s' => s'.agenda = _) ih (fun _ => ih)
      fun s i _ hsame => (turnAway_same s signal reason i).2.1.trans hsame

end Meanwhile

/-! ## Stores that do not fail -/

/-- The reply has rows, and all of them can be read. -/
def Reply.Fits {α : Type} (read : Option Json → RowReading α) (reply : Reply) : Prop :=
  ∃ elapsed aborts rows items, reply = .ran elapsed aborts (.ok rows) ∧
    readRows read rows = .ok items

/-- The store answers every statement with rows that can be read. How long that takes and what
aborts meanwhile is left open, and so is whether it answers twice in the same way. -/
structure Unfailing (store : Store) : Prop where
  selected : ∀ n selection, Reply.Fits Issue.ofRow (store n (.selected selection))
  withIds : ∀ n ids, Reply.Fits Issue.ofRow (store n (.withIds ids))
  dependencies : ∀ n ids, Reply.Fits Dependency.ofRow (store n (.dependencies ids))
  labels : ∀ n ids, Reply.Fits Labelling.ofRow (store n (.labels ids))
  commentCounts : ∀ n ids, Reply.Fits CommentCount.ofRow (store n (.commentCounts ids))
  allDependencies : ∀ n, Reply.Fits Dependency.ofRow (store n .allDependencies)

/-! ## Work that proceeds -/

variable {ε ε' α β : Type} {store : Store} {work : Work ε α} {statement : Statement}
  {read : Option Json → RowReading α}

/-- Nothing but what may happen while the store is asked happens during the work, and over a store
that does not fail it succeeds, unless the load is called off by the end of it. -/
def Proceeds (store : Store) (load : Nat) (work : Work ε α) : Prop :=
  ∀ s, Meanwhile s (work s).2 ∧
    (Unfailing store → (work s).2.calledOff? load = none → (work s).1.isOk)

theorem proceeds_pure (a : α) : Proceeds store load (pure a : Work ε α) := fun s =>
  ⟨.refl s, fun _ _ => rfl⟩

theorem proceeds_ok (a : α) : Proceeds store load (ExceptT.mk (pure (.ok a)) : Work ε α) := fun s =>
  ⟨.refl s, fun _ _ => rfl⟩

theorem Proceeds.bind (h : Proceeds store load work) {next : α → Work ε β}
    (hnext : ∀ a, Proceeds store load (next a)) : Proceeds store load (work >>= next) := by
  intro s
  obtain ⟨hmeanwhile, hok⟩ := h s
  rw [bind_run]
  cases hwork : work s with
  | mk r s' =>
    rw [hwork] at hmeanwhile hok
    cases r with
    | error e => exact ⟨hmeanwhile, hok⟩
    | ok a =>
      obtain ⟨hmeanwhile', hok'⟩ := hnext a s'
      exact ⟨hmeanwhile.trans hmeanwhile', hok'⟩

theorem Proceeds.adapt (h : Proceeds store load work) (f : ε → ε') :
    Proceeds store load (work.adapt f) := by
  intro s
  obtain ⟨hmeanwhile, hok⟩ := h s
  have hadapt : (work.adapt f) s = ((work s).1.mapError f, (work s).2) := rfl
  have hsame : ((work s).1.mapError f).isOk = (work s).1.isOk := by
    cases (work s).1 <;> rfl
  rw [hadapt, hsame]
  exact ⟨hmeanwhile, hok⟩

/-- To stop if the load was called off is to go on if it was not. -/
theorem Proceeds.unlessCalledOff {work : Work LoadFailure α} (h : Proceeds store load work) :
    Proceeds store load (do Engine.unlessCalledOff load; work) := by
  have hstop : Proceeds store load (Engine.unlessCalledOff load) := by
    intro s
    unfold Engine.unlessCalledOff
    split
    · rename_i hoff
      exact ⟨.refl s, fun _ hon => by simp [hoff] at hon⟩
    · exact ⟨.refl s, fun _ _ => rfl⟩
  exact hstop.bind fun _ => h

/-- A line in the log is a note. -/
theorem Proceeds.log (h : Proceeds store load work) (cfg : Settings) (severity : Severity)
    (message : Text) (members : List (Text × Json)) :
    Proceeds store load (do modify fun s => s.log cfg severity message members; work) := by
  have hline : Proceeds store load
      (modify fun s => s.log cfg severity message members : Work ε PUnit) := fun s =>
    ⟨(Meanwhile.refl s).notes s.journal s.asked _, fun _ _ => rfl⟩
  exact hline.bind fun _ => h

/-! ## The work of loads -/

theorem meanwhile_ask (store : Store) (statement : Statement) (s : State) :
    Meanwhile s (ask store statement s).2 := by
  unfold ask
  cases store s.asked statement with
  | refused message => exact (Meanwhile.refl s).notes _ _ s.lines
  | ran elapsed aborts rows =>
    have hnoted : Meanwhile s ({ s with asked := s.asked + 1 }.record
        (.statement statement.sql (some statement.params))) :=
      (Meanwhile.refl s).notes _ _ s.lines
    -- the signals abort one after the other, once the time has passed
    have haborts : ∀ (aborts : List (Text × Text)) (s' : State), Meanwhile s s' →
        Meanwhile s (aborts.foldl (fun s a => s.abort a.1 a.2) s') := by
      intro aborts
      induction aborts with
      | nil => exact fun _ h => h
      | cons a rest ih => exact fun s' h => ih _ (h.abort a.1 a.2)
    exact haborts aborts _ (hnoted.advance elapsed)

theorem proceeds_query (hfits : Unfailing store → ∀ n, Reply.Fits read (store n statement)) :
    Proceeds store load (query store statement read) := by
  intro s
  have hmeanwhile := meanwhile_ask store statement s
  unfold query
  rw [bind_run]
  cases hask : ask store statement s with
  | mk r s' =>
    rw [hask] at hmeanwhile
    refine ⟨by cases r <;> exact hmeanwhile, fun hunfailing _ => ?_⟩
    -- the rows that the store gave can be read
    obtain ⟨elapsed, aborts, rows, items, hreply, hread⟩ := hfits hunfailing s.asked
    rw [ask, hreply] at hask
    obtain ⟨rfl, -⟩ := Prod.mk.inj hask
    show (readRows read rows).isOk
    rw [hread]
    rfl

theorem proceeds_staged (stage : Stage)
    (hfits : Unfailing store → ∀ n, Reply.Fits read (store n statement)) :
    Proceeds store load (Engine.staged stage (query store statement read)) :=
  (proceeds_query hfits).adapt _

theorem proceeds_fetch
    (hfits : Unfailing store → ∀ n, Reply.Fits Issue.ofRow (store n statement)) :
    Proceeds store load (fetch store load statement) := by
  apply (proceeds_staged .base hfits).bind
  intro issues
  dsimp only
  split
  · exact proceeds_pure []
  · apply Proceeds.unlessCalledOff
    apply (proceeds_staged .dependencies fun h n => h.dependencies n _).bind
    intro dependencies
    apply (proceeds_staged .labels fun h n => h.labels n _).bind
    intro labels
    apply (proceeds_staged .commentCounts fun h n => h.commentCounts n _).bind
    intro counts
    exact proceeds_pure _

theorem proceeds_loadGraph : Proceeds store load (staged .graph (loadGraph store)) := by
  apply Proceeds.adapt
  apply (proceeds_query fun h => h.allDependencies).bind
  intro dependencies
  exact proceeds_pure _

theorem proceeds_fetchBase {q : Query} {selection : Selection} (hselect : q.select = .ok selection) :
    Proceeds store load (fetchBase store load q) := by
  unfold fetchBase
  rw [hselect]
  apply (proceeds_ok selection).bind
  intro selection
  exact (proceeds_fetch fun h n => h.selected n selection).unlessCalledOff

theorem proceeds_expand (cfg : Settings) (base : List Issue) (e : Expansion) (graph : Graph) :
    Proceeds store load (expand cfg store load base e graph) := by
  apply expand_of_fetchReach
  · exact Proceeds.unlessCalledOff
  · exact fun hwork => hwork.log cfg .warn
  · unfold fetchReach
    dsimp only
    split
    · exact proceeds_pure _
    · apply (proceeds_fetch fun h n => h.withIds n _).bind
      intro extra
      exact proceeds_pure _

end IssueQuery.Engine
