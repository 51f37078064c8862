import IssueQuery.Proofs.Engine.Aborts
import IssueQuery.Proofs.Engine.Draws

/-!
# What loads fetch, and what happens meanwhile

While the store is asked, time passes and signals abort. Entries fall out of the caches, callers are
turned away, and loads are called off that nobody waits for any more; but nothing comes up that was
not there before. So what the work of a load gives comes from the rows that the store gave for it,
whatever the store is and whoever leaves meanwhile.

* `Subsides`        nothing came up but entries of the journal;
* `subsides_abort`  an abort as the main case of that;
* `Provides`        work that gives what it should, drawn from the rows that it got;
* `provides_fetchBase`, `provides_loadGraph`, `provides_expand` the work of loads.
-/

namespace IssueQuery

/-! ## Caches in which nothing comes up -/

/-- Values may have been dropped, and loads detached or ended without one. -/
structure ReadThrough.Subsides {κ ν : Type} (c c' : ReadThrough κ ν) : Prop where
  holds : ∀ k v, c'.store.Holds k v → c.store.Holds k v
  flights : ∀ f ∈ c'.flights, f.attached = true →
    ∃ g ∈ c.flights, g.attached = true ∧ g.id = f.id ∧ g.key = f.key
  started : c'.started = c.started

namespace ReadThrough.Subsides

variable {κ ν : Type} {c c' c'' : ReadThrough κ ν}

theorem refl (c : ReadThrough κ ν) : c.Subsides c :=
  ⟨fun _ _ => id, fun f hf hattached => ⟨f, hf, hattached, rfl, rfl⟩, rfl⟩

theorem trans (h : c.Subsides c') (h' : c'.Subsides c'') : c.Subsides c'' where
  holds := fun k v hholds => h.holds k v (h'.holds k v hholds)
  flights := by
    intro f hf hattached
    obtain ⟨g, hg, hattached', hid, hkey⟩ := h'.flights f hf hattached
    obtain ⟨g', hg', hattached'', hid', hkey'⟩ := h.flights g hg hattached'
    exact ⟨g', hg', hattached'', hid'.trans hid, hkey'.trans hkey⟩
  started := h'.started.trans h.started

theorem leave (c : ReadThrough κ ν) (load : Nat) : c.Subsides (c.leave load).2 where
  holds := by
    intro k v hholds
    rw [leave_store] at hholds
    exact hholds
  flights := by
    intro f hf hattached
    obtain ⟨g, hg, hid, hkey, hattached', -⟩ := exists_of_mem_leave hf
    exact ⟨g, hg, hattached' hattached, hid, hkey⟩
  started := leave_started

theorem join (c : ReadThrough κ ν) (load : Nat) :
    c.Subsides (c.modify load fun f => { f with waiters := f.waiters + 1 }) where
  holds := fun _ _ => id
  flights := by
    intro f hf hattached
    obtain ⟨g, hg, hid, hkey, hattached', -⟩ := exists_of_mem_join hf
    exact ⟨g, hg, hattached'.trans hattached, hid, hkey⟩
  started := rfl

theorem invalidateAll (c : ReadThrough κ ν) : c.Subsides c.invalidateAll where
  holds := fun _ _ hholds => absurd hholds TtlCache.not_holds_flush
  flights := by
    intro f hf hattached
    rw [not_attached_invalidateAll hf] at hattached
    exact nomatch hattached
  started := rfl

variable [DecidableEq κ]

theorem invalidate (c : ReadThrough κ ν) (k : κ) : c.Subsides (c.invalidate k) where
  holds := fun _ _ hholds => (TtlCache.holds_delete hholds).2
  flights := fun f hf hattached =>
    ⟨f, (exists_of_mem_invalidate hf hattached).1, hattached, rfl, rfl⟩
  started := rfl

theorem stored (c : ReadThrough κ ν) (refresh : Bool) (k : κ) (ttl : Option Time) (now : Time) :
    c.Subsides (c.stored refresh k ttl now).2 where
  holds := fun _ _ => holds_stored
  flights := fun f hf hattached => ⟨f, hf, hattached, rfl, rfl⟩
  started := rfl

end ReadThrough.Subsides

namespace Engine

/-! ## Nothing comes up in an engine -/

/-- The call is as it was, but that it may have been turned away. -/
structure Call.Subsides (c c' : Call) : Prop where
  text : c'.text = c.text
  load : c'.load = c.load
  settled : ∀ result, c'.settled = some (.ok result) → c.settled = some (.ok result)

/-- The load is as it was, but that it may have been called off. -/
structure Load.Subsides (l l' : Load) : Prop where
  id : l'.id = l.id
  query : l'.query = l.query
  base : l'.base = l.base
  subscribers : l'.subscribers = l.subscribers
  ended : l'.ended = l.ended
  own : ∀ call signal, l'.control = .own call signal → l.control = .own call signal

/-- The journal has every statement that the store was given. -/
def State.Recorded (s : State) : Prop := s.journal.length = s.asked

/-- The second state has nothing that the first one does not have, but for further entries of the
journal and lines of the log. -/
structure Subsides (s s' : State) : Prop where
  journal : s.journal <+: s'.journal
  recorded : s.Recorded → s'.Recorded
  queries : s.queries.Subsides s'.queries
  graphs : s.graphs.Subsides s'.graphs
  expanding : s'.expanding = s.expanding
  loads : ∃ change : Load → Load, (∀ l : Load, l.Subsides (change l)) ∧
    s'.loads = s.loads.map change
  graphWaiters : ∀ w ∈ s'.graphWaiters, w ∈ s.graphWaiters
  callCount : s'.calls.length = s.calls.length
  calls : ∀ (i : Nat) (c' : Call), s'.calls[i]? = some c' →
    ∃ c, s.calls[i]? = some c ∧ c.Subsides c'
  agenda : s'.agenda = s.agenda

theorem Call.Subsides.refl (c : Call) : c.Subsides c := ⟨rfl, rfl, fun _ => id⟩

theorem Call.Subsides.trans {c c' c'' : Call} (h : c.Subsides c') (h' : c'.Subsides c'') :
    c.Subsides c'' where
  text := h'.text.trans h.text
  load := h'.load.trans h.load
  settled := fun result hsettled => h.settled result (h'.settled result hsettled)

theorem Load.Subsides.refl (l : Load) : l.Subsides l :=
  ⟨rfl, rfl, rfl, rfl, rfl, fun _ _ hown => hown⟩

theorem Load.Subsides.trans {l l' l'' : Load} (h : l.Subsides l') (h' : l'.Subsides l'') :
    l.Subsides l'' where
  id := h'.id.trans h.id
  query := h'.query.trans h.query
  base := h'.base.trans h.base
  subscribers := h'.subscribers.trans h.subscribers
  ended := h'.ended.trans h.ended
  own := fun call signal hown => h.own call signal (h'.own call signal hown)

variable {s s' s'' : State} {signal reason : Text} {load : Nat}

namespace Subsides

theorem refl (s : State) : Subsides s s where
  journal := List.prefix_refl s.journal
  recorded := id
  queries := .refl s.queries
  graphs := .refl s.graphs
  expanding := rfl
  loads := ⟨id, Load.Subsides.refl, (List.map_id s.loads).symm⟩
  graphWaiters := fun _ => id
  callCount := rfl
  calls := fun _ c hc => ⟨c, hc, Call.Subsides.refl c⟩
  agenda := rfl

theorem trans (h : Subsides s s') (h' : Subsides s' s'') : Subsides s s'' where
  journal := h.journal.trans h'.journal
  recorded := fun hrecorded => h'.recorded (h.recorded hrecorded)
  queries := h.queries.trans h'.queries
  graphs := h.graphs.trans h'.graphs
  expanding := h'.expanding.trans h.expanding
  loads := by
    obtain ⟨change, hchange, hloads⟩ := h.loads
    obtain ⟨change', hchange', hloads'⟩ := h'.loads
    refine ⟨change' ∘ change, fun l => (hchange l).trans (hchange' (change l)), ?_⟩
    rw [hloads', hloads, List.map_map]
  graphWaiters := fun w hw => h.graphWaiters w (h'.graphWaiters w hw)
  callCount := h'.callCount.trans h.callCount
  calls := by
    intro i c'' hc''
    obtain ⟨c', hc', hsubsides'⟩ := h'.calls i c'' hc''
    obtain ⟨c, hc, hsubsides⟩ := h.calls i c' hc'
    exact ⟨c, hc, hsubsides.trans hsubsides'⟩
  agenda := h'.agenda.trans h.agenda

/-- The statements that the store was given become more. -/
theorem asked (h : Subsides s s') (hrecorded : s.Recorded) : s.asked ≤ s'.asked := by
  have hlength := h.journal.length_le
  rwa [hrecorded, h.recorded hrecorded] at hlength

/-- No call goes away. -/
theorem call (h : Subsides s s') {i : Nat} {c : Call} (hc : s.calls[i]? = some c) :
    ∃ c', s'.calls[i]? = some c' ∧ c.Subsides c' := by
  obtain ⟨hlt, -⟩ := List.getElem?_eq_some_iff.mp hc
  have hc' := List.getElem?_eq_getElem (h.callCount.symm ▸ hlt)
  obtain ⟨c₀, hc₀, hsubsides⟩ := h.calls i _ hc'
  obtain rfl : c₀ = c := Option.some.inj (hc₀.symm.trans hc)
  exact ⟨_, hc', hsubsides⟩

/-- Work that keeps the frame, and asks nothing of the store. -/
theorem of_frame (h : Frame s s') (hjournal : s'.journal = s.journal) (hasked : s'.asked = s.asked)
    (hstarted : s'.graphs.started = s.graphs.started) : Subsides s s' where
  journal := hjournal ▸ List.prefix_refl _
  recorded := by
    unfold State.Recorded
    rw [hjournal, hasked]
    exact id
  queries := ⟨h.queriesHold, fun f hf hattached =>
    ⟨f, h.queryFlights ▸ hf, hattached, rfl, rfl⟩, h.queriesStarted⟩
  graphs := ⟨fun _ v => h.graphsHold v, fun f hf hattached =>
    ⟨f, h.graphFlights ▸ hf, hattached, rfl, rfl⟩, hstarted⟩
  expanding := h.expanding
  loads := ⟨id, Load.Subsides.refl, h.loads.trans (List.map_id s.loads).symm⟩
  graphWaiters := fun _ hw => h.graphWaiters ▸ hw
  callCount := congrArg List.length h.calls
  calls := fun _ c hc => ⟨c, h.calls ▸ hc, Call.Subsides.refl c⟩
  agenda := h.agenda

end Subsides

/-- A statement is counted and noted. -/
theorem subsides_record (s : State) (entry : StoreCall) :
    Subsides s ({ s with asked := s.asked + 1 }.record entry) :=
  { Subsides.refl s with
    journal := List.prefix_append s.journal [entry]
    recorded := fun hrecorded => by
      show (s.journal ++ [entry]).length = s.asked + 1
      rw [List.length_append, hrecorded]
      rfl }

/-! ## Calls are turned away -/

theorem subsides_modifyCall (s : State) (i : Nat) {change : Call → Call}
    (hchange : ∀ c : Call, c.Subsides (change c)) : Subsides s (s.modifyCall i change) :=
  { Subsides.refl s with
    callCount := List.length_modify change s.calls i
    calls := by
      intro j c' hc'
      obtain ⟨c, hc, ⟨-, rfl⟩ | ⟨-, rfl⟩⟩ := getElem?_modify_cases hc'
      · exact ⟨c, hc, hchange c⟩
      · exact ⟨c', hc, Call.Subsides.refl c'⟩ }

/-- A call that gets no result but a rejection. -/
theorem subsides_settleCall (s : State) (i : Nat) (rejection : Rejection) :
    Subsides s (s.settleCall i (.error rejection)) :=
  subsides_modifyCall s i fun _ => ⟨rfl, rfl, fun _ hsettled => nomatch hsettled⟩

theorem subsides_modifyLoad (s : State) (id : Nat) {change : Load → Load}
    (hchange : ∀ l : Load, l.Subsides (change l)) : Subsides s (s.modifyLoad id change) :=
  { Subsides.refl s with
    loads := by
      refine ⟨_, fun l => ?_, rfl⟩
      split
      · exact hchange l
      · exact Load.Subsides.refl l }

theorem subsides_callOff (s : State) (load : Nat) (signal reason : Text) :
    Subsides s (s.callOff load signal reason) := by
  have hoff : Subsides s (s.modifyLoad load fun l =>
      { l with control := .shared (some (signal, reason)), graphLoad := none }) :=
    subsides_modifyLoad s load fun _ => ⟨rfl, rfl, rfl, rfl, rfl, fun _ _ hown => nomatch hown⟩
  obtain ⟨graphs, waiters, hcallOff, hgraphs, hwaiters, -⟩ := callOff_eq s load signal reason
  rw [hcallOff]
  refine { hoff with graphs := ?_, graphWaiters := fun w hw => hwaiters.subset hw }
  obtain rfl | ⟨g, rfl⟩ := hgraphs
  · exact .refl s.graphs
  · exact .leave s.graphs g

theorem subsides_turnAway (s : State) (signal reason : Text) (call : Nat) :
    Subsides s (s.turnAway signal reason call) := by
  have hdeparted (load : Nat) : Subsides s (s.departed call load reason) := by
    have hleft : Subsides s { s with queries := (s.queries.leave load).2 } :=
      { Subsides.refl s with queries := .leave s.queries load }
    exact hleft.trans (subsides_settleCall _ call _)
  obtain hsame | ⟨-, load, -, -, hturned | hturned⟩ := turnAway_cases s signal reason call
  · rw [hsame]
    exact .refl s
  · rw [hturned]
    exact hdeparted load
  · rw [hturned]
    exact (hdeparted load).trans (subsides_callOff _ load signal reason)

theorem subsides_foldl {α : Type} {f : State → α → State} (hf : ∀ s a, Subsides s (f s a))
    (items : List α) (s : State) : Subsides s (items.foldl f s) := by
  induction items generalizing s with
  | nil => exact .refl s
  | cons a rest ih => exact (hf s a).trans (ih (f s a))

theorem subsides_abort (s : State) (signal reason : Text) : Subsides s (s.abort signal reason) :=
  abort_keeps (P := fun s' => Subsides s s') (.refl s) (fun _ => { Subsides.refl s with })
    fun s' i _ h => h.trans (subsides_turnAway s' signal reason i)

/-! ## Work that gives what it should -/

variable {ε ε' α β : Type} {store : Store} {work : Work ε α} {Gets Gets' : Draws → α → Prop}

/-- Nothing comes up while the work is done, and what it gives comes from any draws that have the
rows that the store gave meanwhile. -/
def Provides (store : Store) (work : Work ε α) (Gets : Draws → α → Prop) : Prop :=
  ∀ s, s.Recorded → Subsides s (work s).2 ∧
    ∀ a, (work s).1 = .ok a →
      ∀ draws : Draws, ((work s).2.drawn store s.asked).Within draws → Gets draws a

theorem Provides.imp (h : Provides store work Gets)
    (himp : ∀ draws a, Gets draws a → Gets' draws a) : Provides store work Gets' := by
  intro s hrecorded
  obtain ⟨hsubsides, hgets⟩ := h s hrecorded
  exact ⟨hsubsides, fun a ha draws hmore => himp draws a (hgets a ha draws hmore)⟩

theorem provides_pure (a : α) : Provides store (pure a : Work ε α) fun _ b => b = a := fun s _ =>
  ⟨.refl s, fun _ hb _ _ => (Except.ok.inj hb).symm⟩

theorem ok_of_mapError {result : Except ε α} {change : ε → ε'} {a : α}
    (h : result.mapError change = .ok a) : result = .ok a := by
  cases result with
  | error e => exact nomatch h
  | ok b => exact congrArg Except.ok (Except.ok.inj h)

theorem provides_result (result : Except ε α) :
    Provides store (ExceptT.mk (pure result)) fun _ a => result = .ok a := fun s _ =>
  ⟨.refl s, fun _ ha _ _ => ha⟩

theorem Provides.bind (h : Provides store work Gets) {next : α → Work ε β}
    {GetsNext : α → Draws → β → Prop} (hnext : ∀ a, Provides store (next a) (GetsNext a)) :
    Provides store (work >>= next) fun draws b => ∃ a, Gets draws a ∧ GetsNext a draws b := by
  intro s hrecorded
  obtain ⟨hsubsides, hgets⟩ := h s hrecorded
  rw [bind_run]
  cases hwork : work s with
  | mk r s' =>
    rw [hwork] at hsubsides hgets
    cases r with
    | error e => exact ⟨hsubsides, fun _ hb => nomatch hb⟩
    | ok a =>
      obtain ⟨hsubsides', hgets'⟩ := hnext a s' (hsubsides.recorded hrecorded)
      refine ⟨hsubsides.trans hsubsides', fun b hb draws hmore => ⟨a, ?_, ?_⟩⟩
      · -- the rows that the first part got are still in the journal
        exact hgets a rfl draws ((drawn_within hsubsides'.journal (Nat.le_refl _)).trans hmore)
      · have hlater := hsubsides.asked hrecorded
        exact hgets' b hb draws ((drawn_within (List.prefix_refl _) hlater).trans hmore)

theorem Provides.adapt (h : Provides store work Gets) (f : ε → ε') :
    Provides store (work.adapt f) Gets := by
  intro s hrecorded
  obtain ⟨hsubsides, hgets⟩ := h s hrecorded
  have hadapt : (work.adapt f) s = ((work s).1.mapError f, (work s).2) := rfl
  rw [hadapt]
  refine ⟨hsubsides, fun a ha => hgets a ?_⟩
  cases hwork : (work s).1 with
  | error e =>
    rw [hwork] at ha
    exact nomatch ha
  | ok a' =>
    rw [hwork] at ha
    exact congrArg Except.ok (Except.ok.inj ha)

/-- To stop if the load was called off gives nothing that was not there. -/
theorem Provides.unlessCalledOff {work : Work LoadFailure α} (h : Provides store work Gets) :
    Provides store (do Engine.unlessCalledOff load; work) Gets := by
  have hstop : Provides store (Engine.unlessCalledOff load) fun _ _ => True := by
    intro s _
    unfold Engine.unlessCalledOff
    split <;> exact ⟨.refl s, fun _ _ _ _ => trivial⟩
  exact (hstop.bind fun _ => h).imp fun _ _ ⟨_, _, hgets⟩ => hgets

/-- Neither does a line in the log. -/
theorem Provides.log (h : Provides store work Gets) (cfg : Settings) (severity : Severity)
    (message : Text) (members : List (Text × Json)) :
    Provides store (do modify fun s => s.log cfg severity message members; work) Gets := by
  have hline : Provides store
      (modify fun s => s.log cfg severity message members : Work ε PUnit) fun _ _ => True :=
    fun s _ => ⟨.of_frame (frame_notes s _ _ _) rfl rfl rfl, fun _ _ _ _ => trivial⟩
  exact (hline.bind fun _ => h).imp fun _ _ ⟨_, _, hgets⟩ => hgets

/-! ## The work of loads -/

/-- Signals may abort while the store is asked; the rows are in the journal all the same. -/
theorem provides_ask (statement : Statement) :
    Provides store (ask store statement) fun draws rows => draws statement rows := by
  intro s hrecorded
  unfold ask
  cases hreply : store s.asked statement with
  | refused message => exact ⟨subsides_record s _, fun _ hrows => nomatch hrows⟩
  | ran elapsed aborts answer =>
    let noted := { s with asked := s.asked + 1 }.record
      (.statement statement.sql (some statement.params))
    have hlater : Subsides noted (aborts.foldl (fun s a => s.abort a.1 a.2)
        (noted.advance elapsed)) := by
      have htime : Subsides noted (noted.advance elapsed) :=
        .of_frame (frame_advance noted elapsed) rfl rfl rfl
      exact htime.trans (subsides_foldl (fun s a => subsides_abort s a.1 a.2) aborts _)
    refine ⟨(subsides_record s _).trans hlater, fun rows hrows draws hmore => hmore _ _ ?_⟩
    cases answer with
    | error fault => exact nomatch hrows
    | ok rows' =>
      obtain rfl : rows' = rows := Except.ok.inj hrows
      -- the entry of the statement is the last one of the journal as it was then
      obtain ⟨more, hjournal⟩ := hlater.journal
      refine ⟨s.asked, Nat.le_refl _, ?_, elapsed, aborts, hreply⟩
      dsimp only
      rw [← hjournal]
      show ((s.journal ++ [_]) ++ more)[s.asked]? = _
      rw [← hrecorded, List.append_assoc, List.getElem?_append_right (Nat.le_refl _),
        Nat.sub_self]
      rfl

theorem provides_query (statement : Statement) (read : Option Json → RowReading α) :
    Provides store (query store statement read) fun draws items =>
      draws.Reads statement read items :=
  (provides_ask statement).bind fun rows => provides_result (readRows read rows)

theorem provides_fetch (statement : Statement) :
    Provides store (fetch store load statement) fun draws issues =>
      draws.Fetches statement issues := by
  apply ((provides_query statement Issue.ofRow).adapt (LoadFailure.ofStep .base)).bind
  intro found
  dsimp only
  split
  · rename_i hempty
    exact (provides_pure []).imp fun _ _ hissues => .inl ⟨List.isEmpty_iff.mp hempty, hissues⟩
  · rename_i hsome
    refine Provides.imp ?_ fun _ _ hparts => .inr ⟨fun hnil => hsome (hnil ▸ rfl), hparts⟩
    apply Provides.unlessCalledOff
    apply ((provides_query _ Dependency.ofRow).adapt (LoadFailure.ofStep .dependencies)).bind
    intro dependencies
    apply ((provides_query _ Labelling.ofRow).adapt (LoadFailure.ofStep .labels)).bind
    intro labels
    apply ((provides_query _ CommentCount.ofRow).adapt (LoadFailure.ofStep .commentCounts)).bind
    intro counts
    exact provides_pure _

theorem provides_loadGraph :
    Provides store (staged .graph (loadGraph store)) fun draws graph => draws.GivesGraph graph := by
  apply Provides.adapt
  apply (provides_query .allDependencies Dependency.ofRow).bind
  intro dependencies
  exact provides_pure _

theorem provides_fetchBase (q : Query) :
    Provides store (fetchBase store load q) fun draws issues => draws.Selects q issues := by
  apply Provides.imp ((provides_result (q.select.mapError LoadFailure.selection)).bind
    fun selection => (provides_fetch (.selected selection)).unlessCalledOff)
  rintro draws issues ⟨selection, hselection, hissues⟩
  exact ⟨selection, ok_of_mapError hselection, hissues⟩

theorem provides_expand (cfg : Settings) (base : List Issue) (e : Expansion) (graph : Graph) :
    Provides store (expand cfg store load base e graph) fun draws outcome =>
      draws.Expands base e graph outcome := by
  apply expand_of_fetchReach
    (P := fun work => Provides store work fun draws outcome => draws.Expands base e graph outcome)
  · exact Provides.unlessCalledOff
  · exact fun hwork => hwork.log cfg .warn
  · unfold fetchReach
    dsimp only
    split
    · rename_i hempty
      exact (provides_pure _).imp fun _ _ hsame => .inl ⟨List.isEmpty_iff.mp hempty, hsame⟩
    · rename_i hsome
      refine Provides.imp ?_ fun _ _ hparts => .inr ⟨fun hnil => hsome (hnil ▸ rfl), hparts⟩
      apply (provides_fetch _).bind
      intro extra
      exact provides_pure _

end Engine

end IssueQuery
