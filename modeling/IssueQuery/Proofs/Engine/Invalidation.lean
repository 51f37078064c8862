import IssueQuery.Proofs.Engine.Calls
import IssueQuery.Proofs.Engine.Tracing

/-!
# What an invalidation promises

Behind an invalidation nothing is left that a later call could get, and every event keeps it that
way: loads from before go on and tell their callers, but whatever a later call is told comes from
rows that the store gave since. An invalidation of the graph promises the same of queries that
expand, and leaves the others alone; it relies on the texts that were noted.

* `Traced.call`, `Traced.run` every event keeps an engine traced;
* `invalidate_barrier` what calls behind an invalidation get;
* `invalidateGraph_exact` what an invalidation of the graph drops, and what it does not.
-/

namespace IssueQuery.Engine

variable {store : Store} {cfg : Settings} {m : Mark} {s s' : State} {l : Load} {c : Call}
  {i : Nat} {text : Text} {q : Query} {signal : Option Text} {Chosen : Query → Prop}

/-! ## Calls -/

theorem mem_addNew {texts : List Text} {text' : Text} :
    text' ∈ addNew texts text ↔ text' ∈ texts ∨ text' = text := by
  unfold addNew
  split
  · rename_i hthere
    exact ⟨.inl, fun hcases => hcases.elim id fun hsame => hsame ▸ by simpa using hthere⟩
  · rw [List.mem_append, List.mem_singleton]

namespace Traced

/-- A call joins a load that suits it. -/
theorem join (h : Traced store m s) (hc : s.calls[i]? = some c) (hl : l ∈ s.loads)
    (hsuits : l.Suits m i c.text) : Traced store m (join s i l.id) := by
  have hwaits : ∀ listening, Traced store m (s.modifyCall i fun c =>
      { c with load := some l.id, listening := listening }) := by
    intro listening
    refine h.modifyCall fun c' hc' => ⟨rfl, ?_, (h.calls i c' hc').settled⟩
    intro id hid
    obtain rfl : c = c' := Option.some.inj (hc.symm.trans hc')
    exact ⟨l, hl, Option.some.inj hid, hsuits⟩
  obtain hjoin | hjoin := join_cases s i l.id <;> rw [hjoin]
  · -- the call has become another one, and still has its text
    have hretains : ∀ listening, Retains s (s.modifyCall i fun c =>
        { c with load := some l.id, listening := listening }) :=
      fun _ => .modifyCall fun _ _ => rfl
    obtain ⟨c', hc', htext⟩ := (hretains _).calls i c hc
    apply (hwaits _).addSubscriber hc'
    intro l' hl' hid
    obtain rfl := h.eq_of_id hl hl' hid
    rw [htext]
    exact hsuits
  · exact (hwaits _).schedule 0 (.subscribe i) trivial

/-- No load has the number of the next one. -/
theorem fresh_started (h : Traced store m s) : ∀ l ∈ s.loads, l.id ≠ s.queries.started :=
  fun l hl => Nat.ne_of_lt (h.below l hl)

/-- A load starts that nobody may join, and that knows nothing yet. -/
theorem addUnshared (h : Traced store m s) (control : Control)
    (hown : ∀ k signal, control = .own k signal → ∃ c, s.calls[k]? = some c ∧
      readQuery c.text = .ok q) :
    Traced store m { s with
      queries := s.queries.startUnshared.2
      loads := s.loads ++ [⟨s.queries.started, q, control, [], none, [], none⟩] } := by
  have hnumbered : Traced store m { s with queries := s.queries.startUnshared.2 } :=
    { h with
      passed := { h.passed with loads := Nat.le_succ_of_le h.passed.loads }
      indexed := h.indexed.mono fun _ hhas => hhas
      below := fun l hl => Nat.lt_succ_of_lt (h.below l hl) }
  refine hnumbered.addLoad h.fresh_started (Nat.lt_succ_self _) ?_
  refine ⟨fun _ hsome => absurd rfl hsome, fun _ hended => (nomatch hended),
    fun _ hi => (nomatch hi), ?_⟩
  intro k signal hk
  obtain ⟨c, hc, hquery⟩ := hown k signal hk
  exact ⟨c, hc, hquery, fun _ _ => h.passed.loads⟩

/-- A load starts that callers of the text may join. If its query expands, the text is noted. -/
theorem addShared (h : Traced store m s) (hquery : readQuery text = .ok q)
    (hnoted : Expanding text → text ∈ s.expanding) (ttl : Option Time) :
    Traced store m { s with
      queries := { s.queries with
        flights := s.queries.flights ++ [⟨s.queries.started, text, ttl, 1, 0, true⟩]
        started := s.queries.started + 1 }
      loads := s.loads ++ [⟨s.queries.started, q, .shared none, [], none, [], none⟩] } := by
  have hadded := h.addUnshared (q := q) (.shared none) fun _ _ hown => nomatch hown
  exact
    { hadded with
      indexed :=
        { sound := h.indexed.sound
          complete := by
            -- a text that comes up by the new load was noted before the load was started
            rintro text' hexpands (hholds | ⟨f, hf, hattached, hkey⟩)
            · exact h.indexed.complete text' hexpands (.inl hholds)
            · obtain hold | hnew := List.mem_append.mp hf
              · exact h.indexed.complete text' hexpands (.inr ⟨f, hold, hattached, hkey⟩)
              · obtain rfl := List.mem_singleton.mp hnew
                obtain rfl : text = text' := hkey
                exact hnoted hexpands }
      joinable := by
        intro f hf hattached
        obtain hold | hnew := List.mem_append.mp hf
        · exact hadded.joinable f hold hattached
        · obtain rfl := List.mem_singleton.mp hnew
          exact ⟨_, List.mem_append_right _ (List.mem_singleton.mpr rfl), rfl, hquery,
            fun _ => h.passed.loads⟩ }

/-- A call gets a kept outcome, joins a load or starts one. -/
theorem requestShared (h : Traced store m s) (hc : s.calls[i]? = some c)
    (hquery : readQuery c.text = .ok q) (hnoted : Expanding c.text → c.text ∈ s.expanding) :
    Traced store m (requestShared cfg store s i c.text q) := by
  unfold Engine.requestShared
  have hstored := ReadThrough.Subsides.stored s.queries true c.text (some cfg.ttl) s.now
  obtain ⟨out, hholds, hrequest⟩ | ⟨f, hf, hrequest⟩ | ⟨-, hrequest⟩ :=
    ReadThrough.request_cases s.queries true c.text (some cfg.ttl) s.now
  · rw [hrequest]
    dsimp only
    refine (h.setQueries hstored).schedule 0 (.finish i (.ok out))
      ⟨c, hc, fun out' hout' => ⟨q, hquery, ?_⟩⟩
    obtain rfl := Except.ok.inj hout'
    exact fun _ => h.results c.text out hholds q hquery
  · rw [hrequest]
    dsimp only
    obtain ⟨hmem, hattached, hkey⟩ := ReadThrough.mem_of_attached? hf
    obtain ⟨l, hl, hid, hreads, hnew⟩ := h.joinable f hmem hattached
    rw [← hid]
    have hjoined := h.setQueries (hstored.trans (.join _ l.id))
    exact hjoined.join hc hl ⟨hkey ▸ hreads, fun _ => hnew⟩
  · rw [hrequest]
    dsimp only
    -- the load is added, then begun, and the call joins it when it has been
    let l : Load := ⟨s.queries.started, q, .shared none, [], none, [], none⟩
    let queries : ReadThrough Text Outcome :=
      { (s.queries.stored true c.text (some cfg.ttl) s.now).2 with
        flights := s.queries.flights ++ [⟨s.queries.started, c.text, some cfg.ttl, 1, 0, true⟩]
        started := s.queries.started + 1 }
    have hadded : Traced store m { s with queries := queries, loads := s.loads ++ [l] } :=
      (h.setQueries hstored).addShared hquery hnoted (some cfg.ttl)
    obtain ⟨htraced, hretains⟩ := startLoad cfg { s with queries := queries } l hadded
    obtain ⟨c', hc', htext⟩ := hretains.calls i c hc
    obtain ⟨l, hl, hid, hsame, -⟩ :=
      hretains.loads _ (List.mem_append_right _ (List.mem_singleton.mpr rfl))
    have hjoined := htraced.join hc' hl ⟨by rw [htext, hsame]; exact hquery, fun _ _ => by
      rw [hid]
      exact h.passed.loads⟩
    rw [hid] at hjoined
    exact hjoined

/-- A call starts a load of its own. -/
theorem requestOwn (h : Traced store m s) (hc : s.calls[i]? = some c)
    (hquery : readQuery c.text = .ok q) :
    Traced store m (requestOwn cfg store s i signal q) := by
  have hadded := h.addUnshared (q := q) (.own i signal) <| by
    intro k signal' hown
    obtain ⟨rfl, -⟩ := Control.own.inj hown
    exact ⟨c, hc, hquery⟩
  exact (startLoad cfg { s with queries := s.queries.startUnshared.2 } _ hadded).1

/-- The text of an expanding query is noted. -/
theorem note (h : Traced store m s) (hexpands : Expanding text) :
    Traced store m { s with expanding := addNew s.expanding text } :=
  { h with
    indexed :=
      { sound := by
          intro text' htext'
          obtain hold | rfl := mem_addNew.mp htext'
          · exact h.indexed.sound text' hold
          · exact hexpands
        complete := fun text' hexpands' hhas =>
          mem_addNew.mpr (.inl (h.indexed.complete text' hexpands' hhas)) } }

/-- A call whose query is fit is seen to, unless its signal has aborted. -/
theorem request (h : Traced store m s) (hc : s.calls[i]? = some c)
    (hquery : readQuery c.text = .ok q) (hnoted : Expanding c.text → c.text ∈ s.expanding)
    (signal : Option Text) :
    Traced store m
      (match s.reason? signal with
      | some reason => s.settleCall i (.error (.aborted reason))
      | none =>
        if cfg.disabled then Engine.requestOwn cfg store s i signal q
        else Engine.requestShared cfg store s i c.text q) := by
  split
  · exact h.subsides (subsides_settleCall _ _ _)
  · split
    · exact h.requestOwn hc hquery
    · exact h.requestShared hc hquery hnoted

theorem call (h : Traced store m s) (text : Text) (signal : Option Text) :
    Traced store m (call cfg store s text signal) := by
  let c : Call := ⟨text, signal, s.now, none, false, none⟩
  have hmade : Traced store m { s with calls := s.calls ++ [c] } := h.addCall rfl rfl
  have hc : (s.calls ++ [c])[s.calls.length]? = some c := List.getElem?_concat_length
  unfold Engine.call
  cases hquery : readQuery text with
  | error failure =>
    exact (hmade.subsides (subsides_settleCall _ _ _)).logResult _
  | ok q =>
    dsimp only
    by_cases hexpansion : q.expansion.isSome
    · rw [if_pos hexpansion]
      have hnoted := hmade.note ⟨q, hquery, hexpansion⟩
      exact hnoted.request hc hquery (fun _ => mem_addNew.mpr (.inr rfl)) signal
    · rw [if_neg hexpansion]
      refine hmade.request hc hquery ?_ signal
      rintro ⟨q', hquery', hexpansion'⟩
      obtain rfl : q = q' := Except.ok.inj (hquery.symm.trans hquery')
      exact absurd hexpansion' hexpansion

end Traced

/-! ## Texts that are forgotten -/

variable {queries : ReadThrough Text Outcome} {texts : List Text}

theorem not_has_invalidateAll : ¬ Has queries.invalidateAll text := by
  rintro (⟨outcome, hholds⟩ | ⟨f, hf, hattached, -⟩)
  · exact TtlCache.not_holds_flush hholds
  · rw [ReadThrough.not_attached_invalidateAll hf] at hattached
    exact nomatch hattached

/-- Of what there is behind the invalidation of a text, there was as much before, and it is of
another text. -/
theorem Has.of_invalidate {forgotten : Text} (h : Has (queries.invalidate forgotten) text) :
    text ≠ forgotten ∧ Has queries text := by
  obtain ⟨outcome, hholds⟩ | ⟨f, hf, hattached, rfl⟩ := h
  · exact ⟨(TtlCache.holds_delete hholds).1, .inl ⟨outcome, (TtlCache.holds_delete hholds).2⟩⟩
  · obtain ⟨hold, hkey⟩ := ReadThrough.exists_of_mem_invalidate hf hattached
    exact ⟨hkey, .inr ⟨f, hold, hattached, rfl⟩⟩

theorem Has.of_invalidateEach (h : Has (texts.foldl ReadThrough.invalidate queries) text) :
    text ∉ texts ∧ Has queries text := by
  induction texts generalizing queries with
  | nil => exact ⟨List.not_mem_nil, h⟩
  | cons first rest ih =>
    obtain ⟨hrest, hfirst⟩ := ih h
    obtain ⟨hne, hhas⟩ := hfirst.of_invalidate
    exact ⟨List.not_mem_cons_of_ne_of_not_mem hne hrest, hhas⟩

theorem subsides_invalidateEach (queries : ReadThrough Text Outcome) (texts : List Text) :
    queries.Subsides (texts.foldl ReadThrough.invalidate queries) := by
  induction texts generalizing queries with
  | nil => exact .refl queries
  | cons first rest ih => exact (ReadThrough.Subsides.invalidate queries first).trans (ih _)

/-- The entry and the loads of a text. -/
def entryAndLoads (queries : ReadThrough Text Outcome) (text : Text) :
    Option (Stored Outcome) × List (Flight Text) :=
  (queries.store.entries.get? text, queries.flights.filter fun f => f.key = text)

theorem entryAndLoads_invalidate {forgotten : Text} (hne : text ≠ forgotten) :
    entryAndLoads (queries.invalidate forgotten) text = entryAndLoads queries text := by
  have hflights : ∀ flights : List (Flight Text),
      (flights.map fun f => if f.key = forgotten then { f with attached := false } else f).filter
        (fun f => f.key = text) = flights.filter fun f => f.key = text := by
    intro flights
    induction flights with
    | nil => rfl
    | cons f rest ih =>
      rw [List.map_cons, List.filter_cons, List.filter_cons, ih]
      by_cases hkey : f.key = forgotten
      · -- the load is of the text forgotten, before and behind the invalidation
        rw [if_pos hkey, if_neg (by simpa [hkey] using Ne.symm hne),
          if_neg (by simpa [hkey] using Ne.symm hne)]
      · rw [if_neg hkey]
  refine Prod.ext ?_ (hflights queries.flights)
  show (queries.store.entries.erase forgotten).get? text = _
  rw [OrderedMap.get?_erase, if_neg hne]
  rfl

theorem entryAndLoads_invalidateEach (hother : text ∉ texts) :
    entryAndLoads (texts.foldl ReadThrough.invalidate queries) text =
      entryAndLoads queries text := by
  induction texts generalizing queries with
  | nil => rfl
  | cons first rest ih =>
    rw [List.mem_cons, not_or] at hother
    rw [List.foldl_cons, ih hother.2, entryAndLoads_invalidate hother.1]

/-! ## Events -/

theorem not_holds_invalidate_graph {graphs : ReadThrough Unit Graph} {graph : Graph} :
    ¬ (graphs.invalidate ()).store.Holds () graph := fun hholds =>
  (TtlCache.holds_delete hholds).1 rfl

theorem not_attached_invalidate_graph {graphs : ReadThrough Unit Graph} {f : Flight Unit}
    (hf : f ∈ (graphs.invalidate ()).flights) : f.attached = false := by
  refine Bool.eq_false_iff.mpr fun hattached => ?_
  exact (ReadThrough.exists_of_mem_invalidate hf hattached).2 rfl

namespace Traced

theorem invalidate (h : Traced store m s) : Traced store m s.invalidate := by
  have hforgotten := (h.setQueries (.invalidateAll s.queries)).setGraphs (.invalidate s.graphs ())
  exact
    { hforgotten with
      indexed :=
        { sound := fun _ hmem => nomatch hmem
          complete := fun _ _ hhas => absurd hhas not_has_invalidateAll } }

theorem invalidateGraph (h : Traced store m s) : Traced store m s.invalidateGraph := by
  have hforgotten := (h.setQueries (subsides_invalidateEach s.queries s.expanding)).setGraphs
    (.invalidate s.graphs ())
  exact
    { hforgotten with
      indexed :=
        { sound := fun _ hmem => nomatch hmem
          complete := by
            -- of an expanding query there was nothing but what was noted, and that is gone
            intro text hexpands hhas
            obtain ⟨hother, hhad⟩ := hhas.of_invalidateEach
            exact absurd (h.indexed.complete text hexpands hhad) hother } }

theorem step (h : Traced store m s) (event : Event) : Traced store m (step cfg store s event) := by
  cases event with
  | call text signal => exact h.call text signal
  | tick => exact h.tick (ticked cfg store s)
  | abort signal reason => exact h.subsides (subsides_abort s signal reason)
  | invalidate => exact h.invalidate
  | invalidateGraph => exact h.invalidateGraph
  | advance span => exact h.frame (frame_advance s span) rfl rfl rfl
  | close => exact h.frame (frame_close s) rfl rfl rfl

theorem run (h : Traced store m s) (events : List Event) :
    Traced store m (run cfg store s events) := by
  induction events generalizing s with
  | nil => exact h
  | cons event rest ih => exact ih (h.step event)

/-- A call made since the mark that has got a result of a query in question. -/
theorem gives_of_settled (h : Traced store m s) (hi : m.calls ≤ i) (hc : s.calls[i]? = some c)
    {result : Result} (hsettled : c.settled = some (.ok result)) :
    result.text = c.text ∧ ∃ q, readQuery c.text = .ok q ∧
      (m.Chosen q → (s.drawn store m.statements).Gives q result.outcome) := by
  obtain ⟨htext, q, hquery, hgives⟩ := (h.calls i c hc).settled result hsettled
  exact ⟨htext, q, hquery, hgives hi⟩

end Traced

/-- The states that an engine gets into if nobody else uses its caches. -/
def Reachable (cfg : Settings) (store : Store) (s : State) : Prop :=
  ∃ (now : Time) (ttl interval ttl' interval' : Option Time) (events : List Event),
    s = run cfg store (.new now (.new now ttl interval) (.new now ttl' interval')) events

/-- An engine that has done nothing yet. -/
theorem traced_new (now : Time) (ttl interval ttl' interval' : Option Time)
    (Chosen : Query → Prop) :
    let s := State.new now (.new now ttl interval) (.new now ttl' interval')
    Traced store (s.mark Chosen) s where
  recorded := rfl
  passed := ⟨Nat.le_refl _, Nat.le_refl _, Nat.le_refl _, Nat.le_refl _⟩
  indexed :=
    { sound := fun _ hmem => nomatch hmem
      complete := by
        rintro text - (⟨outcome, hholds⟩ | ⟨f, hf, -⟩)
        · exact absurd hholds TtlCache.not_holds_new
        · exact nomatch hf }
  results := fun _ _ hholds => absurd hholds TtlCache.not_holds_new
  joinable := fun _ hf => nomatch hf
  graph := fun _ hholds => absurd hholds TtlCache.not_holds_new
  underWay := fun _ hf => nomatch hf
  distinct := List.nodup_nil
  below := fun _ hl => nomatch hl
  loads := fun _ hl => nomatch hl
  waiters := fun _ hw => nomatch hw
  calls := fun _ _ hc => nomatch hc
  jobs := fun _ ⟨_, hj⟩ => nomatch hj

theorem Reachable.traced (h : Reachable cfg store s) : ∃ m, Traced store m s := by
  obtain ⟨now, ttl, interval, ttl', interval', events, rfl⟩ := h
  exact ⟨_, (traced_new now ttl interval ttl' interval' fun _ => True).run events⟩

/-! ## A store that rewords its issue -/

/-- A row of the table of issues that says a word wherever it may. -/
def rowOf (word : Text) : Json :=
  .obj (Issue.columns.map fun column => (Text.ofString column,
    if column = "priority" ∨ column = "pinned" then Issue.jsonInt 1 else .str word))

/-- A store that answers with rows that say given words, one statement after the other. -/
def wordStore (script : List (List Text)) : Store :=
  .scripted 0 (script.map fun words => .ran 0 [] (.ok (words.map rowOf)))

/-- The titles of the issues that a call got. -/
def State.titles? (s : State) (i : Nat) : Option (List Text) :=
  (s.result? i).bind fun result => result.toOption.map fun r => r.outcome.issues.map Issue.title

theorem exists_of_titles? {titles : List Text} (h : s.titles? i = some titles) :
    ∃ c result, s.calls[i]? = some c ∧ c.settled = some (.ok result) ∧
      result.outcome.issues.map Issue.title = titles := by
  obtain ⟨result, hresult, htitles⟩ := Option.bind_eq_some_iff.mp h
  obtain ⟨c, hc, hsettled⟩ := Option.bind_eq_some_iff.mp hresult
  cases result with
  | error rejection => exact nomatch htitles
  | ok r => exact ⟨c, r, hc, hsettled, Option.some.inj htitles⟩

/-! ## What the invalidations promise -/

/-- An invalidation is a barrier. Whatever happens before and behind it, a call that is made behind
it gets no result but one that comes, in each of its parts, from rows of statements that ran behind
it, even if loads from before are still under way and end later. -/
theorem invalidate_barrier (hs : Reachable cfg store s) (later : List Event)
    (hi : s.calls.length ≤ i) (hc : (run cfg store s.invalidate later).calls[i]? = some c)
    {result : Result} (hsettled : c.settled = some (.ok result)) :
    result.text = c.text ∧ ∃ q, readQuery c.text = .ok q ∧
      ((run cfg store s.invalidate later).drawn store s.asked).Gives q result.outcome := by
  obtain ⟨m, htraced⟩ := hs.traced
  have hmarked : Traced store (s.invalidate.mark fun _ => True) s.invalidate := by
    apply htraced.invalidate.remark
    · exact fun _ _ _ _ => not_has_invalidateAll
    · exact fun _ => not_holds_invalidate_graph
    · exact fun _ => not_attached_invalidate_graph
  obtain ⟨htext, q, hquery, hgives⟩ := (hmarked.run later).gives_of_settled hi hc hsettled
  exact ⟨htext, q, hquery, hgives trivial⟩

/-- A store that says another word when it is asked for its issue again. -/
def rewordedStore : Store := wordStore [["old"], [], [], [], ["new"]]

/-- A load is under way that has its issues already. -/
def straddled : State :=
  run ⟨5, false, default⟩ rewordedStore (.initial 0) [.call "status=open" none]

/-- The load from before and the one of a later call have ended. -/
def straddledEnd : State :=
  run ⟨5, false, default⟩ rewordedStore straddled.invalidate
    (.call "status=open" none :: List.replicate 12 .tick)

/-- A call behind an invalidation gets the new word, while the one before it gets the old one. -/
theorem invalidate_barrier_straddled :
    straddled.queries.pending = 1 ∧ straddled.asked = 4 ∧
    straddledEnd.titles? 0 = some [Text.ofString "old"] ∧
    straddledEnd.titles? 1 = some [Text.ofString "new"] ∧
    ∃ c result, straddledEnd.calls[1]? = some c ∧ c.settled = some (.ok result) ∧
      result.text = c.text ∧ ∃ q, readQuery c.text = .ok q ∧
        (straddledEnd.drawn rewordedStore straddled.asked).Gives q result.outcome := by
  have hrun : (straddled.queries.pending = 1 ∧ straddled.asked = 4 ∧
      straddled.calls.length ≤ 1) ∧ straddledEnd.titles? 0 = some [Text.ofString "old"] ∧
      straddledEnd.titles? 1 = some [Text.ofString "new"] := by decide +kernel
  obtain ⟨⟨hpending, hasked, hmade⟩, hold, htitles⟩ := hrun
  refine ⟨hpending, hasked, hold, htitles, ?_⟩
  obtain ⟨c, result, hc, hsettled, -⟩ := exists_of_titles? htitles
  have hreachable : Reachable ⟨5, false, default⟩ rewordedStore straddled :=
    ⟨0, none, none, none, none, _, rfl⟩
  exact ⟨c, result, hc, hsettled, invalidate_barrier hreachable _ hmade hc hsettled⟩

/-- An invalidation of the graph drops exactly what depends on the graph. Every text of an expanding
query of which anything is kept or may be joined is noted. So nothing of such a query is left, nor
anything of the graph, while what there is of other texts stays as it is; and later calls of
expanding queries get results that come from rows given since. -/
theorem invalidateGraph_exact (hs : Reachable cfg store s) :
    (∀ text, Expanding text → Has s.queries text → text ∈ s.expanding) ∧
    (∀ text, Expanding text → ¬ Has s.invalidateGraph.queries text) ∧
    (∀ graph, ¬ s.invalidateGraph.graphs.store.Holds () graph) ∧
    (∀ f ∈ s.invalidateGraph.graphs.flights, f.attached = false) ∧
    (∀ text, ¬ Expanding text →
      entryAndLoads s.invalidateGraph.queries text = entryAndLoads s.queries text) ∧
    ∀ (later : List Event) (i : Nat) (c : Call) (q : Query) (result : Result),
      s.calls.length ≤ i → (run cfg store s.invalidateGraph later).calls[i]? = some c →
      readQuery c.text = .ok q → q.expansion.isSome → c.settled = some (.ok result) →
      ((run cfg store s.invalidateGraph later).drawn store s.asked).Gives q result.outcome := by
  obtain ⟨m, htraced⟩ := hs.traced
  have hforgotten : ∀ text, Expanding text → ¬ Has s.invalidateGraph.queries text := by
    intro text hexpands hhas
    obtain ⟨hother, hhad⟩ := hhas.of_invalidateEach
    exact hother (htraced.indexed.complete text hexpands hhad)
  have hmarked : Traced store (s.invalidateGraph.mark fun q => q.expansion.isSome)
      s.invalidateGraph := by
    apply htraced.invalidateGraph.remark
    · exact fun text q hquery hexpansion => hforgotten text ⟨q, hquery, hexpansion⟩
    · exact fun _ => not_holds_invalidate_graph
    · exact fun _ => not_attached_invalidate_graph
  refine ⟨htraced.indexed.complete, hforgotten, fun _ => not_holds_invalidate_graph,
    fun _ => not_attached_invalidate_graph, ?_, ?_⟩
  · -- only texts of expanding queries are noted
    intro text hplain
    exact entryAndLoads_invalidateEach fun hmem => hplain (htraced.indexed.sound text hmem)
  · intro later i c q result hi hc hquery hexpansion hsettled
    obtain ⟨-, q', hquery', hgives⟩ := (hmarked.run later).gives_of_settled hi hc hsettled
    obtain rfl : q = q' := Except.ok.inj (hquery.symm.trans hquery')
    exact hgives hexpansion

/-- A store that says another word when it is asked once more after the graph. -/
def regraphedStore : Store := wordStore [["old"], [], [], [], ["old"], [], [], [], [], ["new"]]

/-- The outcomes of a query and of its expansion are kept. -/
def bothKept : State :=
  run ⟨5, false, default⟩ regraphedStore (.initial 0)
    (.call "status=open" none :: .call "status=open expand down" none :: List.replicate 16 .tick)

/-- Both texts are called again. -/
def bothAgain : State :=
  run ⟨5, false, default⟩ regraphedStore bothKept.invalidateGraph
    (.call "status=open" none :: .call "status=open expand down" none :: List.replicate 16 .tick)

/-- Behind an invalidation of the graph the query still gets the old word, which is kept, and its
expansion gets the new one. -/
theorem invalidateGraph_exact_both_kept :
    Has bothKept.queries "status=open expand down" ∧
    Text.ofString "status=open expand down" ∈ bothKept.expanding ∧
    ¬ Has bothKept.invalidateGraph.queries "status=open expand down" ∧
    Has bothKept.queries "status=open" ∧
    entryAndLoads bothKept.invalidateGraph.queries "status=open" =
      entryAndLoads bothKept.queries "status=open" ∧
    bothAgain.titles? 2 = some [Text.ofString "old"] ∧
    bothAgain.titles? 3 = some [Text.ofString "new"] ∧
    ∃ c q result, bothAgain.calls[3]? = some c ∧ readQuery c.text = .ok q ∧
      q.expansion.isSome ∧ c.settled = some (.ok result) ∧
      (bothAgain.drawn regraphedStore bothKept.asked).Gives q result.outcome := by
  have hreachable : Reachable ⟨5, false, default⟩ regraphedStore bothKept :=
    ⟨0, none, none, none, none, _, rfl⟩
  obtain ⟨hnoted, hforgotten, -, -, hkept, hlater⟩ := invalidateGraph_exact hreachable
  have hqueries : Expanding "status=open expand down" ∧ ¬ Expanding "status=open" := by
    decide +kernel
  have hrun : (Has bothKept.queries "status=open expand down" ∧
      Has bothKept.queries "status=open" ∧ bothKept.calls.length ≤ 3) ∧
      bothAgain.titles? 2 = some [Text.ofString "old"] ∧
      bothAgain.titles? 3 = some [Text.ofString "new"] ∧
      (bothAgain.calls[3]?).map Call.text = some "status=open expand down" := by
    decide +kernel
  obtain ⟨hexpands, hplain⟩ := hqueries
  obtain ⟨⟨hhas, hhasPlain, hmade⟩, hold, htitles, htext⟩ := hrun
  refine ⟨hhas, hnoted _ hexpands hhas, hforgotten _ hexpands, hhasPlain, hkept _ hplain, hold,
    htitles, ?_⟩
  obtain ⟨c, result, hc, hsettled, -⟩ := exists_of_titles? htitles
  rw [hc] at htext
  obtain ⟨q, hquery, hexpansion⟩ := (Option.some.inj htext).symm ▸ hexpands
  exact ⟨c, q, result, hc, hquery, hexpansion, hsettled,
    hlater _ 3 c q result hmade hc hquery hexpansion hsettled⟩

end IssueQuery.Engine
