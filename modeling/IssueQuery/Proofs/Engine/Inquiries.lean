import IssueQuery.Proofs.Engine.Taking

/-!
# The statements of a load, up to the one that fails

What is asked for a load is asked one statement after the other, and the first one without a fit
answer is the last one: the work fails, and the failure is that of its step. Work that stops because its
load was called off leaves the load called off.

* `Inquiry`        a statement of a load, by what it asks for;
* `Inquiry.fault?` why the store has no fit answer to it;
* `Tries`          work that asks for statements, whatever it comes to;
* `Runs`           planned statements, up to the first that fails;
* `Gathers`        a fetch: one statement or four, up to the first that fails;
* `tries_fetch`, `tries_loadGraph`, `tries_expand` the work of loads.
-/

namespace IssueQuery.Engine

/-! ## Inquiries -/

/-- A statement that is given for a load, by what it asks for. -/
inductive Inquiry where
  /-- The issues that a query selects. -/
  | selected (selection : Selection)
  /-- The issues that an expansion found. -/
  | withIds (ids : List Text)
  | dependencies (ids : List Text)
  | labels (ids : List Text)
  | commentCounts (ids : List Text)
  | graph

/-- What the reply says of a kind of rows, or why it says nothing. -/
def readReply {α : Type} (read : Option Json → RowReading α) (reply : Reply) :
    Except StageCause (List α) :=
  answerOf reply >>= readRows read

/-- Why the reply says nothing. -/
def faultIn {α : Type} (read : Option Json → RowReading α) (reply : Reply) : Option StageCause :=
  match readReply read reply with
  | .ok _ => none
  | .error cause => some cause

namespace Inquiry

/-- The step of the load in which the statement is given. -/
def stage : Inquiry → Stage
  | .selected _ | .withIds _ => .base
  | .dependencies _ => .dependencies
  | .labels _ => .labels
  | .commentCounts _ => .commentCounts
  | .graph => .graph

def statement : Inquiry → Statement
  | .selected selection => .selected selection
  | .withIds ids => .withIds ids
  | .dependencies ids => .dependencies ids
  | .labels ids => .labels ids
  | .commentCounts ids => .commentCounts ids
  | .graph => .allDependencies

/-- Why the inquiry fails as the store's statement of a number: the statement is refused, or fails
when it runs, or a row is unfit. -/
def fault? (store : Store) (a : Inquiry) (n : Nat) : Option StageCause :=
  match a with
  | .selected _ | .withIds _ => faultIn Issue.ofRow (store n a.statement)
  | .dependencies _ | .graph => faultIn Dependency.ofRow (store n a.statement)
  | .labels _ => faultIn Labelling.ofRow (store n a.statement)
  | .commentCounts _ => faultIn CommentCount.ofRow (store n a.statement)

/-- The entry of the inquiry as the store's statement of a number. -/
def entry (store : Store) (a : Inquiry) (n : Nat) : StoreCall :=
  entryOf a.statement (store n a.statement)

end Inquiry

/-- The entries of inquiries with numbers, each with its number. -/
def entries (store : Store) (made : List (Inquiry × Nat)) : List (StoreCall × Nat) :=
  made.map fun p => (p.1.entry store p.2, p.2)

/-- The store has a fit answer to each of the inquiries. -/
def Fit (store : Store) (made : List (Inquiry × Nat)) : Prop :=
  ∀ p ∈ made, p.1.fault? store p.2 = none

variable {store : Store} {load n : Nat} {α β : Type} {a b : Inquiry} {planned made : List Inquiry}
  {read : Option Json → RowReading α} {reply : Reply} {cause : StageCause}

theorem faultIn_of_ok {items : List α} (h : readReply read reply = .ok items) :
    faultIn read reply = none := by
  rw [faultIn, h]

theorem faultIn_of_error (h : readReply read reply = .error cause) :
    faultIn read reply = some cause := by
  rw [faultIn, h]

/-- A statement with a fit answer ran. -/
theorem entryOf_of_fit {statement : Statement} (h : faultIn read reply = none) :
    entryOf statement reply = ranEntry statement := by
  cases reply with
  | refused message => exact nomatch h
  | ran elapsed aborts rows => rfl

theorem Inquiry.entry_of_fit (h : a.fault? store n = none) :
    a.entry store n = ranEntry a.statement := by
  cases a <;> exact entryOf_of_fit h

theorem fit_append {first more : List (Inquiry × Nat)} :
    Fit store (first ++ more) ↔ Fit store first ∧ Fit store more :=
  List.forall_mem_append

/-- Entries of statements that follow each other carry the numbers from the first one on. -/
theorem zipIdx_entries (made : List Inquiry) (n : Nat) :
    ((made.zipIdx n).map fun p => p.1.entry store p.2).zipIdx n = entries store (made.zipIdx n) := by
  induction made generalizing n with
  | nil => rfl
  | cons a rest ih =>
    simp only [List.zipIdx_cons, List.map_cons, entries, ih (n + 1)]

/-! ## Work that asks -/

variable {work : Work LoadFailure α} {Gets Gets' : Nat → List Inquiry → Except LoadFailure α → Prop}

/-- The work makes inquiries one right after the other and adds nothing else to the journal; which
ones they are depends on the number of the first one and on what the work comes to. It does not stop
for an abort unless its load was called off. -/
def Tries (store : Store) (load : Nat) (work : Work LoadFailure α)
    (Gets : Nat → List Inquiry → Except LoadFailure α → Prop) : Prop :=
  ∀ s s' result, s.Recorded → work s = (result, s') →
    s'.Recorded ∧
    (∀ signal reason, result = .error (.aborted signal reason) →
      s'.calledOff? load = some (signal, reason)) ∧
    ∃ made : List Inquiry,
      s'.journal = s.journal ++ (made.zipIdx s.asked).map (fun p => p.1.entry store p.2) ∧
      Gets s.asked made result

theorem Tries.imp (h : Tries store load work Gets)
    (himp : ∀ n made result, Gets n made result → Gets' n made result) :
    Tries store load work Gets' := by
  intro s s' result hrecorded hwork
  obtain ⟨hrecorded', hoff, made, hjournal, hgets⟩ := h s s' result hrecorded hwork
  exact ⟨hrecorded', hoff, made, hjournal, himp _ _ _ hgets⟩

theorem tries_pure (item : α) :
    Tries store load (pure item) fun _ made result => made = [] ∧ result = .ok item := by
  intro s s' result hrecorded hwork
  obtain ⟨rfl, rfl⟩ := Prod.mk.inj hwork
  exact ⟨hrecorded, fun _ _ => nofun, [], (List.append_nil _).symm, rfl, rfl⟩

/-- The second part goes on with the number behind the inquiries of the first one, unless that
failed. -/
theorem Tries.bind (h : Tries store load work Gets) {next : α → Work LoadFailure β}
    (GetsNext : α → Nat → List Inquiry → Except LoadFailure β → Prop)
    (hnext : ∀ item, Tries store load (next item) (GetsNext item)) :
    Tries store load (work >>= next) fun n made result =>
      (∃ e, Gets n made (.error e) ∧ result = .error e) ∨
      ∃ item first more, made = first ++ more ∧ Gets n first (.ok item) ∧
        GetsNext item (n + first.length) more result := by
  intro s s'' result hrecorded hwork
  rw [bind_run] at hwork
  cases hfirst : work s with
  | mk outcome s' =>
    rw [hfirst] at hwork
    obtain ⟨hrecorded', hoff, first, hjournal, hgets⟩ := h s s' outcome hrecorded hfirst
    cases outcome with
    | error e =>
      obtain ⟨rfl, rfl⟩ := Prod.mk.inj hwork
      refine ⟨hrecorded', fun signal reason hsame => ?_, first, hjournal, .inl ⟨e, hgets, rfl⟩⟩
      exact hoff signal reason (congrArg Except.error (Except.error.inj hsame))
    | ok item =>
      obtain ⟨hrecorded'', hoff', more, hjournal', hgets'⟩ :=
        hnext item s' s'' result hrecorded' hwork
      -- the statements of the second part are numbered on from those of the first
      have hasked : s'.asked = s.asked + first.length := by
        rw [← hrecorded', ← hrecorded, hjournal, List.length_append, List.length_map,
          List.length_zipIdx]
      refine ⟨hrecorded'', hoff', first ++ more, ?_, .inr ⟨item, first, more, rfl, hgets, ?_⟩⟩
      · rw [hjournal', hjournal, hasked, List.zipIdx_append, List.map_append, List.append_assoc]
      · exact hasked ▸ hgets'

/-- Work may be stopped before it has asked anything, if its load was called off. -/
theorem Tries.unlessCalledOff (h : Tries store load work Gets) :
    Tries store load (do Engine.unlessCalledOff load; work) fun n made result =>
      (∃ signal reason, made = [] ∧ result = .error (.aborted signal reason)) ∨
        Gets n made result := by
  have hstop : Tries store load (Engine.unlessCalledOff load) fun _ made result => made = [] ∧
      ∀ e, result = .error e → ∃ signal reason, e = .aborted signal reason := by
    intro s s' result hrecorded hwork
    unfold Engine.unlessCalledOff at hwork
    split at hwork
    · rename_i signal reason hoff
      obtain ⟨rfl, rfl⟩ := Prod.mk.inj hwork
      refine ⟨hrecorded, fun signal' reason' hsame => ?_, [], (List.append_nil _).symm, rfl,
        fun e he => ⟨signal, reason, (Except.error.inj he).symm⟩⟩
      obtain ⟨rfl, rfl⟩ := LoadFailure.aborted.inj (Except.error.inj hsame)
      exact hoff
    · obtain ⟨rfl, rfl⟩ := Prod.mk.inj hwork
      exact ⟨hrecorded, fun _ _ => nofun, [], (List.append_nil _).symm, rfl, fun _ => nofun⟩
  refine (hstop.bind (fun _ => Gets) fun _ => h).imp ?_
  rintro n made result (⟨e, ⟨rfl, hcause⟩, rfl⟩ | ⟨-, first, more, rfl, ⟨rfl, -⟩, hgets⟩)
  · obtain ⟨signal, reason, rfl⟩ := hcause e rfl
    exact .inl ⟨signal, reason, rfl, rfl⟩
  · exact .inr hgets

/-- A line in the log is no inquiry. -/
theorem Tries.log (h : Tries store load work Gets) (cfg : Settings) (severity : Severity)
    (message : Text) (members : List (Text × Json)) :
    Tries store load (do modify fun s => s.log cfg severity message members; work) Gets := by
  have hline : Tries store load
      (modify fun s => s.log cfg severity message members : Work LoadFailure PUnit)
      fun _ made result => made = [] ∧ result = .ok ⟨⟩ := by
    intro s s' result hrecorded hwork
    obtain ⟨rfl, rfl⟩ := Prod.mk.inj hwork
    exact ⟨hrecorded, fun _ _ => nofun, [], (List.append_nil _).symm, rfl, rfl⟩
  refine (hline.bind (fun _ => Gets) fun _ => h).imp ?_
  rintro n made result (⟨e, ⟨-, he⟩, -⟩ | ⟨-, first, more, rfl, ⟨rfl, -⟩, hgets⟩)
  · exact nomatch he
  · exact hgets

/-! ## Statements -/

/-- The failure of a step is no abort. -/
theorem ofStep_ne_aborted (step : Stage) (cause : StageCause) (signal reason : Text) :
    LoadFailure.ofStep step cause ≠ .aborted signal reason := by
  unfold LoadFailure.ofStep
  split <;> nofun

theorem tries_reply (a : Inquiry) (read : Option Json → RowReading α) :
    Tries store load (staged a.stage (query store a.statement read)) fun n made result =>
      made = [a] ∧ result = (readReply read (store n a.statement)).mapError (.ofStep a.stage) := by
  intro s s' result hrecorded hwork
  have hquery : (query store a.statement read s).1.mapError (.ofStep a.stage) = result ∧
      (query store a.statement read s).2 = s' := Prod.mk.inj hwork
  unfold query at hquery
  rw [bind_run] at hquery
  cases hask : ask store a.statement s with
  | mk rows s₁ =>
    obtain ⟨hrecorded', hjournal, rfl⟩ := ask_spec a.statement hrecorded hask
    rw [hask] at hquery
    obtain ⟨rfl, rfl⟩ : (readReply read (store s.asked a.statement)).mapError (.ofStep a.stage) =
        result ∧ s₁ = s' := by
      rw [readReply]
      generalize answerOf (store s.asked a.statement) = rows at hquery ⊢
      cases rows <;> exact hquery
    refine ⟨hrecorded', fun signal reason haborted => ?_, [a], hjournal, rfl, rfl⟩
    cases hreply : readReply read (store s.asked a.statement) with
    | ok items => rw [hreply] at haborted; cases haborted
    | error cause =>
      rw [hreply] at haborted
      exact absurd (Except.error.inj haborted) (ofStep_ne_aborted _ _ _ _)

/-- Rows that were read have been given. -/
theorem reads_of_readReply {statement : Statement} {items : List α}
    (h : readReply read (store n statement) = .ok items) :
    (given store n).Reads statement read items := by
  cases hran : store n statement with
  | refused message => rw [hran] at h; cases h
  | ran elapsed aborts answer =>
    rw [hran] at h
    cases answer with
    | error fault => cases h
    | ok rows => exact ⟨rows, ⟨elapsed, aborts, hran⟩, h⟩

theorem tries_query (hread : ∀ n, a.fault? store n = faultIn read (store n a.statement)) :
    Tries store load (staged a.stage (query store a.statement read)) fun n made result =>
      made = [a] ∧
      ((∃ items, (given store n).Reads a.statement read items ∧ a.fault? store n = none ∧
        result = .ok items) ∨
      ∃ cause, a.fault? store n = some cause ∧ result = .error (.ofStep a.stage cause)) := by
  refine (tries_reply a read).imp ?_
  rintro n made result ⟨rfl, rfl⟩
  refine ⟨rfl, ?_⟩
  cases hreply : readReply read (store n a.statement) with
  | ok items =>
    exact .inl ⟨items, reads_of_readReply hreply, (hread n).trans (faultIn_of_ok hreply), rfl⟩
  | error cause => exact .inr ⟨cause, (hread n).trans (faultIn_of_error hreply), rfl⟩

/-! ## Planned statements -/

/-- Inquiries are made as planned, and the work comes to something good; or one of them fails, and the
work with it. -/
inductive Runs (store : Store) (planned : List Inquiry) (Good : α → Prop) (n : Nat) :
    List Inquiry → Except LoadFailure α → Prop
  | done (item : α) (hgood : Good item) (hfit : Fit store (planned.zipIdx n)) :
    Runs store planned Good n planned (.ok item)
  | failed (before : List Inquiry) (b : Inquiry) (cause : StageCause)
    (hinitial : before ++ [b] <+: planned) (hfit : Fit store (before.zipIdx n))
    (hfault : b.fault? store (n + before.length) = some cause) :
    Runs store planned Good n (before ++ [b]) (.error (.ofStep b.stage cause))

variable {Good : α → Prop}

theorem runs_pure {item : α} (hgood : Good item) :
    Tries store load (pure item) (Runs store [] Good) := by
  refine (tries_pure item).imp ?_
  rintro n made result ⟨rfl, rfl⟩
  exact .done item hgood fun p hp => nomatch hp

/-- One more inquiry comes first. -/
theorem runs_query {γ : Type} {read : Option Json → RowReading γ}
    (hread : ∀ n, a.fault? store n = faultIn read (store n a.statement))
    {next : List γ → Work LoadFailure α}
    (hnext : ∀ items, Tries store load (next items) (Runs store planned Good)) :
    Tries store load (staged a.stage (query store a.statement read) >>= next)
      (Runs store (a :: planned) Good) := by
  have hfirst {m : Nat} (h : a.fault? store m = none) {rest : List (Inquiry × Nat)}
      (hrest : Fit store rest) : Fit store ((a, m) :: rest) :=
    List.forall_mem_cons.mpr ⟨h, hrest⟩
  refine ((tries_query hread).bind (fun _ => Runs store planned Good) hnext).imp ?_
  rintro n made result (⟨e, ⟨rfl, ⟨items, -, -, he⟩ | ⟨cause, hfault, he⟩⟩, rfl⟩ |
    ⟨items, first, more, rfl, ⟨rfl, ⟨items', -, hfits, -⟩ | ⟨cause, -, he⟩⟩, hruns⟩)
  · exact nomatch he
  · obtain rfl := Except.error.inj he
    exact .failed [] a cause (List.prefix_append [a] planned) (fun p hp => nomatch hp) hfault
  · cases hruns with
    | done item hgood hfit => exact .done item hgood (hfirst hfits hfit)
    | failed before b cause hinitial hfit hfault =>
      refine .failed (a :: before) b cause (List.cons_prefix_cons.mpr ⟨rfl, hinitial⟩)
        (hfirst hfits hfit) ?_
      rw [List.length_cons, Nat.add_comm before.length 1, ← Nat.add_assoc]
      exact hfault
  · exact nomatch he

/-! ## The work of loads -/

/-- The inquiries of a fetch: the one for issues and, if there are any, those for what belongs to
them. -/
def batch (a : Inquiry) (ids : List Text) : List Inquiry :=
  a :: if ids = [] then [] else
    [.dependencies (firstOccurrences ids), .labels (firstOccurrences ids),
      .commentCounts (firstOccurrences ids)]

/-- What a fetch asks and what it comes to: an inquiry fails and the fetch with it, or the fetch is cut
short behind its first inquiry, or it is whole. -/
inductive Gathers (store : Store) (a : Inquiry) (n : Nat) :
    List Inquiry → Except LoadFailure (List Issue) → Prop
  | failed (ids : List Text) (before : List Inquiry) (b : Inquiry) (cause : StageCause)
    (hinitial : before ++ [b] <+: batch a ids) (hfit : Fit store (before.zipIdx n))
    (hfault : b.fault? store (n + before.length) = some cause)
    (hfound : before ≠ [] → ∃ found, (given store n).Reads a.statement Issue.ofRow found ∧
      ids = found.map Issue.id) :
    Gathers store a n (before ++ [b]) (.error (.ofStep b.stage cause))
  | cut (signal reason : Text) (hfit : Fit store [(a, n)]) :
    Gathers store a n [a] (.error (.aborted signal reason))
  | whole (issues : List Issue)
    (hreads : (given store n).Reads a.statement Issue.ofRow (issues.map Issue.bare))
    (hfit : Fit store ((batch a (issues.map Issue.id)).zipIdx n)) :
    Gathers store a n (batch a (issues.map Issue.id)) (.ok issues)

/-- What a fetch that was given issues asks behind its first inquiry, and what it comes to: it ends if
there are no issues or if its load was called off, and else asks for what belongs to them. -/
inductive Follows (store : Store) (found : List Issue) (n : Nat) :
    List Inquiry → Except LoadFailure (List Issue) → Prop
  | nothing (hnone : found = []) : Follows store found n [] (.ok [])
  | cut (signal reason : Text) : Follows store found n [] (.error (.aborted signal reason))
  | attached {ids : List Text} {made : List Inquiry} {result : Except LoadFailure (List Issue)}
    (hsome : found ≠ []) (hids : ids = firstOccurrences (found.map Issue.id))
    (hruns : Runs store [.dependencies ids, .labels ids, .commentCounts ids] (fun issues =>
      (∀ issue ∈ found, issue.bare = issue) → issues.map Issue.bare = found) n made result) :
    Follows store found n made result

theorem runs_attachments (ids : List Text) (found : List Issue) :
    Tries store load (do
        let dependencies ← staged .dependencies (query store (.dependencies ids) Dependency.ofRow)
        let labels ← staged .labels (query store (.labels ids) Labelling.ofRow)
        let counts ← staged .commentCounts (query store (.commentCounts ids) CommentCount.ofRow)
        let issues := dependencies.foldl Issue.attachDependency found
        let issues := labels.foldl Issue.attachLabel issues
        return counts.foldl Issue.attachCommentCount issues : Work LoadFailure (List Issue))
      (Runs store [.dependencies ids, .labels ids, .commentCounts ids] fun issues =>
        (∀ issue ∈ found, issue.bare = issue) → issues.map Issue.bare = found) :=
  runs_query (a := .dependencies ids) (fun _ => rfl) fun dependencies =>
    runs_query (a := .labels ids) (fun _ => rfl) fun labels =>
      runs_query (a := .commentCounts ids) (fun _ => rfl) fun counts =>
        runs_pure fun hbare => Issue.map_bare_attached hbare dependencies labels counts

/-- A fetch whose first inquiry has a fit answer. -/
theorem Follows.gathers {found : List Issue} {result : Except LoadFailure (List Issue)}
    (h : Follows store found (n + 1) made result)
    (hfound : (given store n).Reads a.statement Issue.ofRow found)
    (hfits : a.fault? store n = none) : Gathers store a n ([a] ++ made) result := by
  have hfirst : Fit store [(a, n)] := List.forall_mem_singleton.mpr hfits
  -- the first statement was fit, so where the fetch ends is said by what followed it
  cases h with
  | nothing hnone =>
    subst hnone
    exact .whole [] hfound hfirst
  | cut signal reason => exact .cut signal reason hfirst
  | @attached ids _ _ hsome hids hruns =>
    have hbatch : batch a (found.map Issue.id) =
        [a] ++ [.dependencies ids, .labels ids, .commentCounts ids] := by
      rw [batch, if_neg (fun hnil => hsome (List.map_eq_nil_iff.mp hnil)), ← hids]
      rfl
    cases hruns with
    | done issues hgood hfit =>
      have hissues := hgood hfound.bare
      have hsame : issues.map Issue.id = found.map Issue.id := by
        rw [← hissues, List.map_map]
        rfl
      rw [← hbatch, ← hsame]
      refine .whole issues (hissues ▸ hfound) ?_
      rw [hsame, hbatch, List.zipIdx_append]
      exact fit_append.mpr ⟨hfirst, hfit⟩
    | failed before b cause hinitial hfit hfault =>
      rw [← List.append_assoc]
      refine .failed (found.map Issue.id) ([a] ++ before) b cause ?_ ?_ ?_
        fun _ => ⟨found, hfound, rfl⟩
      · rw [hbatch, List.append_assoc]
        exact (List.prefix_append_right_inj [a]).mpr hinitial
      · rw [List.zipIdx_append]
        exact fit_append.mpr ⟨hfirst, hfit⟩
      · rw [List.length_append, ← Nat.add_assoc]
        exact hfault

theorem tries_fetch (hstage : a.stage = .base) :
    Tries store load (fetch store load a.statement) (Gathers store a) := by
  -- only the two statements about issues are of the stage of the base
  have hread : ∀ n, a.fault? store n = faultIn Issue.ofRow (store n a.statement) := by
    intro n
    cases a with
    | selected _ | withIds _ => rfl
    | dependencies _ | labels _ | commentCounts _ | graph => cases hstage
  have hquery : Tries store load (staged a.stage (query store a.statement Issue.ofRow)) _ :=
    tries_query hread
  rw [hstage] at hquery
  refine Tries.imp (hquery.bind (fun found => Follows store found) ?_) ?_
  · intro found
    dsimp only
    split
    · rename_i hempty
      refine (tries_pure []).imp ?_
      rintro n more result ⟨rfl, rfl⟩
      exact .nothing (List.isEmpty_iff.mp hempty)
    · rename_i hsome
      refine (runs_attachments _ found).unlessCalledOff.imp ?_
      rintro n more result (⟨signal, reason, rfl, rfl⟩ | hruns)
      · exact .cut signal reason
      · exact .attached (fun hnil => hsome (hnil ▸ rfl)) rfl hruns
  · rintro n made result (⟨e, ⟨rfl, ⟨found, -, -, he⟩ | ⟨cause, hfault, he⟩⟩, rfl⟩ |
      ⟨found, first, more, rfl, ⟨rfl, ⟨found', hfound, hfits, he⟩ | ⟨cause, -, he⟩⟩, hnext⟩)
    · exact nomatch he
    · obtain rfl := Except.error.inj he
      rw [← hstage]
      exact .failed [] [] a cause (List.prefix_append [a] _) (fun p hp => nomatch hp) hfault
        fun hne => absurd rfl hne
    · obtain rfl := Except.ok.inj he
      exact hnext.gathers hfound hfits
    · exact nomatch he

/-- The graph as the store's statement of a number gives it. -/
def graphOf (store : Store) (n : Nat) : Except LoadFailure Graph :=
  ((readReply Dependency.ofRow (store n .allDependencies)).map Graph.ofDependencies).mapError
    (.ofStep .graph)

/-- The graph is given, or its statement fails. -/
theorem graphOf_cases (store : Store) (n : Nat) :
    (∃ graph, graphOf store n = .ok graph ∧ Inquiry.graph.fault? store n = none) ∨
      ∃ cause, graphOf store n = .error (.ofStep .graph cause) ∧
        Inquiry.graph.fault? store n = some cause := by
  unfold graphOf
  cases hreply : readReply Dependency.ofRow (store n .allDependencies) with
  | ok dependencies => exact .inl ⟨_, rfl, faultIn_of_ok hreply⟩
  | error cause => exact .inr ⟨cause, rfl, faultIn_of_error hreply⟩

/-- It makes no difference whether a failure is made that of a step before or behind what is made of the
result. -/
theorem staged_map (stage : Stage) (work : Work StageCause α) (f : α → β) :
    staged stage (do return f (← work)) = do return f (← staged stage work) := by
  funext s
  have hstaged : staged stage (do return f (← work)) s =
      (((work >>= fun item => pure (f item)) s).1.mapError (.ofStep stage),
        ((work >>= fun item => pure (f item)) s).2) := rfl
  have hwork : staged stage work s = ((work s).1.mapError (.ofStep stage), (work s).2) := rfl
  rw [hstaged, bind_run, bind_run, hwork]
  cases work s with
  | mk result s' => cases result <;> rfl

theorem tries_loadGraph : Tries store load (staged .graph (loadGraph store)) fun n made result =>
    made = [.graph] ∧ result = graphOf store n := by
  have hsame : staged .graph (loadGraph store) = do
      return Graph.ofDependencies (← staged .graph
        (query store .allDependencies Dependency.ofRow)) := staged_map _ _ _
  rw [hsame]
  refine Tries.imp ((tries_reply .graph Dependency.ofRow).bind _ fun _ => tries_pure _) ?_
  rintro n made result (⟨e, ⟨rfl, he⟩, rfl⟩ | ⟨dependencies, first, more, rfl, ⟨rfl, hok⟩, rfl, rfl⟩)
  · refine ⟨rfl, ?_⟩
    unfold graphOf
    cases hreply : readReply Dependency.ofRow (store n .allDependencies) with
    | ok dependencies => rw [Inquiry.statement, hreply] at he; cases he
    | error cause => rw [Inquiry.statement, hreply] at he; exact congrArg _ (Except.error.inj he)
  · refine ⟨rfl, ?_⟩
    unfold graphOf
    cases hreply : readReply Dependency.ofRow (store n .allDependencies) with
    | ok dependencies' =>
      rw [Inquiry.statement, hreply] at hok
      obtain rfl := Except.ok.inj hok
      rfl
    | error cause => rw [Inquiry.statement, hreply] at hok; cases hok

/-- What an expansion asks and what it comes to: nothing if the load was called off or if it finds
nothing, and otherwise a fetch of what it finds. -/
inductive Pursues (store : Store) (n : Nat) :
    List Inquiry → Except LoadFailure Outcome → Prop
  | off (signal reason : Text) : Pursues store n [] (.error (.aborted signal reason))
  | nothing (out : Outcome) : Pursues store n [] (.ok out)
  | failed (ids : List Text) (hne : ids ≠ []) (made : List Inquiry) (e : LoadFailure)
    (hgathers : Gathers store (.withIds ids) n made (.error e)) : Pursues store n made (.error e)
  | found (ids : List Text) (hne : ids ≠ []) (made : List Inquiry) (issues : List Issue)
    (hgathers : Gathers store (.withIds ids) n made (.ok issues)) (out : Outcome) :
    Pursues store n made (.ok out)

theorem tries_expand (cfg : Settings) (base : List Issue) (e : Expansion) (graph : Graph) :
    Tries store load (expand cfg store load base e graph) (Pursues store) := by
  apply expand_of_fetchReach (P := fun work => Tries store load work (Pursues store))
  · intro work hwork
    refine hwork.unlessCalledOff.imp ?_
    rintro n made result (⟨signal, reason, rfl, rfl⟩ | hpursues)
    · exact .off signal reason
    · exact hpursues
  · exact fun hwork => hwork.log cfg .warn
  · unfold fetchReach
    dsimp only
    split
    · refine (tries_pure _).imp ?_
      rintro n made result ⟨rfl, rfl⟩
      exact .nothing _
    · rename_i hsome
      have hfetch (ids : List Text) : Tries store load (fetch store load (.withIds ids))
          (Gathers store (.withIds ids)) := tries_fetch (a := .withIds ids) rfl
      refine Tries.imp ((hfetch _).bind _ fun extra => tries_pure _) ?_
      rintro n made result (⟨e, hgathers, rfl⟩ | ⟨issues, first, more, rfl, hgathers, rfl, rfl⟩)
      · exact .failed _ (mt List.isEmpty_iff.mpr hsome) made e hgathers
      · rw [List.append_nil]
        exact .found _ (mt List.isEmpty_iff.mpr hsome) first issues hgathers _

end IssueQuery.Engine
