import IssueQuery.Proofs.Engine.Inquiries
import IssueQuery.Proofs.Engine.Settling

/-!
# What becomes of each load

Beside an engine goes a chart of each of its loads, which the engine itself does not keep: the
inquiries made for the load, what it goes on with for a graph, what it comes to, and whether it is
over. A chart only grows. Whatever the jobs on the agenda tell, they tell it from the charts, so that
two jobs for one load never tell different things, however many callers share the load and however
many loads share a graph.

* `Chart`, `Charts`  the charts of loads, with the loads of the graph and the servers of calls;
* `Lawful`           how far a load may have come;
* `Charted`          the engine agrees with the charts;
* `Lulls`            nothing comes up but that callers leave.
-/

namespace IssueQuery.Engine

/-! ## Charts -/

/-- What is known of a load beyond what the engine keeps. -/
structure Chart where
  /-- The inquiries made for it, with their numbers. -/
  made : List (Inquiry × Nat)
  /-- What it goes on with, or is to go on with, once it has turned to the graph. -/
  source : Option (Except LoadFailure Graph)
  /-- What it comes to. -/
  fate : Option (Except LoadFailure Outcome)
  /-- Nobody can join it any more, and its value will not be kept. -/
  isOver : Bool

/-- The chart of a load for which nothing has been done. -/
def Chart.blank (isOver : Bool) : Chart := ⟨[], none, none, isOver⟩

/-- What is known beside an engine. -/
structure Charts where
  loads : Nat → Chart
  /-- The number of the statement of each load of the graph. -/
  graphs : Nat → Option Nat
  /-- The load that serves each call. -/
  server : Nat → Option Nat

namespace Charts

def setLoad (F : Charts) (load : Nat) (chart : Chart) : Charts :=
  { F with loads := fun k => if k = load then chart else F.loads k }

def setGraph (F : Charts) (g n : Nat) : Charts :=
  { F with graphs := fun k => if k = g then some n else F.graphs k }

def setServer (F : Charts) (i load : Nat) : Charts :=
  { F with server := fun k => if k = i then some load else F.server k }

/-- The load has come to this, and it is over. -/
def Told (F : Charts) (load : Nat) (outcome : Except LoadFailure Outcome) : Prop :=
  (F.loads load).fate = some outcome ∧ (F.loads load).isOver = true

end Charts

/-- What is known of a load does not change any more, and more is made for it. -/
structure Chart.Grows (chart chart' : Chart) : Prop where
  made : chart.made <+: chart'.made
  source : ∀ graph, chart.source = some graph → chart'.source = some graph
  fate : ∀ outcome, chart.fate = some outcome → chart'.fate = some outcome
  isOver : chart.isOver = true → chart'.isOver = true

/-- Neither does what is known of loads of the graph and of calls. -/
structure Charts.Grows (F F' : Charts) : Prop where
  loads : ∀ load, (F.loads load).Grows (F'.loads load)
  graphs : ∀ g n, F.graphs g = some n → F'.graphs g = some n
  server : ∀ i load, F.server i = some load → F'.server i = some load

variable {store : Store} {F F' F'' : Charts} {s s' : State}
  {l : Load} {c : Call} {q : Query} {base : List Issue} {off off' : Prop} {chart chart' : Chart}
  {load i g n : Nat} {outcome : Except LoadFailure Outcome} {graph : Except LoadFailure Graph}
  {job : Job}

theorem Chart.Grows.refl (chart : Chart) : chart.Grows chart :=
  ⟨List.prefix_refl _, fun _ => id, fun _ => id, id⟩

/-- Everything may become known of a load of which nothing is. -/
theorem Chart.Grows.of_unknown (hsource : chart.source = none) (hfate : chart.fate = none)
    (hmade : chart.made <+: chart'.made) (hover : chart.isOver = true → chart'.isOver = true) :
    chart.Grows chart' where
  made := hmade
  source := fun graph hgraph => by
    rw [hsource] at hgraph
    cases hgraph
  fate := fun outcome houtcome => by
    rw [hfate] at houtcome
    cases houtcome
  isOver := hover

theorem Chart.Grows.trans {chart'' : Chart} (h : chart.Grows chart') (h' : chart'.Grows chart'') :
    chart.Grows chart'' :=
  ⟨h.made.trans h'.made, fun r hr => h'.source r (h.source r hr),
    fun o ho => h'.fate o (h.fate o ho), fun hover => h'.isOver (h.isOver hover)⟩

theorem Chart.Grows.made_ne_nil (h : chart.Grows chart') (hne : chart.made ≠ []) :
    chart'.made ≠ [] := fun hnone => hne (List.prefix_nil.mp (hnone ▸ h.made))

namespace Charts

theorem Grows.refl (F : Charts) : F.Grows F :=
  ⟨fun load => .refl (F.loads load), fun _ _ => id, fun _ _ => id⟩

theorem Grows.trans (h : F.Grows F') (h' : F'.Grows F'') : F.Grows F'' :=
  ⟨fun load => (h.loads load).trans (h'.loads load),
    fun g n hg => h'.graphs g n (h.graphs g n hg), fun i k hi => h'.server i k (h.server i k hi)⟩

theorem Told.grows (h : F.Told load outcome) (hF : F.Grows F') : F'.Told load outcome :=
  ⟨(hF.loads load).fate outcome h.1, (hF.loads load).isOver h.2⟩

@[simp]
theorem setLoad_self (F : Charts) (load : Nat) (chart : Chart) :
    (F.setLoad load chart).loads load = chart := if_pos rfl

theorem setLoad_of_ne (F : Charts) (chart : Chart) {k : Nat} (h : k ≠ load) :
    (F.setLoad load chart).loads k = F.loads k := if_neg h

theorem grows_setLoad (h : (F.loads load).Grows chart) : F.Grows (F.setLoad load chart) where
  loads := by
    intro k
    by_cases hk : k = load
    · subst hk
      rw [setLoad_self]
      exact h
    · rw [setLoad_of_ne F chart hk]
      exact .refl _
  graphs := fun _ _ => id
  server := fun _ _ => id

@[simp]
theorem setGraph_self (F : Charts) (g n : Nat) : (F.setGraph g n).graphs g = some n := if_pos rfl

theorem grows_setGraph (h : F.graphs g = none) (n : Nat) : F.Grows (F.setGraph g n) where
  loads := fun k => .refl _
  graphs := by
    intro k number hk
    have hne : k ≠ g := by
      rintro rfl
      exact nomatch h.symm.trans hk
    exact (if_neg hne).trans hk
  server := fun _ _ => id

@[simp]
theorem setServer_self (F : Charts) (i load : Nat) :
    (F.setServer i load).server i = some load := if_pos rfl

theorem grows_setServer (h : F.server i = none) (load : Nat) : F.Grows (F.setServer i load) where
  loads := fun k => .refl _
  graphs := fun _ _ => id
  server := by
    intro k number hk
    have hne : k ≠ i := by
      rintro rfl
      exact nomatch h.symm.trans hk
    exact (if_neg hne).trans hk

end Charts

/-! ## How far a load may have come -/

/-- The load has base issues that are to be expanded, and these inquiries were made for them. -/
def Based (store : Store) (q : Query) (base : List Issue) (made : List (Inquiry × Nat)) : Prop :=
  q.expansion ≠ none ∧ base ≠ [] ∧ ∃ selection first n, q.select = .ok selection ∧
    Gathers store (.selected selection) n first (.ok base) ∧ made = first.zipIdx n

/-- A load that turned to the graph is to go on with that, and made these inquiries of its own: a graph
that was kept or that another load asks for, the one that it has asked for itself, or nothing if it
was called off. -/
def Sourced (store : Store) (off : Prop) (own : List (Inquiry × Nat))
    (source : Except LoadFailure Graph) : Prop :=
  own = [] ∧ ((∃ graph, source = .ok graph) ∨ (∃ k, source = graphOf store k) ∨
      ∃ signal reason, source = .error (.aborted signal reason) ∧ off) ∨
    ∃ k, own = [(.graph, k)] ∧ source = graphOf store k

/-- The load has its base issues, and has turned to the graph. -/
def Opened (store : Store) (q : Query) (base : List Issue) (off : Prop)
    (made : List (Inquiry × Nat)) (source : Except LoadFailure Graph) : Prop :=
  ∃ first own, Based store q base first ∧ Sourced store off own source ∧ made = first ++ own

/-- What a chart may say of a load of the query with these base issues, which is called off or not:
nothing yet, that the load came to its end without a graph, that it has its base issues, that it is to
go on with a graph, that it ended because there was none, or what it came to when it went on. -/
inductive Lawful (store : Store) (q : Query) (base : List Issue) (off : Prop) : Chart → Prop
  | blank (isOver : Bool) : Lawful store q base off (.blank isOver)
  | early {selection : Selection} {n : Nat} {first : List Inquiry}
    {result : Except LoadFailure (List Issue)} {outcome : Except LoadFailure Outcome} {isOver : Bool}
    (hselect : q.select = .ok selection) (hgathers : Gathers store (.selected selection) n first result)
    (hends : EndsEarly q result outcome) (hbase : base = [])
    (hoff : ∀ signal reason, result = .error (.aborted signal reason) → off) :
    Lawful store q base off ⟨first.zipIdx n, none, some outcome, isOver⟩
  | based {made : List (Inquiry × Nat)} {isOver : Bool} (hbased : Based store q base made) :
    Lawful store q base off ⟨made, none, none, isOver⟩
  | waiting {made : List (Inquiry × Nat)} {source : Except LoadFailure Graph} {isOver : Bool}
    (hopened : Opened store q base off made source) :
    Lawful store q base off ⟨made, some source, none, isOver⟩
  | broken {made : List (Inquiry × Nat)} {e : LoadFailure} {isOver : Bool}
    (hopened : Opened store q base off made (.error e)) :
    Lawful store q base off ⟨made, some (.error e), some (.error e), isOver⟩
  | resumed {made : List (Inquiry × Nat)} {graph : Graph} {n : Nat} {more : List Inquiry}
    {outcome : Except LoadFailure Outcome} {isOver : Bool}
    (hopened : Opened store q base off made (.ok graph)) (hpursues : Pursues store n more outcome)
    (hoff : ∀ signal reason, outcome = .error (.aborted signal reason) → off) :
    Lawful store q base off ⟨made ++ more.zipIdx n, some (.ok graph), some outcome, isOver⟩

/-- A load asks for the graph once at most. -/
theorem Sourced.own_cases {own : List (Inquiry × Nat)} {source : Except LoadFailure Graph}
    (h : Sourced store off own source) : own = [] ∨ ∃ j, own = [(.graph, j)] := by
  obtain ⟨rfl, -⟩ | ⟨j, rfl, -⟩ := h
  · exact .inl rfl
  · exact .inr ⟨j, rfl⟩

theorem Opened.mono {made : List (Inquiry × Nat)} (h : Opened store q base off made graph)
    (hoff : off → off') : Opened store q base off' made graph := by
  obtain ⟨first, own, hbased, hsourced, hmade⟩ := h
  refine ⟨first, own, hbased, ?_, hmade⟩
  refine hsourced.imp_left (And.imp_right (Or.imp_right (Or.imp_right ?_)))
  rintro ⟨signal, reason, haborted, hnow⟩
  exact ⟨signal, reason, haborted, hoff hnow⟩

namespace Lawful

/-- A load that was called off stays so. -/
theorem mono (h : Lawful store q base off chart) (hoff : off → off') :
    Lawful store q base off' chart := by
  cases h with
  | blank isOver => exact .blank isOver
  | early hselect hgathers hends hbase hcalled =>
    exact .early hselect hgathers hends hbase fun signal reason haborted =>
      hoff (hcalled signal reason haborted)
  | based hbased => exact .based hbased
  | waiting hopened => exact .waiting (hopened.mono hoff)
  | broken hopened => exact .broken (hopened.mono hoff)
  | resumed hopened hpursues hcalled =>
    exact .resumed (hopened.mono hoff) hpursues fun signal reason haborted =>
      hoff (hcalled signal reason haborted)

/-- Whether it is over makes no difference to what was done for it. -/
theorem setOver (h : Lawful store q base off chart) (isOver : Bool) :
    Lawful store q base off { chart with isOver := isOver } := by
  cases h with
  | blank _ => exact .blank isOver
  | early hselect hgathers hends hbase hcalled => exact .early hselect hgathers hends hbase hcalled
  | based hbased => exact .based hbased
  | waiting hopened => exact .waiting hopened
  | broken hopened => exact .broken hopened
  | resumed hopened hpursues hcalled => exact .resumed hopened hpursues hcalled

/-- A load that has asked but neither turned to the graph nor ended has its base issues. -/
theorem exists_based (h : Lawful store q base off chart) (hmade : chart.made ≠ [])
    (hsource : chart.source = none) (hfate : chart.fate = none) :
    Based store q base chart.made := by
  cases h with
  | blank _ => exact absurd rfl hmade
  | based hbased => exact hbased
  | early _ _ _ _ _ => cases hfate
  | waiting _ | broken _ | resumed _ _ _ => cases hsource

/-- A load that is to go on and has not ended has turned to the graph. -/
theorem opened (h : Lawful store q base off chart) (hsource : chart.source = some graph)
    (hfate : chart.fate = none) : Opened store q base off chart.made graph := by
  cases h with
  | blank _ | based _ => cases hsource
  | waiting hopened =>
    obtain rfl := Option.some.inj hsource
    exact hopened
  | early _ _ _ _ _ | broken _ | resumed _ _ _ => cases hfate

end Lawful

/-! ## The engine and the charts -/

/-- The call got what its load came to. -/
def Call.Got (c : Call) (result : Except Rejection Result)
    (outcome : Except LoadFailure Outcome) : Prop :=
  result.map Result.outcome = outcome.mapError fun e => .failed c.text (.execute e)

/-- What the chart of the load says is lawful, if the load is called off or not, and the load tells no
other outcome and nobody else. -/
structure Load.Charted (store : Store) (F : Charts) (off : Prop) (l : Load) : Prop where
  check : l.query.check = .ok ()
  lawful : Lawful store l.query l.base off (F.loads l.id)
  ended : ∀ outcome, l.ended = some outcome → F.Told l.id outcome
  subscribers : ∀ i ∈ l.subscribers, F.server i = some l.id
  own : ∀ i signal, l.control = .own i signal →
    F.server i = some l.id ∧ (F.loads l.id).isOver = true

/-- The call waits for its server, and while its signal is quiet it gets nothing but what that came
to. -/
structure Call.Charted (F : Charts) (quiet : Prop) (i : Nat) (c : Call) : Prop where
  joined : ∀ load, c.load = some load → F.server i = some load
  settled : quiet → ∀ result, c.settled = some result →
    ∀ load, F.server i = some load → ∃ outcome, F.Told load outcome ∧ c.Got result outcome

/-- The job tells nothing but what the charts say. -/
def Job.Charted (store : Store) (F : Charts) : Job → Prop
  | .subscribe _ => True
  | .settle load outcome => (F.loads load).fate = some outcome
  | .settleGraph g graph => ∃ n, F.graphs g = some n ∧ graph = graphOf store n
  | .deliverGraph load graph | .resume load graph => (F.loads load).source = some graph
  | .deliver i outcome | .finish i outcome =>
    ∀ load, F.server i = some load → F.Told load outcome

/-- The engine agrees with the charts. -/
structure Charted (store : Store) (F : Charts) (s : State) : Prop where
  loads : ∀ l ∈ s.loads, l.Charted store F (¬ l.Wanted s)
  calls : ∀ (i : Nat) (c : Call), s.calls[i]? = some c →
    c.Charted F (s.reason? c.signal = none) i
  jobs : ∀ j, s.Pending j → j.Charted store F
  isOver : ∀ load, (F.loads load).isOver = true → Detached s.queries load
  waiters : ∀ w ∈ s.graphWaiters,
    ∃ n, F.graphs w.1 = some n ∧ (F.loads w.2).source = some (graphOf store n)
  underWay : ∀ f ∈ s.graphs.flights, f.attached = true → ∃ n, F.graphs f.id = some n
  unstarted : ∀ load, s.queries.started ≤ load → F.loads load = .blank false
  unasked : ∀ g, s.graphs.started ≤ g → F.graphs g = none
  asked : ∀ g n, F.graphs g = some n → ∃ load, (.graph, n) ∈ (F.loads load).made
  unmade : ∀ i, s.calls.length ≤ i → F.server i = none

theorem Job.Charted.grows (h : job.Charted store F) (hF : F.Grows F')
    (hserver : ∀ i outcome, job = .deliver i outcome ∨ job = .finish i outcome →
      F'.server i = F.server i) : job.Charted store F' := by
  cases job with
  | subscribe call => trivial
  | settle load outcome => exact (hF.loads load).fate outcome h
  | settleGraph g graph =>
    obtain ⟨n, hg, hgraph⟩ := h
    exact ⟨n, hF.graphs g n hg, hgraph⟩
  | deliverGraph load graph => exact (hF.loads load).source graph h
  | resume load graph => exact (hF.loads load).source graph h
  | deliver i outcome =>
    intro load hload
    rw [hserver i outcome (.inl rfl)] at hload
    exact (h load hload).grows hF
  | finish i outcome =>
    intro load hload
    rw [hserver i outcome (.inr rfl)] at hload
    exact (h load hload).grows hF

/-! ## Nothing comes up -/

/-- The load is what it was, or it was called off. -/
def Load.Lulls (l l' : Load) : Prop :=
  l' = l ∨ ∃ cause, l' = { l with control := .shared (some cause), graphLoad := none }

/-- Nothing comes up between the states but that signals abort, and that callers leave and loads are
called off for that. -/
structure Lulls (s s' : State) : Prop where
  loads : ∃ change : Load → Load, s'.loads = s.loads.map change ∧ ∀ l : Load, l.Lulls (change l)
  calls : ∀ (i : Nat) (c' : Call), s'.calls[i]? = some c' →
    ∃ c, s.calls[i]? = some c ∧ c.Weathers s' c'
  callCount : s'.calls.length = s.calls.length
  remembers : s.Remembers s'
  queries : s.queries.Subsides s'.queries
  graphs : s.graphs.Subsides s'.graphs
  graphWaiters : ∀ w ∈ s'.graphWaiters, w ∈ s.graphWaiters
  agenda : s'.agenda = s.agenda

theorem Load.Lulls.refl (l : Load) : l.Lulls l := .inl rfl

/-- To call a load off twice is to call it off the second time. -/
theorem Load.Lulls.trans {l' l'' : Load} (h : l.Lulls l') (h' : l'.Lulls l'') : l.Lulls l'' := by
  obtain rfl | ⟨cause, rfl⟩ := h
  · exact h'
  · obtain rfl | ⟨cause', rfl⟩ := h'
    · exact .inr ⟨cause, rfl⟩
    · exact .inr ⟨cause', rfl⟩

/-- A load that was called off is not wanted any more. -/
theorem Load.Lulls.wanted {l' : Load} (h : l.Lulls l') (hs : s.Remembers s') (hoff : ¬ l.Wanted s) :
    ¬ l'.Wanted s' := by
  obtain rfl | ⟨cause, rfl⟩ := h
  · refine fun hwanted => hoff ?_
    unfold Load.Wanted at hwanted ⊢
    cases hcontrol : l'.control with
    | shared aborted =>
      rw [hcontrol] at hwanted
      exact hwanted
    | own call signal =>
      rw [hcontrol] at hwanted
      exact reason?_of_remembers hs hwanted
  · exact fun hwanted => nomatch (hwanted : some cause = none)

namespace Lulls

theorem of_same (hloads : s'.loads = s.loads) (hcalls : s'.calls = s.calls)
    (hsignals : s'.signals = s.signals) (hqueries : s.queries.Subsides s'.queries)
    (hgraphs : s.graphs.Subsides s'.graphs) (hwaiters : s'.graphWaiters = s.graphWaiters)
    (hagenda : s'.agenda = s.agenda) : Lulls s s' where
  loads := ⟨id, hloads.trans (List.map_id _).symm, .refl⟩
  calls := fun _ c hc => ⟨c, hcalls ▸ hc, .refl s' c⟩
  callCount := congrArg List.length hcalls
  remembers := remembers_of_signals hsignals
  queries := hqueries
  graphs := hgraphs
  graphWaiters := fun _ hw => hwaiters ▸ hw
  agenda := hagenda

/-- Notes, the log and the texts noted have no part in it. -/
theorem of_frame (h : Frame s s') (hstarted : s'.graphs.started = s.graphs.started) : Lulls s s' :=
  .of_same h.loads h.calls h.signals h.queriesSubside
    ⟨fun _ => h.graphsHold, fun f hf hattached => ⟨f, h.graphFlights ▸ hf, hattached, rfl, rfl⟩,
      hstarted⟩ h.graphWaiters h.agenda

end Lulls

theorem loads_callOff (s : State) (load : Nat) (signal reason : Text) :
    (s.callOff load signal reason).loads = (s.modifyLoad load fun l =>
      { l with control := .shared (some (signal, reason)), graphLoad := none }).loads := by
  obtain ⟨graphs, waiters, hcallOff, -⟩ := callOff_eq s load signal reason
  rw [hcallOff]

/-- A call that is turned away calls one load off at most. -/
theorem loads_turnAway (s : State) (signal reason : Text) (i : Nat) :
    ∃ change : Load → Load, (s.turnAway signal reason i).loads = s.loads.map change ∧
      ∀ l : Load, l.Lulls (change l) := by
  have hsame : ∃ change : Load → Load, s.loads = s.loads.map change ∧
      ∀ l : Load, l.Lulls (change l) := ⟨id, (List.map_id _).symm, .refl⟩
  obtain hidle | ⟨-, load, -, -, hturned | hturned⟩ := turnAway_cases s signal reason i
  · rw [hidle]
    exact hsame
  · rw [hturned]
    exact hsame
  · rw [hturned]
    refine ⟨_, loads_callOff _ load signal reason, fun l => ?_⟩
    split
    · exact .inr ⟨(signal, reason), rfl⟩
    · exact .refl l

theorem Meanwhile.loads (h : Meanwhile s s') :
    ∃ change : Load → Load, s'.loads = s.loads.map change ∧ ∀ l : Load, l.Lulls (change l) := by
  induction h with
  | refl => exact ⟨id, (List.map_id _).symm, .refl⟩
  | notes _ _ _ _ ih => exact ih
  | advance _ _ ih => exact ih
  | @abort s' _ signal reason ih =>
    refine abort_keeps (P := fun s' => ∃ change : Load → Load, s'.loads = s.loads.map change ∧
      ∀ l : Load, l.Lulls (change l)) ih (fun _ => ih) ?_
    rintro s' i - ⟨change, hchanged, hchange⟩
    obtain ⟨change', hchanged', hchange'⟩ := loads_turnAway s' signal reason i
    refine ⟨change' ∘ change, ?_, fun l => (hchange l).trans (hchange' (change l))⟩
    rw [hchanged', hchanged, List.map_map]

theorem Lulls.meanwhile (h : Meanwhile s s') : Lulls s s' where
  loads := h.loads
  calls := by
    intro i c' hc'
    cases hc : s.calls[i]? with
    | none => exact nomatch (h.aborting.none_made hc).symm.trans hc'
    | some c =>
      obtain ⟨c'', hc'', hweathers⟩ := h.aborting.call hc
      obtain rfl := Option.some.inj (hc'.symm.trans hc'')
      exact ⟨c, rfl, hweathers⟩
  callCount := by
    induction h with
    | refl => rfl
    | notes _ _ _ _ ih => exact ih
    | advance _ _ ih => exact ih
    | abort _ signal reason ih => exact (subsides_abort _ signal reason).callCount.trans ih
  remembers := h.aborting.remembers
  queries := h.aborting.queries
  -- a statement that takes time lets the caches grow old, and an abort only detaches loads
  graphs := by
    induction h with
    | refl => exact .refl _
    | notes _ _ _ _ ih => exact ih
    | advance _ span ih => exact ih.trans (of_frame (frame_advance _ span) rfl).graphs
    | abort _ signal reason ih => exact ih.trans (subsides_abort _ signal reason).graphs
  graphWaiters := by
    induction h with
    | refl => exact fun _ => id
    | notes _ _ _ _ ih => exact ih
    | advance _ _ ih => exact ih
    | abort _ signal reason ih =>
      exact fun w hw => ih w ((subsides_abort _ signal reason).graphWaiters w hw)
  agenda := h.agenda

end IssueQuery.Engine
