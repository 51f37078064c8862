import IssueQuery.Proofs.Engine.Starting
import IssueQuery.Proofs.Engine.Steps

/-!
# Engines that share nothing

An engine that shares nothing starts a load of its own for every call, and the load tells the call
what it came to. Nobody listens to signals, so nobody is turned away; a load only notices when it
looks whether it was called off. So there is a job under way for every call that has not got its
result, and over a store that does not fail it tells the call an outcome unless the signal of the
call has aborted.

* `Solitary`           what holds of such an engine;
* `Lasts`              what stays of its loads and calls;
* `Solitary.step`      every event keeps it so.
-/

namespace IssueQuery.Engine

variable {cfg : Settings} {store : Store} {m : Mark} {s s' s'' : State} {l : Load} {c : Call}
  {job j : Job} {i : Nat} {rest : List (Nat × Job)} {outcome : Except LoadFailure Outcome}
  {graph : Except LoadFailure Graph} {signal : Option Text} {text : Text}

/-! ## Loads with one caller -/

/-- The job goes on with a load, or finishes a call, with nothing but an outcome unless the signal of
the one caller has aborted. -/
def Job.Solitary (store : Store) (s : State) : Job → Prop
  | .resume id graph => ∃ l ∈ s.loads, l.id = id ∧ (l.Wanted s → Succeeds store graph)
  | .finish i outcome =>
    ∃ c, s.calls[i]? = some c ∧ (s.reason? c.signal = none → Succeeds store outcome)
  | .subscribe _ | .settle .. | .settleGraph .. | .deliverGraph .. | .deliver .. => False

/-- Every load has one caller, who does not listen to signals, and a job is under way for everybody
who has not got a result. -/
structure Solitary (store : Store) (s : State) : Prop where
  deaf : ∀ (i : Nat) (c : Call), s.calls[i]? = some c → c.listening = false
  owned : ∀ l ∈ s.loads, ∃ i c, s.calls[i]? = some c ∧ l.control = .own i c.signal
  jobs : ∀ j, s.Pending j → j.Solitary store s
  served : ∀ (i : Nat) (c : Call), s.calls[i]? = some c → c.settled = none →
    ∃ j, s.Pending j ∧ j.Serves s i

/-- Loads stay whose they are, calls keep what they are for, and signals that have aborted keep their
reasons. -/
structure Lasts (s s' : State) : Prop where
  loads : ∀ l ∈ s.loads, ∃ l' ∈ s'.loads, l'.id = l.id ∧ l'.control = l.control
  calls : ∀ (i : Nat) (c : Call), s.calls[i]? = some c →
    ∃ c', s'.calls[i]? = some c' ∧ c'.text = c.text ∧ c'.signal = c.signal
  signals : s.Remembers s'

theorem reason?_of_remembers (hs : s.Remembers s') (hquiet : s'.reason? signal = none) :
    s.reason? signal = none := by
  cases hreason : s.reason? signal with
  | none => rfl
  | some reason => exact nomatch (hs _ _ hreason).symm.trans hquiet

namespace Lasts

theorem of_same (hloads : s'.loads = s.loads) (hcalls : s'.calls = s.calls)
    (hsignals : s.Remembers s') : Lasts s s' where
  loads := fun l hl => ⟨l, hloads ▸ hl, rfl, rfl⟩
  calls := fun _ c hc => ⟨c, hcalls ▸ hc, rfl, rfl⟩
  signals := hsignals

/-- A load that is wanted later is wanted now. -/
theorem wanted (h : Lasts s s') {l' : Load} (hcontrol : l'.control = l.control)
    (hwanted : l'.Wanted s') : l.Wanted s := by
  unfold Load.Wanted at hwanted ⊢
  rw [hcontrol] at hwanted
  cases hown : l.control with
  | shared aborted =>
    rw [hown] at hwanted
    exact hwanted
  | own call signal =>
    rw [hown] at hwanted
    exact reason?_of_remembers h.signals hwanted

theorem solitary (h : Lasts s s') (hj : j.Solitary store s) : j.Solitary store s' := by
  cases j with
  | resume id graph =>
    obtain ⟨l, hl, hid, hok⟩ := hj
    obtain ⟨l', hl', hid', hcontrol⟩ := h.loads l hl
    exact ⟨l', hl', hid'.trans hid, fun hwanted => hok (h.wanted hcontrol hwanted)⟩
  | finish i outcome =>
    obtain ⟨c, hc, hok⟩ := hj
    obtain ⟨c', hc', -, hsignal⟩ := h.calls i c hc
    refine ⟨c', hc', fun hquiet => hok (reason?_of_remembers h.signals ?_)⟩
    rw [← hsignal]
    exact hquiet
  | subscribe _ | settle _ _ | settleGraph _ _ | deliverGraph _ _ | deliver _ _ =>
    exact False.elim hj

theorem serves (h : Lasts s s') (hj : j.Solitary store s) (hserves : j.Serves s i) :
    j.Serves s' i := by
  cases j with
  | resume id graph =>
    obtain ⟨l, hl, hid, signal, hown⟩ := hserves
    obtain ⟨l', hl', hid', hcontrol⟩ := h.loads l hl
    exact ⟨l', hl', hid'.trans hid, signal, hcontrol.trans hown⟩
  | finish k outcome => exact hserves
  | subscribe _ | settle _ _ | settleGraph _ _ | deliverGraph _ _ | deliver _ _ =>
    exact False.elim hj

end Lasts

namespace Solitary

/-- Loads and calls are the same, and so are the jobs under way, in whatever order. -/
theorem of_same (h : Solitary store s) (hloads : s'.loads = s.loads) (hcalls : s'.calls = s.calls)
    (hpending : ∀ j, s'.Pending j ↔ s.Pending j) (hsignals : s.Remembers s') :
    Solitary store s' ∧ Lasts s s' := by
  have hlasts : Lasts s s' := .of_same hloads hcalls hsignals
  refine ⟨⟨hcalls ▸ h.deaf, hloads ▸ hcalls ▸ h.owned, ?_, ?_⟩, hlasts⟩
  · exact fun j hj => hlasts.solitary (h.jobs j ((hpending j).mp hj))
  · intro i c hc hunsettled
    obtain ⟨j, hj, hserves⟩ := h.served i c (hcalls ▸ hc) hunsettled
    exact ⟨j, (hpending j).mpr hj, hlasts.serves (h.jobs j hj) hserves⟩

end Solitary

/-- If nobody listens, then nobody is turned away while the store is asked. -/
theorem Meanwhile.of_deaf (h : Meanwhile s s')
    (hdeaf : ∀ (i : Nat) (c : Call), s.calls[i]? = some c → c.listening = false) :
    s'.loads = s.loads ∧ s'.calls = s.calls := by
  induction h with
  | refl => exact ⟨rfl, rfl⟩
  | notes _ journal asked lines ih => exact ih
  | advance _ span ih => exact ih
  | @abort s' _ signal reason ih =>
    refine abort_keeps (P := fun s'' => s''.loads = s.loads ∧ s''.calls = s.calls) ih (fun _ => ih) ?_
    rintro s'' i ⟨c, hc, hlistens, -⟩ -
    rw [ih.2] at hc
    exact nomatch (hdeaf i c hc).symm.trans hlistens

theorem Solitary.meanwhile (h : Solitary store s) (hs : Meanwhile s s') :
    Solitary store s' ∧ Lasts s s' := by
  obtain ⟨hloads, hcalls⟩ := hs.of_deaf h.deaf
  exact h.of_same hloads hcalls (fun j => by rw [pending_congr hs.agenda]) hs.aborting.remembers

/-! ## Turns -/

/-- Whoever is served by another job than the one that is done now is served as before. -/
theorem pending_tail (hagenda : s.agenda = (0, job) :: rest) (hj : s.Pending j) (hne : j ≠ job) :
    ∃ turns, (turns, j) ∈ rest := by
  obtain ⟨turns, hmem⟩ := hj
  rw [hagenda] at hmem
  obtain hhead | htail := List.mem_cons.mp hmem
  · exact absurd (Prod.mk.inj hhead).2 hne
  · exact ⟨turns, htail⟩

namespace Solitary

/-- The call that the first job is to finish has its result, and nothing else has changed. -/
theorem answered (h : Solitary store s) (hagenda : s.agenda = (0, .finish i outcome) :: rest)
    {change : Call → Call} (hcalls : s'.calls = s.calls.modify i change)
    (hchange : ∀ c, s.calls[i]? = some c → (change c).text = c.text ∧
      (change c).signal = c.signal ∧ (change c).listening = false ∧ (change c).settled ≠ none)
    (hloads : s'.loads = s.loads) (hsignals : s'.signals = s.signals)
    (hagenda' : s'.agenda = rest) : Solitary store s' ∧ Lasts s s' := by
  -- a call of the second state is one of the first one, or the one that has its result
  have hback : ∀ (k : Nat) (c' : Call), s'.calls[k]? = some c' → ∃ c, s.calls[k]? = some c ∧
      (k = i ∧ c' = change c ∨ k ≠ i ∧ c' = c) :=
    fun k c' hc' => getElem?_modify_cases (hcalls ▸ hc')
  have hlasts : Lasts s s' := by
    refine ⟨fun l hl => ⟨l, hloads ▸ hl, rfl, rfl⟩, fun k c hc => ?_, remembers_of_signals hsignals⟩
    rw [hcalls]
    obtain ⟨c', hc', ⟨rfl, rfl⟩ | ⟨-, rfl⟩⟩ := exists_getElem?_modify hc i change
    · obtain ⟨htext, hsignal, -⟩ := hchange c hc
      exact ⟨_, hc', htext, hsignal⟩
    · exact ⟨c', hc', rfl, rfl⟩
  refine ⟨⟨?_, ?_, ?_, ?_⟩, hlasts⟩
  · intro k c' hc'
    obtain ⟨c, hc, ⟨rfl, rfl⟩ | ⟨-, rfl⟩⟩ := hback k c' hc'
    · exact (hchange c hc).2.2.1
    · exact h.deaf k c' hc
  · intro l hl
    obtain ⟨k, c, hc, hown⟩ := h.owned l (hloads ▸ hl)
    obtain ⟨c', hc', -, hsignal⟩ := hlasts.calls k c hc
    exact ⟨k, c', hc', hsignal ▸ hown⟩
  · rintro j ⟨turns, hj⟩
    rw [hagenda'] at hj
    exact hlasts.solitary (h.jobs j ⟨turns, hagenda ▸ List.mem_cons_of_mem _ hj⟩)
  · intro k c' hc' hunsettled
    obtain ⟨c, hc, ⟨rfl, rfl⟩ | ⟨hne, rfl⟩⟩ := hback k c' hc'
    · exact absurd hunsettled (hchange c hc).2.2.2
    · obtain ⟨j, hj, hserves⟩ := h.served k c' hc hunsettled
      obtain ⟨turns, hlater⟩ := pending_tail hagenda hj <| by
        rintro rfl
        exact hne hserves.symm
      exact ⟨j, ⟨turns, hagenda' ▸ hlater⟩, hlasts.serves (h.jobs j hj) hserves⟩

theorem finish (h : Solitary store s) (hagenda : s.agenda = (0, .finish i outcome) :: rest)
    (hs : Performed cfg store { s with agenda := rest } (.finish i outcome) s') :
    Solitary store s' ∧ Lasts s s' := by
  cases hs with
  | finishedLate _ hsettled =>
    exact h.answered hagenda (List.modify_id i s.calls).symm
      (fun c hc => ⟨rfl, rfl, h.deaf i c hc, hsettled c hc⟩) rfl rfl rfl
  | @finished _ c =>
    have hframe := frame_finishWith cfg { s with agenda := rest } i
      (resultOf { s with agenda := rest } c outcome)
    exact h.answered hagenda hframe.calls (fun _ _ => ⟨rfl, rfl, rfl, nofun⟩) hframe.loads
      hframe.signals hframe.agenda

/-- The load that the first job goes on with has ended. -/
theorem conclude (h : Solitary store s) (ht : Traced store m s)
    (hagenda : s.agenda = (0, .resume l.id graph) :: rest) (hl : l ∈ s.loads)
    (hloads : s'.loads = s.loads) (hcalls : s'.calls = s.calls) (hagenda' : s'.agenda = rest)
    (hsignals : s.Remembers s') (hok : l.Wanted s' → Succeeds store outcome) :
    Solitary store (conclude s' l outcome) ∧ Lasts s (conclude s' l outcome) := by
  obtain ⟨turns, hconclude⟩ := conclude_eq s' l outcome
  have hlasts : Lasts s (s'.schedule turns (endJob l outcome)) := .of_same hloads hcalls hsignals
  have hpending : (s'.schedule turns (endJob l outcome)).agenda =
      rest ++ [(turns, endJob l outcome)] := by
    rw [← hagenda']
    rfl
  obtain ⟨i, c, hc, hown⟩ := h.owned l hl
  have hend : endJob l outcome = .finish i outcome := by rw [endJob, hown]
  rw [hconclude]
  refine ⟨⟨hcalls ▸ h.deaf, ?_, ?_, ?_⟩, hlasts⟩
  · show ∀ l' ∈ s'.loads, ∃ i c, s'.calls[i]? = some c ∧ l'.control = .own i c.signal
    rw [hloads, hcalls]
    exact h.owned
  · rintro j ⟨later, hj⟩
    rw [hpending] at hj
    obtain hold | hnew := List.mem_append.mp hj
    · exact hlasts.solitary (h.jobs j ⟨later, hagenda ▸ List.mem_cons_of_mem _ hold⟩)
    · obtain ⟨-, rfl⟩ := Prod.mk.inj (List.mem_singleton.mp hnew)
      rw [hend]
      refine ⟨c, hcalls ▸ hc, fun hquiet => hok ?_⟩
      rw [Load.Wanted, hown]
      exact hquiet
  · intro k c' hc' hunsettled
    obtain ⟨j, hj, hserves⟩ := h.served k c' (hcalls ▸ hc') hunsettled
    -- whom the job in hand serves is served by the one that ends the load
    by_cases hdone : j = .resume l.id graph
    · subst hdone
      have hsame : (endJob l outcome).Serves s k ↔ (Job.resume l.id graph).Serves s k :=
        endJob_serves ht.distinct hl
      have hends := hsame.mpr hserves
      rw [hend] at hends hpending ⊢
      exact ⟨.finish i outcome, ⟨turns, hpending ▸ List.mem_append_right _ List.mem_cons_self⟩,
        hends⟩
    · obtain ⟨turns', hlater⟩ := pending_tail hagenda hj hdone
      exact ⟨j, ⟨turns', hpending ▸ List.mem_append_left _ hlater⟩,
        hlasts.serves (h.jobs j hj) hserves⟩

theorem resume (h : Solitary store s) (ht : Traced store m s) {id : Nat}
    (hagenda : s.agenda = (0, .resume id graph) :: rest)
    (hs : Performed cfg store { s with agenda := rest } (.resume id graph) s') :
    Solitary store s' ∧ Lasts s s' := by
  obtain ⟨l, hl, rfl, hok⟩ := h.jobs (.resume id graph) (pending_head hagenda)
  have hload : State.load? { s with agenda := rest } l.id = some l := load?_eq_some ht.distinct hl
  cases hs with
  | unknown _ hnone => cases hnone.symm.trans hload
  | graphless e hfound =>
    obtain rfl := Option.some.inj (hload.symm.trans hfound)
    exact h.conclude ht hagenda hl rfl rfl rfl (fun _ _ => id) fun hwanted => hok hwanted
  | plain found hfound =>
    obtain rfl := Option.some.inj (hload.symm.trans hfound)
    exact h.conclude ht hagenda hl rfl rfl rfl (fun _ _ => id) fun _ => succeeds_ok store _
  | @expanded _ _ e found hfound =>
    -- the load may be called off while the store is asked for what it expands to
    obtain rfl := Option.some.inj (hload.symm.trans hfound)
    have hproceeds : Proceeds store l.id (expand cfg store l.id l.base e found) :=
      proceeds_expand cfg l.base e found
    obtain ⟨hmeanwhile, hsucceeds⟩ := hproceeds { s with agenda := rest }
    obtain ⟨hloads, hcalls⟩ := hmeanwhile.of_deaf h.deaf
    have hload' : (expand cfg store l.id l.base e found { s with agenda := rest }).2.load? l.id =
        some l := by
      rw [State.load?, hloads]
      exact hload
    exact h.conclude ht hagenda hl hloads hcalls hmeanwhile.agenda hmeanwhile.aborting.remembers
      fun hwanted hstore => hsucceeds hstore ((calledOff?_eq_none hload').mpr hwanted)

theorem tick (h : Solitary store s) (ht : Traced store m s) (hs : Ticked cfg store s s') :
    Solitary store s' ∧ Lasts s s' := by
  cases hs with
  | idle => exact h.of_same rfl rfl (fun _ => .rfl) fun _ _ => id
  | @due job rest _ hagenda hs =>
    have hjob := h.jobs job (pending_head hagenda)
    cases job with
    | resume id graph => exact h.resume ht hagenda hs
    | finish i outcome => exact h.finish hagenda hs
    | subscribe _ | settle _ _ | settleGraph _ _ | deliverGraph _ _ | deliver _ _ =>
      exact False.elim hjob
  | putOff hagenda =>
    exact h.of_same rfl rfl (fun j => iff_of_eq (congrFun (pending_putOff hagenda) j))
      fun _ _ => id

end Solitary

/-! ## Loads that start -/

/-- The load has been added, and nothing else has happened to loads, calls and jobs. -/
structure Gains (s s' : State) (l : Load) : Prop where
  calls : s'.calls = s.calls
  loads : s'.loads = s.loads ++ [l]
  agenda : s'.agenda = s.agenda
  signals : s.Remembers s'

/-- A load with one caller has been added, and a job is under way that tells the caller an outcome, or
brings the load there, unless the signal of the caller has aborted. -/
def Leaves (store : Store) (s s' : State) (l : Load) (i : Nat) (signal : Option Text) : Prop :=
  ∃ s₁ base turns job, Gains s s₁ { l with base := base } ∧ s' = s₁.schedule turns job ∧
    ((∃ outcome, job = .finish i outcome ∧ (s₁.reason? signal = none → Succeeds store outcome)) ∨
      ∃ graph, job = .resume l.id graph ∧ (s₁.reason? signal = none → Succeeds store graph))

namespace Gains

theorem meanwhile (h : Gains s s' l)
    (hdeaf : ∀ (i : Nat) (c : Call), s.calls[i]? = some c → c.listening = false)
    (hs : Meanwhile s' s'') : Gains s s'' l := by
  obtain ⟨hloads, hcalls⟩ := hs.of_deaf (h.calls ▸ hdeaf)
  exact ⟨hcalls.trans h.calls, hloads.trans h.loads, hs.agenda.trans h.agenda,
    fun name reason hreason => hs.aborting.remembers _ _ (h.signals name reason hreason)⟩

theorem load? (h : Gains s s' l) (hnew : ∀ l' ∈ s.loads, l'.id ≠ l.id) : s'.load? l.id = some l := by
  have hnone : s.loads.find? (fun l' => l'.id == l.id) = none :=
    List.find?_eq_none.mpr fun l' hl' => by simpa using hnew l' hl'
  simp [State.load?, h.loads, List.find?_append, hnone]

theorem setBase (h : Gains s s' l) (hnew : ∀ l' ∈ s.loads, l'.id ≠ l.id) (base : List Issue) :
    Gains s (s'.modifyLoad l.id fun l => { l with base := base }) { l with base := base } where
  calls := h.calls
  loads := by
    have hold : s.loads.map (fun l' => if l'.id = l.id then { l' with base := base } else l') =
        s.loads := by
      rw [← List.map_id s.loads, List.map_map]
      exact List.map_congr_left fun l' hl' => if_neg (hnew l' hl')
    rw [State.modifyLoad, h.loads, List.map_append, hold, List.map_singleton, if_pos rfl]
  agenda := h.agenda
  signals := h.signals

end Gains

/-- A load with one caller is called off when the signal of that has aborted. -/
theorem calledOff?_own {id : Nat} (hload : s.load? id = some l)
    (hown : l.control = .own i signal) : s.calledOff? id = none ↔ s.reason? signal = none := by
  obtain ⟨-, rfl⟩ := mem_of_load? hload
  rw [calledOff?_eq_none hload, Load.Wanted, hown]

theorem leaves_turnToGraph {base : List Issue}
    (h : Gains s s' { l with base := base })
    (hdeaf : ∀ (i : Nat) (c : Call), s.calls[i]? = some c → c.listening = false)
    (hnew : ∀ l' ∈ s.loads, l'.id ≠ l.id) (hown : l.control = .own i signal) :
    Leaves store s (turnToGraph cfg store s' l) l i signal := by
  unfold turnToGraph
  split
  · rename_i name reason hoff
    refine ⟨s', base, 0, _, h, rfl, .inr ⟨_, rfl, fun hquiet _ => ?_⟩⟩
    exact nomatch hoff.symm.trans ((calledOff?_own (h.load? hnew) hown).mpr hquiet)
  · rw [hown]
    have hproceeds : Proceeds store l.id (staged .graph (loadGraph store)) := proceeds_loadGraph
    obtain ⟨hmeanwhile, hsucceeds⟩ := hproceeds s'
    have hasked := h.meanwhile hdeaf hmeanwhile
    exact ⟨_, base, 2, _, hasked, rfl, .inr ⟨_, rfl, fun hquiet hstore =>
      hsucceeds hstore ((calledOff?_own (hasked.load? hnew) hown).mpr hquiet)⟩⟩

theorem leaves_startLoad
    (hdeaf : ∀ (i : Nat) (c : Call), s.calls[i]? = some c → c.listening = false)
    (hnew : ∀ l' ∈ s.loads, l'.id ≠ l.id) (hown : l.control = .own i signal) {selection : Selection}
    (hselect : l.query.select = .ok selection) :
    Leaves store s (startLoad cfg store s l) l i signal := by
  have hproceeds : Proceeds store l.id (fetchBase store l.id l.query) := proceeds_fetchBase hselect
  obtain ⟨hmeanwhile, hsucceeds⟩ := hproceeds { s with loads := s.loads ++ [l] }
  have hadded : Gains s { s with loads := s.loads ++ [l] } l := ⟨rfl, rfl, rfl, fun _ _ => id⟩
  have hfetched := hadded.meanwhile hdeaf hmeanwhile
  obtain ⟨expanding, outcome, hends, hstart⟩ | ⟨base, e, -, -, -, hstart⟩ :=
    startLoad_cases cfg store s l
  · obtain ⟨turns, hconclude⟩ := concludeEarly_eq
      (fetchBase store l.id l.query { s with loads := s.loads ++ [l] }).2 l expanding outcome
    have hend : endJob l outcome = .finish i outcome := by rw [endJob, hown]
    rw [hstart, hconclude, hend]
    refine ⟨_, l.base, turns, _, hfetched, rfl, .inl ⟨outcome, rfl, fun hquiet hstore => ?_⟩⟩
    -- the load succeeds unless the signal of its own call was given meanwhile
    have hok := hsucceeds hstore ((calledOff?_own (hfetched.load? hnew) hown).mpr hquiet)
    generalize (fetchBase store l.id l.query { s with loads := s.loads ++ [l] }).1 = fetched
      at hends hok
    cases hends with
    | failed e => exact hok
    | plain base he => rfl
    | empty e he => rfl
  · rw [hstart]
    exact leaves_turnToGraph (hfetched.setBase hnew base) hdeaf hnew hown

/-! ## Calls and other events -/

namespace Solitary

/-- A call is made, and loads and jobs are added for it. -/
theorem addCall (h : Solitary store s) (more : List Load) (items : List (Nat × Job))
    (hcalls : s'.calls = s.calls ++ [c]) (hdeaf : c.listening = false)
    (hloads : s'.loads = s.loads ++ more)
    (howned : ∀ l ∈ more, l.control = .own s.calls.length c.signal)
    (hagenda : s'.agenda = s.agenda ++ items) (hsignals : s.Remembers s')
    (hjobs : ∀ p ∈ items, p.2.Solitary store s')
    (hserved : c.settled = none → ∃ p ∈ items, p.2.Serves s' s.calls.length) :
    Solitary store s' ∧ Lasts s s' := by
  have hkept : ∀ (k : Nat) (c' : Call), s.calls[k]? = some c' → s'.calls[k]? = some c' :=
    fun k c' hc' => hcalls ▸ getElem?_concat hc' c
  have hlast : s'.calls[s.calls.length]? = some c := hcalls ▸ List.getElem?_concat_length
  -- the calls in front keep their numbers, and the new one is the last
  have hback : ∀ (k : Nat) (c' : Call), s'.calls[k]? = some c' →
      s.calls[k]? = some c' ∨ k = s.calls.length ∧ c' = c :=
    fun k c' hc' => getElem?_concat_cases (hcalls ▸ hc')
  have hlasts : Lasts s s' :=
    ⟨fun l hl => ⟨l, hloads ▸ List.mem_append_left _ hl, rfl, rfl⟩,
      fun k c' hc' => ⟨c', hkept k c' hc', rfl, rfl⟩, hsignals⟩
  refine ⟨⟨?_, ?_, ?_, ?_⟩, hlasts⟩
  · intro k c' hc'
    obtain hold | ⟨-, rfl⟩ := hback k c' hc'
    · exact h.deaf k c' hold
    · exact hdeaf
  · intro l hl
    rw [hloads] at hl
    obtain hold | hnew := List.mem_append.mp hl
    · obtain ⟨k, c', hc', hown⟩ := h.owned l hold
      exact ⟨k, c', hkept k c' hc', hown⟩
    · exact ⟨_, c, hlast, howned l hnew⟩
  · rintro j ⟨turns, hj⟩
    rw [hagenda] at hj
    obtain hold | hnew := List.mem_append.mp hj
    · exact hlasts.solitary (h.jobs j ⟨turns, hold⟩)
    · exact hjobs _ hnew
  · intro k c' hc' hunsettled
    obtain hold | ⟨rfl, rfl⟩ := hback k c' hc'
    · obtain ⟨j, ⟨turns, hj⟩, hserves⟩ := h.served k c' hold hunsettled
      exact ⟨j, ⟨turns, hagenda ▸ List.mem_append_left _ hj⟩,
        hlasts.serves (h.jobs j ⟨turns, hj⟩) hserves⟩
    · obtain ⟨⟨turns, j⟩, hj, hserves⟩ := hserved hunsettled
      exact ⟨j, ⟨turns, hagenda ▸ List.mem_append_right _ hj⟩, hserves⟩

theorem called (h : Solitary store s) (ht : Traced store m s) (hoff : cfg.disabled = true)
    (hcalled : Called cfg store s text signal s') :
    Solitary store s' ∧ Lasts s s' := by
  cases hcalled with
  | rejected texts rejection lines hcause =>
    exact h.addCall [] [] (modify_length_append s.calls _ _) rfl (List.append_nil _).symm
      (fun _ hl => nomatch hl) (List.append_nil _).symm (fun _ _ => id) (fun _ hp => nomatch hp)
      nofun
  -- nobody loads by a cache that is disabled
  | kept texts queries out hon => exact nomatch hoff.symm.trans hon
  | joined texts queries load hon => exact nomatch hoff.symm.trans hon
  | shared texts queries q hon => exact nomatch hoff.symm.trans hon
  | own texts q _ hquery hquiet =>
    obtain ⟨selection, hselect⟩ := Query.select_of_check (check_of_readQuery hquery)
    let made := s.made text signal texts s.queries.startUnshared.2
    let c : Call := ⟨text, signal, s.now, none, false, none⟩
    let l : Load := ⟨s.queries.started, q, .own s.calls.length signal, [], none, [], none⟩
    -- nobody listens, so an abort during the first statements settles no call
    have hdeaf : ∀ (i : Nat) (c : Call), made.calls[i]? = some c → c.listening = false := by
      intro i c hc
      obtain hold | ⟨-, rfl⟩ := getElem?_concat_cases hc
      · exact h.deaf i c hold
      · rfl
    obtain ⟨s₁, base, turns, job, hgains, hsame, hjob⟩ :
        Leaves store made (startLoad cfg store made l) l s.calls.length signal :=
      leaves_startLoad hdeaf ht.fresh_started rfl hselect
    have hlast : s₁.calls[s.calls.length]? = some c :=
      hgains.calls ▸ List.getElem?_concat_length
    have hmem : { l with base := base } ∈ s₁.loads :=
      hgains.loads ▸ List.mem_append_right _ (List.mem_singleton.mpr rfl)
    rw [hsame]
    refine h.addCall (c := c) _ _ hgains.calls rfl hgains.loads
      (fun l' hl' => List.mem_singleton.mp hl' ▸ rfl) (congrArg (· ++ _) hgains.agenda)
      hgains.signals (List.forall_mem_singleton.mpr ?_)
      fun _ => ⟨_, List.mem_singleton.mpr rfl, ?_⟩
    · obtain ⟨outcome, rfl, hok⟩ | ⟨graph, rfl, hok⟩ := hjob
      · exact ⟨c, hlast, hok⟩
      · exact ⟨_, hmem, rfl, hok⟩
    · obtain ⟨outcome, rfl, hok⟩ | ⟨graph, rfl, hok⟩ := hjob
      · exact rfl
      · exact ⟨_, hmem, rfl, signal, rfl⟩

/-- Every event keeps it so that everybody is seen to. -/
theorem step (h : Solitary store s) (ht : Traced store m s) (hoff : cfg.disabled = true)
    (event : Event) :
    Solitary store (step cfg store s event) ∧ Lasts s (step cfg store s event) := by
  cases event with
  | call text signal => exact h.called ht hoff (Engine.called cfg store s text signal)
  | tick => exact h.tick ht (ticked cfg store s)
  | abort signal reason => exact h.meanwhile ((Meanwhile.refl s).abort signal reason)
  | invalidate => exact h.of_same rfl rfl (fun _ => .rfl) fun _ _ => id
  | invalidateGraph => exact h.of_same rfl rfl (fun _ => .rfl) fun _ _ => id
  | advance span => exact h.of_same rfl rfl (fun _ => .rfl) fun _ _ => id
  | close => exact h.of_same rfl rfl (fun _ => .rfl) fun _ _ => id

end Solitary

theorem solitary_new (now : Time) (queries : TtlCache Text Outcome) (graphs : TtlCache Unit Graph) :
    Solitary store (.new now queries graphs) where
  deaf := fun _ _ hc => nomatch hc
  owned := fun _ hl => nomatch hl
  jobs := fun _ ⟨_, hj⟩ => nomatch hj
  served := fun _ _ hc => nomatch hc

end IssueQuery.Engine
