import IssueQuery.Proofs.Engine.Calls
import IssueQuery.Proofs.Engine.Subsiding

/-!
# What aborts do to the calls

Most of what an engine does changes neither its calls nor the loads that they wait for, but that
signals may abort meanwhile: starting a load is of that kind, and so is every job that asks the
store. A call is turned away then if it carries the signal and listens, and no other call is.

* `Aborting`             nothing changes but what aborts change;
* `Aborting.call`        what becomes of a call;
* `Aborting.free`        a call that has no load stays as it is;
* `Lone`, `Gone`         a call that is alone with its load, before and behind the abort of its
  signal;
* `aborting_startLoad`, `Performed.aborting` what is of that kind.
-/

namespace IssueQuery.Engine

variable {s s' s'' : State} {c : Call} {i load : Nat} {signal reason : Text}

/-! ## Nothing but aborts -/

/-- Calls, signals and the loads of results are the same; kept results may have expired. -/
structure Apart (s s' : State) : Prop where
  calls : s'.calls = s.calls
  signals : s'.signals = s.signals
  flights : s'.queries.flights = s.queries.flights
  started : s'.queries.started = s.queries.started
  holds : ∀ text outcome, s'.queries.store.Holds text outcome → s.queries.store.Holds text outcome

/-- Nothing has happened to the calls and to the loads of results but that signals have aborted. -/
inductive Aborting : State → State → Prop
  | refl (s : State) : Aborting s s
  | apart {s s' s'' : State} (h : Aborting s s') (hsame : Apart s' s'') : Aborting s s''
  | abort {s s' : State} (h : Aborting s s') (signal reason : Text) :
    Aborting s (s'.abort signal reason)

theorem apart_of_eq (hcalls : s'.calls = s.calls) (hsignals : s'.signals = s.signals)
    (hqueries : s'.queries = s.queries) : Apart s s' :=
  ⟨hcalls, hsignals, by rw [hqueries], by rw [hqueries], fun _ _ => by rw [hqueries]; exact id⟩

theorem Aborting.trans (h : Aborting s s') (h' : Aborting s' s'') : Aborting s s'' := by
  induction h' with
  | refl => exact h
  | apart _ hsame ih => exact ih.apart hsame
  | abort _ signal reason ih => exact ih.abort signal reason

theorem Aborting.of_eq (hcalls : s'.calls = s.calls) (hsignals : s'.signals = s.signals)
    (hqueries : s'.queries = s.queries) : Aborting s s' :=
  (Aborting.refl s).apart (apart_of_eq hcalls hsignals hqueries)

/-- Whatever happens while the store is asked is of that kind. -/
theorem Meanwhile.aborting (h : Meanwhile s s') : Aborting s s' := by
  induction h with
  | refl => exact .refl s
  | notes _ journal asked lines ih => exact ih.apart (apart_of_eq rfl rfl rfl)
  | advance _ span ih => exact ih.apart ⟨rfl, rfl, rfl, rfl, fun _ _ => TtlCache.holds_advance⟩
  | abort _ signal reason ih => exact ih.abort signal reason

/-! ## What becomes of calls -/

/-- The call has been turned away with the reason of its signal. -/
def Call.Rejected (s : State) (c : Call) : Prop :=
  ∃ reason, s.reason? c.signal = some reason ∧ c.settled = some (.error (.aborted reason))

/-- The one call has become the other one, but for having been turned away perhaps. -/
structure Call.Weathers (s : State) (c c' : Call) : Prop where
  text : c'.text = c.text
  signal : c'.signal = c.signal
  load : c'.load = c.load
  settled : c'.settled = c.settled ∨ c'.Rejected s

theorem Call.Weathers.refl (s : State) (c : Call) : c.Weathers s c := ⟨rfl, rfl, rfl, .inl rfl⟩

/-- Signals that have aborted keep their reasons. -/
def State.Remembers (s s' : State) : Prop :=
  ∀ name reason, s.reason? name = some reason → s'.reason? name = some reason

theorem Call.Weathers.mono {c' : Call} (h : c.Weathers s c') (hs : s.Remembers s') :
    c.Weathers s' c' :=
  { h with
    settled := h.settled.imp_right fun ⟨reason, hreason, hsettled⟩ =>
      ⟨reason, hs _ _ hreason, hsettled⟩ }

theorem Call.Weathers.trans {c' c'' : Call} (h : c.Weathers s c') (h' : c'.Weathers s' c'')
    (hs : s.Remembers s') : c.Weathers s' c'' where
  text := h'.text.trans h.text
  signal := h'.signal.trans h.signal
  load := h'.load.trans h.load
  settled := by
    obtain hsame | hrejected := h'.settled
    · obtain hkept | ⟨reason, hreason, hsettled⟩ := h.settled
      · exact .inl (hsame.trans hkept)
      · refine .inr ⟨reason, ?_, hsame.trans hsettled⟩
        rw [h'.signal]
        exact hs _ _ hreason
    · exact .inr hrejected

/-- The reason of a signal is the one that it is first aborted with. -/
theorem reason?_abort (hquiet : s.reason? (some signal) = none) :
    (s.abort signal reason).reason? (some signal) = some reason := by
  have hfold : ∀ (leaving : List Nat) (s : State),
      (leaving.foldl (fun s i => s.turnAway signal reason i) s).signals = s.signals := by
    intro leaving
    induction leaving with
    | nil => exact fun _ => rfl
    | cons i rest ih => exact fun s => (ih _).trans (turnAway_same s signal reason i).1
  have hlookup : s.signals.lookup signal = none := hquiet
  rw [State.reason?, abort_eq hquiet, hfold]
  simp [List.lookup_append, hlookup]

/-- An abort turns a call away, or leaves it as it is. -/
theorem weathers_abort (hc : s.calls[i]? = some c) (signal reason : Text) :
    ∃ c', (s.abort signal reason).calls[i]? = some c' ∧
      c.Weathers (s.abort signal reason) c' := by
  by_cases hquiet : s.reason? (some signal) = none
  · let P : State → Prop := fun s' => ∃ c', s'.calls[i]? = some c' ∧ c'.text = c.text ∧
      c'.signal = c.signal ∧ c'.load = c.load ∧ (c'.settled = c.settled ∨
        c.signal = some signal ∧ c'.settled = some (.error (.aborted reason)))
    have hend : P (s.abort signal reason) := by
      have hstart : P s := ⟨c, hc, rfl, rfl, rfl, .inl rfl⟩
      apply abort_keeps hstart fun _ => hstart
      rintro s' j ⟨c₀, hc₀, -, hcarries⟩ ⟨c', hc', htext, hsignal, hload, hsettled⟩
      obtain hsame | ⟨-, -, -, -, -, hcalls⟩ := turnAway_leaves s' signal reason j
      · rw [hsame]
        exact ⟨c', hc', htext, hsignal, hload, hsettled⟩
      · by_cases hj : j = i
        · -- the call itself is turned away, so it carries the signal
          obtain rfl := Option.some.inj (hc.symm.trans (hj ▸ hc₀))
          refine ⟨{ c' with settled := some (.error (.aborted reason)), listening := false }, ?_,
            htext, hsignal, hload, .inr ⟨hcarries, rfl⟩⟩
          rw [hcalls, hj, List.getElem?_modify_eq, hc']
          rfl
        · refine ⟨c', ?_, htext, hsignal, hload, hsettled⟩
          rw [hcalls, List.getElem?_modify_ne _ _ hj]
          exact hc'
    obtain ⟨c', hc', htext, hsignal, hload, hsettled⟩ := hend
    refine ⟨c', hc', htext, hsignal, hload, hsettled.imp_right ?_⟩
    rintro ⟨hcarries, hrejected⟩
    refine ⟨reason, ?_, hrejected⟩
    rw [hsignal, hcarries]
    exact reason?_abort hquiet
  · rw [abort_again hquiet]
    exact ⟨c, hc, .refl s c⟩

theorem remembers_abort (s : State) (signal reason : Text) :
    s.Remembers (s.abort signal reason) := by
  intro name reason' hreason
  refine abort_keeps (P := fun s' => s'.reason? name = some reason') hreason
    (fun _ => reason?_append hreason _) fun s' i _ hkept => ?_
  rw [reason?_turnAway]
  exact hkept

namespace Aborting

theorem queries (h : Aborting s s') : s.queries.Subsides s'.queries := by
  induction h with
  | refl => exact .refl s.queries
  | apart _ hsame ih =>
    apply ih.trans
    exact ⟨hsame.holds, fun f hf hattached => ⟨f, hsame.flights ▸ hf, hattached, rfl, rfl⟩,
      hsame.started⟩
  | abort _ signal reason ih =>
    refine abort_keeps (P := fun s' => s.queries.Subsides s'.queries) ih (fun _ => ih) ?_
    intro s' i _ hsubsides
    obtain hsame | ⟨-, load, -, -, hqueries, -⟩ := turnAway_leaves s' signal reason i
    · rw [hsame]
      exact hsubsides
    · rw [hqueries]
      exact hsubsides.trans (.leave s'.queries load)

theorem remembers (h : Aborting s s') : s.Remembers s' := by
  intro name reason hreason
  induction h with
  | refl => exact hreason
  | apart _ hsame ih =>
    rw [reason?_congr hsame.signals]
    exact ih
  | abort _ signal reason' ih => exact remembers_abort _ signal reason' name reason ih

/-- No call is made. -/
theorem none_made (h : Aborting s s') (hnew : s.calls[i]? = none) : s'.calls[i]? = none := by
  induction h with
  | refl => exact hnew
  | apart _ hsame ih => rw [hsame.calls]; exact ih
  | abort _ signal reason ih =>
    refine abort_keeps (P := fun s' => s'.calls[i]? = none) ih (fun _ => ih) ?_
    intro s' j _ hnone
    obtain hsame | ⟨-, -, -, -, -, hcalls⟩ := turnAway_leaves s' signal reason j
    · rw [hsame]
      exact hnone
    · rw [hcalls, List.getElem?_modify, hnone]
      rfl

/-- A call that has no load stays as it is. -/
theorem free (h : Aborting s s') (hc : s.calls[i]? = some c) (hfree : c.load = none) :
    s'.calls[i]? = some c := by
  induction h with
  | refl => exact hc
  | apart _ hsame ih => rw [hsame.calls]; exact ih
  | abort _ signal reason ih =>
    refine abort_keeps (P := fun s' => s'.calls[i]? = some c) ih (fun _ => ih) ?_
    intro s' j _ hc'
    obtain hsame | ⟨c', load, hj, hload, -, hcalls⟩ := turnAway_leaves s' signal reason j
    · rw [hsame]
      exact hc'
    · have hne : j ≠ i := by
        rintro rfl
        obtain rfl := Option.some.inj (hj.symm.trans hc')
        exact nomatch hload.symm.trans hfree
      rw [hcalls, List.getElem?_modify_ne _ _ hne]
      exact hc'

/-- A call keeps what it is for, and gets nothing but the reason of its signal. -/
theorem call (h : Aborting s s') (hc : s.calls[i]? = some c) :
    ∃ c', s'.calls[i]? = some c' ∧ c.Weathers s' c' := by
  induction h with
  | refl => exact ⟨c, hc, .refl _ c⟩
  | apart _ hsame ih =>
    obtain ⟨c', hc', hweathers⟩ := ih
    refine ⟨c', hsame.calls ▸ hc', hweathers.mono fun name reason hreason => ?_⟩
    rw [reason?_congr hsame.signals]
    exact hreason
  | abort _ signal reason ih =>
    obtain ⟨c', hc', hweathers⟩ := ih
    obtain ⟨c'', hc'', hweathers'⟩ := weathers_abort hc' signal reason
    exact ⟨c'', hc'', hweathers.trans hweathers' (remembers_abort _ signal reason)⟩

end Aborting

/-! ## Calls on the count of a load -/

/-- The number of calls that have a load, whether or not they have their result. -/
def claims (calls : List Call) (load : Nat) : Nat := calls.countP fun c => c.load == some load

/-- Each load counts as many callers as there are calls that have it, and some that will have it.
The calls that have it are calls of its text. -/
structure Tallied (queries : ReadThrough Text Outcome) (calls : List Call) (coming : Nat → Nat) :
    Prop where
  distinct : queries.Distinct
  count : ∀ f ∈ queries.flights, f.waiters = claims calls f.id + coming f.id
  keyed : ∀ f ∈ queries.flights, ∀ c ∈ calls, c.load = some f.id → c.text = f.key

/-- The calls have the same loads as before, and no call has become one of another text. -/
structure SameClaims (calls calls' : List Call) : Prop where
  claims : ∀ load, claims calls' load = claims calls load
  calls : ∀ c' ∈ calls', ∀ load, c'.load = some load →
    ∃ c ∈ calls, c.load = some load ∧ c.text = c'.text

theorem SameClaims.refl (calls : List Call) : SameClaims calls calls :=
  ⟨fun _ => rfl, fun c hc _ hload => ⟨c, hc, hload, rfl⟩⟩

theorem mem_modify {calls : List Call} {change : Call → Call} {c' : Call}
    (h : c' ∈ calls.modify i change) : ∃ c ∈ calls, c' = c ∨ calls[i]? = some c ∧ c' = change c := by
  obtain ⟨j, hj⟩ := List.mem_iff_getElem?.mp h
  obtain ⟨c, hc, ⟨rfl, rfl⟩ | ⟨-, rfl⟩⟩ := getElem?_modify_cases hj
  · exact ⟨c, List.mem_of_getElem? hc, .inr ⟨hc, rfl⟩⟩
  · exact ⟨c', List.mem_of_getElem? hc, .inl rfl⟩

theorem claims_modify {calls : List Call} (hc : calls[i]? = some c) (change : Call → Call)
    (load : Nat) :
    claims (calls.modify i change) load + (if c.load == some load then 1 else 0) =
      claims calls load + if (change c).load == some load then 1 else 0 :=
  countP_modify hc

theorem sameClaims_modify {calls : List Call} {change : Call → Call}
    (hload : ∀ c, (change c).load = c.load) (htext : ∀ c, (change c).text = c.text) :
    SameClaims calls (calls.modify i change) where
  claims := by
    intro load
    cases hc : calls[i]? with
    | none =>
      have hsame : calls.modify i change = calls :=
        List.modify_eq_self (List.getElem?_eq_none_iff.mp hc)
      rw [hsame]
    | some c =>
      have hcount := claims_modify hc change load
      rw [hload c] at hcount
      exact Nat.add_right_cancel hcount
  calls := by
    intro c' hc' load hclaims
    obtain ⟨c, hc, rfl | ⟨-, rfl⟩⟩ := mem_modify hc'
    · exact ⟨c', hc, hclaims, rfl⟩
    · exact ⟨c, hc, (hload c).symm.trans hclaims, (htext c).symm⟩

theorem Tallied.mono {queries queries' : ReadThrough Text Outcome} {calls calls' : List Call}
    {coming : Nat → Nat} (h : Tallied queries calls coming) (hdistinct : queries'.Distinct)
    (hflights : ∀ f ∈ queries'.flights,
      ∃ g ∈ queries.flights, g.id = f.id ∧ g.waiters = f.waiters ∧ g.key = f.key)
    (hcalls : SameClaims calls calls') : Tallied queries' calls' coming where
  distinct := hdistinct
  count := by
    intro f hf
    obtain ⟨g, hg, hid, hwaiters, -⟩ := hflights f hf
    rw [hcalls.claims, ← hid, ← hwaiters]
    exact h.count g hg
  keyed := by
    intro f hf c' hc' hload
    obtain ⟨g, hg, hid, -, hkey⟩ := hflights f hf
    obtain ⟨c, hc, hclaims, htext⟩ := hcalls.calls c' hc' f.id hload
    rw [← htext, ← hkey]
    exact h.keyed g hg c hc (hid ▸ hclaims)

theorem claims_eq_zero {calls : List Call} :
    claims calls load = 0 ↔ ∀ (i : Nat) (c : Call), calls[i]? = some c → c.load ≠ some load := by
  unfold claims
  rw [List.countP_eq_zero]
  constructor
  · intro hnone i c hc hload
    exact hnone c (List.mem_of_getElem? hc) (by rw [hload]; exact beq_self_eq_true _)
  · intro hnone c hc hload
    obtain ⟨i, hi⟩ := List.mem_iff_getElem?.mp hc
    exact hnone i c hi (by simpa using hload)

/-- The load is under way, and no call has it. -/
structure Unclaimed (s : State) (f : Flight Text) : Prop where
  nobody : ∀ (i : Nat) (c : Call), s.calls[i]? = some c → c.load ≠ some f.id
  there : f ∈ s.queries.flights
  only : ∀ g ∈ s.queries.flights, g.id = f.id → g = f

theorem Unclaimed.turnAway {f : Flight Text} (h : Unclaimed s f) (signal reason : Text) (i : Nat) :
    Unclaimed (s.turnAway signal reason i) f := by
  obtain hsame | ⟨c, left, hc, hload, hqueries, hcalls⟩ := turnAway_leaves s signal reason i
  · rw [hsame]
    exact h
  · have hother : f.id ≠ left := fun hsame => h.nobody i c hc (hsame ▸ hload)
    constructor
    · intro j c' hc'
      rw [hcalls] at hc'
      obtain ⟨c₀, hc₀, ⟨-, rfl⟩ | ⟨-, rfl⟩⟩ := getElem?_modify_cases hc'
      · exact h.nobody j c₀ hc₀
      · exact h.nobody j c' hc₀
    · rw [hqueries, ReadThrough.leave_flights]
      exact List.mem_map.mpr ⟨f, h.there, if_neg hother⟩
    · intro g hg hid
      rw [hqueries] at hg
      obtain ⟨g', hg', -, -, -, hsame⟩ := ReadThrough.exists_of_mem_leave hg
      obtain rfl := hsame (hid ▸ hother)
      exact h.only g' hg' hid

namespace Aborting

/-- Nobody leaves a load that no call has. -/
theorem unclaimed (h : Aborting s s') {f : Flight Text} (hunclaimed : Unclaimed s f) :
    Unclaimed s' f := by
  induction h with
  | refl => exact hunclaimed
  | apart _ hsame ih =>
    exact ⟨hsame.calls ▸ ih.nobody, hsame.flights ▸ ih.there, hsame.flights ▸ ih.only⟩
  | abort _ signal reason ih =>
    exact abort_keeps (P := fun s => Unclaimed s f) ih (fun _ => ⟨ih.nobody, ih.there, ih.only⟩)
      fun _ i _ hkept => hkept.turnAway signal reason i

/-- The loads count as many callers as before. -/
theorem tallied (h : Aborting s s') {coming : Nat → Nat}
    (htallied : Tallied s.queries s.calls coming) : Tallied s'.queries s'.calls coming := by
  induction h with
  | refl => exact htallied
  | apart _ hsame ih =>
    refine ih.mono ?_ (fun f hf => ⟨f, hsame.flights ▸ hf, rfl, rfl, rfl⟩)
      (hsame.calls ▸ .refl _)
    rw [ReadThrough.Distinct, hsame.flights]
    exact ih.distinct
  | abort _ signal reason ih =>
    refine abort_keeps (P := fun s => Tallied s.queries s.calls coming) ih (fun _ => ih) ?_
    intro s' i _ hkept
    obtain hsame | ⟨-, left, -, -, hqueries, hcalls⟩ := turnAway_leaves s' signal reason i
    · rw [hsame]
      exact hkept
    · rw [hqueries, hcalls]
      refine hkept.mono ?_ (fun f hf => ?_) (sameClaims_modify (fun _ => rfl) fun _ => rfl)
      · rw [ReadThrough.Distinct, ReadThrough.leave_ids]
        exact hkept.distinct
      · rw [ReadThrough.leave_flights] at hf
        obtain ⟨g, hg, rfl⟩ := List.mem_map.mp hf
        exact ⟨g, hg, by split <;> exact ⟨rfl, rfl, rfl⟩⟩

end Aborting

/-! ## A call that is alone with its load -/

/-- The call listens, and nobody else ever joined its load. -/
structure Lone (s : State) (i load : Nat) (signal : Option Text) : Prop where
  call : ∃ c, s.calls[i]? = some c ∧ c.load = some load ∧ c.signal = signal ∧ c.listening = true ∧
    c.settled = none
  others : ∀ (j : Nat) (c : Call), s.calls[j]? = some c → c.load = some load → j = i
  last : ∀ f ∈ s.queries.flights, f.id = load → f.waiters = f.departed + 1

/-- The call has been turned away, and nobody can join its load any more. -/
structure Gone (s : State) (i load : Nat) (signal : Option Text) : Prop where
  call : ∃ c, s.calls[i]? = some c ∧ c.signal = signal ∧ c.listening = false ∧ c.Rejected s
  detached : ∀ f ∈ s.queries.flights, f.id = load → f.attached = false

variable {name : Option Text}

theorem getElem?_turnAway {j : Nat} (hj : j ≠ i) (s : State) (signal reason : Text) :
    (s.turnAway signal reason j).calls[i]? = s.calls[i]? := by
  obtain hsame | ⟨-, -, -, -, -, hcalls⟩ := turnAway_leaves s signal reason j
  · rw [hsame]
  · rw [hcalls, List.getElem?_modify_ne _ _ hj]

/-- A call that is turned away leaves another load alone. -/
theorem Lone.turnAway_other (h : Lone s i load name) {j : Nat} (hj : j ≠ i)
    (signal reason : Text) : Lone (s.turnAway signal reason j) i load name := by
  constructor
  · rw [getElem?_turnAway hj]
    exact h.call
  all_goals obtain hsame | ⟨c, left, hc, hload, hqueries, hcalls⟩ :=
    turnAway_leaves s signal reason j
  · rw [hsame]
    exact h.others
  · intro k c' hc' hload'
    rw [hcalls] at hc'
    obtain ⟨c₀, hc₀, ⟨-, rfl⟩ | ⟨-, rfl⟩⟩ := getElem?_modify_cases hc'
    · exact h.others k c₀ hc₀ hload'
    · exact h.others k c' hc₀ hload'
  · rw [hsame]
    exact h.last
  · intro f hf hid
    rw [hqueries] at hf
    obtain ⟨g, hg, -, -, -, hsame⟩ := ReadThrough.exists_of_mem_leave hf
    obtain rfl := hsame fun hleft => hj (h.others j c hc (by rw [hload, ← hleft, hid]))
    exact h.last g hg hid

/-- The last caller that leaves a load detaches it. -/
theorem not_attached_of_last {queries : ReadThrough Text Outcome}
    (hlast : ∀ f ∈ queries.flights, f.id = load → f.waiters = f.departed + 1) :
    ∀ f ∈ (queries.leave load).2.flights, f.id = load → f.attached = false := by
  intro f hf hid
  refine ReadThrough.not_attached_of_isLast ?_ hf hid
  unfold ReadThrough.leave
  split
  · rename_i hnone
    obtain ⟨g, hg, hgid, -⟩ := ReadThrough.exists_of_mem_leave hf
    exact absurd (hgid.trans hid) (ReadThrough.flight?_eq_none.mp hnone g hg)
  · rename_i g hfound
    obtain ⟨hg, hgid⟩ := ReadThrough.mem_of_flight? hfound
    simpa using (hlast g hg hgid).symm

/-- The call itself is turned away. -/
theorem Lone.turnAway (h : Lone s i load (some signal))
    (hreason : s.reason? (some signal) = some reason) :
    Gone (s.turnAway signal reason i) i load (some signal) := by
  obtain ⟨c, hc, hload, hsignal, -⟩ := h.call
  obtain ⟨hqueries, hcalls⟩ := turnAway_left signal reason hc hload
  constructor
  · refine ⟨{ c with settled := some (.error (.aborted reason)), listening := false }, ?_, hsignal,
      rfl, reason, ?_, rfl⟩
    · rw [hcalls, List.getElem?_modify_eq, hc]
      rfl
    · rw [reason?_turnAway]
      show s.reason? c.signal = some reason
      rw [hsignal]
      exact hreason
  · rw [hqueries]
    exact not_attached_of_last h.last

theorem Gone.turnAway_other (h : Gone s i load name) {j : Nat} (hj : j ≠ i)
    (signal reason : Text) : Gone (s.turnAway signal reason j) i load name := by
  constructor
  · obtain ⟨c, hc, hsignal, hdeaf, r, hr, hsettled⟩ := h.call
    refine ⟨c, ?_, hsignal, hdeaf, r, ?_, hsettled⟩
    · rw [getElem?_turnAway hj]
      exact hc
    · rw [reason?_turnAway]
      exact hr
  · obtain hsame | ⟨-, left, -, -, hqueries, -⟩ := turnAway_leaves s signal reason j
    · rw [hsame]
      exact h.detached
    · intro f hf hid
      rw [hqueries] at hf
      obtain ⟨g, hg, hgid, -, hattached, -⟩ := ReadThrough.exists_of_mem_leave hf
      have hoff := h.detached g hg (hgid.trans hid)
      exact Bool.eq_false_iff.mpr fun hon => Bool.eq_false_iff.mp hoff (hattached hon)

/-- One call after the other is turned away, among them the one that is alone with its load. -/
theorem Lone.foldl_turnAway {leaving : List Nat} (hdistinct : leaving.Nodup)
    (hreason : s.reason? (some signal) = some reason)
    (h : (i ∈ leaving ∧ Lone s i load (some signal)) ∨
      (i ∉ leaving ∧ Gone s i load (some signal))) :
    Gone (leaving.foldl (fun s j => s.turnAway signal reason j) s) i load (some signal) := by
  induction leaving generalizing s with
  | nil =>
    obtain ⟨hmem, -⟩ | ⟨-, hgone⟩ := h
    · exact nomatch hmem
    · exact hgone
  | cons j rest ih =>
    obtain ⟨hnew, hrest⟩ := List.nodup_cons.mp hdistinct
    have hreason' : (s.turnAway signal reason j).reason? (some signal) = some reason := by
      rw [reason?_turnAway]
      exact hreason
    apply ih hrest hreason'
    obtain ⟨hmem, hlone⟩ | ⟨hnot, hgone⟩ := h
    · by_cases hj : j = i
      · subst hj
        exact .inr ⟨hnew, hlone.turnAway hreason⟩
      · have hlater := (List.mem_cons.mp hmem).resolve_left fun hsame => hj hsame.symm
        exact .inl ⟨hlater, hlone.turnAway_other hj signal reason⟩
    · rw [List.mem_cons, not_or] at hnot
      exact .inr ⟨hnot.2, hgone.turnAway_other (fun hsame => hnot.1 hsame.symm) signal reason⟩

theorem Gone.abort (h : Gone s i load name) (signal reason : Text) :
    Gone (s.abort signal reason) i load name := by
  obtain ⟨c, hc, hsignal, hdeaf, r, hr, hsettled⟩ := h.call
  apply abort_keeps (P := fun s => Gone s i load name) h
  · exact fun _ => ⟨⟨c, hc, hsignal, hdeaf, r, reason?_append hr _, hsettled⟩, h.detached⟩
  · rintro s' j ⟨c₀, hc₀, hlistens, -⟩ hgone
    -- the call does not listen any more
    apply hgone.turnAway_other
    rintro rfl
    obtain rfl := Option.some.inj (hc.symm.trans hc₀)
    exact Bool.eq_false_iff.mp hdeaf hlistens

/-- The signal of the call aborts, or another one. -/
theorem Lone.abort (h : Lone s i load name) (hquiet : s.reason? name = none)
    (signal reason : Text) :
    (Lone (s.abort signal reason) i load name ∧ (s.abort signal reason).reason? name = none) ∨
      Gone (s.abort signal reason) i load name := by
  obtain ⟨c, hc, hload, hsignal, hlistens, hunsettled⟩ := h.call
  by_cases hsame : name = some signal
  · -- the signal of the caller: it is among those turned away, and the load has no other
    subst hsame
    right
    rw [abort_eq hquiet]
    have hsignaled : Lone { s with signals := s.signals ++ [(signal, reason)] } i load
        (some signal) := ⟨h.call, h.others, h.last⟩
    have hlookup : s.signals.lookup signal = none := hquiet
    apply Lone.foldl_turnAway (List.nodup_range.filter _)
    · simp [State.reason?, List.lookup_append, hlookup]
    · exact .inl ⟨mem_leaving.mpr ⟨c, hc, hlistens, hsignal⟩, hsignaled⟩
  · -- another signal turns away other callers, whose leaving does not touch this one
    left
    have hother : ∀ s' j, s.Carries signal j → Lone s' i load name ∧ s'.reason? name = none →
        Lone (s'.turnAway signal reason j) i load name ∧
          (s'.turnAway signal reason j).reason? name = none := by
      rintro s' j ⟨c₀, hc₀, -, hcarries⟩ ⟨hlone, hstill⟩
      refine ⟨hlone.turnAway_other ?_ signal reason, ?_⟩
      · rintro rfl
        obtain rfl := Option.some.inj (hc.symm.trans hc₀)
        exact hsame (hsignal.symm.trans hcarries)
      · rw [reason?_turnAway]
        exact hstill
    refine abort_keeps (P := fun s => Lone s i load name ∧ s.reason? name = none) ⟨h, hquiet⟩
      (fun _ => ⟨⟨h.call, h.others, h.last⟩, ?_⟩) hother
    cases name with
    | none => rfl
    | some name =>
      have hlookup : s.signals.lookup name = none := hquiet
      have hne : (name == signal) = false := by simpa using hsame
      simp [State.reason?, List.lookup_append, hlookup, List.lookup_cons, hne]

/-- A call that is alone with its load stays so, or it is turned away because its signal aborts. -/
theorem Aborting.lone (h : Aborting s s') (hlone : Lone s i load name)
    (hquiet : s.reason? name = none) :
    (Lone s' i load name ∧ s'.reason? name = none) ∨ Gone s' i load name := by
  induction h with
  | refl => exact .inl ⟨hlone, hquiet⟩
  | apart _ hsame ih =>
    obtain ⟨hlone, hquiet⟩ | ⟨⟨c, hc, hsignal, hdeaf, r, hr, hsettled⟩, hdetached⟩ := ih
    · exact .inl ⟨⟨hsame.calls ▸ hlone.call, hsame.calls ▸ hlone.others,
        hsame.flights ▸ hlone.last⟩, (reason?_congr hsame.signals name).trans hquiet⟩
    · exact .inr ⟨⟨c, hsame.calls ▸ hc, hsignal, hdeaf, r,
        (reason?_congr hsame.signals c.signal).trans hr, hsettled⟩, hsame.flights ▸ hdetached⟩
  | abort _ signal reason ih =>
    obtain ⟨hlone, hquiet⟩ | hgone := ih
    · exact hlone.abort hquiet signal reason
    · exact .inr (hgone.abort signal reason)

/-! ## Loads that start and jobs -/

variable {store : Store} {cfg : Settings} {l : Load} {job : Job}

theorem aborting_schedule (h : Aborting s s') (turns : Nat) (job : Job) :
    Aborting s (s'.schedule turns job) :=
  h.apart (apart_of_eq rfl rfl rfl)

theorem aborting_conclude (h : Aborting s s') (l : Load) (outcome : Except LoadFailure Outcome) :
    Aborting s (conclude s' l outcome) := by
  obtain ⟨turns, hconclude⟩ := conclude_eq s' l outcome
  rw [hconclude]
  exact aborting_schedule h turns _

theorem aborting_requestGraph (s : State) (load : Nat) :
    Aborting s (requestGraph cfg store s load) := by
  unfold requestGraph
  split
  · exact .of_eq rfl rfl rfl
  · exact .of_eq rfl rfl rfl
  · -- the graph is asked for, and signals may abort meanwhile
    rename_i g graphs _
    have hproceeds : Proceeds store load (staged .graph (loadGraph store)) := proceeds_loadGraph
    have hasked := (hproceeds { s with graphs := graphs }).1.aborting
    have hstarted : Aborting s { s with graphs := graphs } := .of_eq rfl rfl rfl
    exact (hstarted.trans hasked).apart (apart_of_eq rfl rfl rfl)

theorem aborting_fetchOwnGraph (s : State) (load : Nat) :
    Aborting s (fetchOwnGraph store s load) := by
  have hproceeds : Proceeds store load (staged .graph (loadGraph store)) := proceeds_loadGraph
  exact aborting_schedule (hproceeds s).1.aborting _ _

/-- A load that starts disturbs neither calls nor other loads but by aborts. -/
theorem aborting_startLoad {selection : Selection} (hselect : l.query.select = .ok selection)
    (s : State) : Aborting s (startLoad cfg store s l) := by
  have hproceeds : Proceeds store l.id (fetchBase store l.id l.query) := proceeds_fetchBase hselect
  have hadded : Aborting s { s with loads := s.loads ++ [l] } := .of_eq rfl rfl rfl
  have hasked := hadded.trans (hproceeds { s with loads := s.loads ++ [l] }).1.aborting
  have hearly : ∀ s' expanding outcome, Aborting s s' →
      Aborting s (concludeEarly s' l expanding outcome) := by
    intro s' expanding outcome h
    obtain ⟨turns, heq⟩ := concludeEarly_eq s' l expanding outcome
    rw [heq]
    exact aborting_schedule h turns _
  -- apart from the statements, during which callers may be aborted, only jobs are put on the agenda
  unfold startLoad
  generalize fetchBase store l.id l.query { s with loads := s.loads ++ [l] } = asked at hasked ⊢
  obtain ⟨base, s'⟩ := asked
  dsimp only at hasked ⊢
  split
  · exact hearly s' false _ hasked
  · exact hearly s' false _ hasked
  · exact hearly s' true _ hasked
  · rename_i issues _ _ _
    have hbased : Aborting s (s'.modifyLoad l.id fun l => { l with base := issues }) :=
      hasked.apart (apart_of_eq rfl rfl rfl)
    split
    · exact aborting_schedule hbased _ _
    · split
      · exact hbased.trans (aborting_requestGraph _ l.id)
      · exact hbased.trans (aborting_fetchOwnGraph _ l.id)

/-- Whether all that the job changes of calls and loads of results is by aborts. -/
def Job.aside : Job → Bool
  | .subscribe _ | .settleGraph .. | .deliverGraph .. | .resume .. => true
  | .settle .. | .deliver .. | .finish .. => false

theorem Performed.aborting (h : Performed cfg store s job s') (haside : job.aside = true) :
    Aborting s s' := by
  cases h with
  | unserved | unawaited | unknown => exact .refl s
  | toldLate | subscribed | settledGraph | deliveredGraph => exact .of_eq rfl rfl rfl
  | graphless | plain => exact aborting_conclude (.refl s) _ _
  | @expanded id l e found =>
    have hproceeds : Proceeds store id (expand cfg store id l.base e found) :=
      proceeds_expand cfg l.base e found
    exact aborting_conclude (hproceeds s).1.aborting l _
  | settled | delivered | deliveredLate | finished | finishedLate => cases haside

end IssueQuery.Engine
