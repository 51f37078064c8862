import IssueQuery.Proofs.Cache.Freshness

/-!
# Signals of callers

A caller can be let down by its own signal only. What a caller that waits gets is fixed by the
events that concern it: the first one that ends its load or aborts its signal. Events that concern
others (their aborts, invalidations, other loads) do not change it, and it is told once.

* `reason?_after`        the signals that have aborted are those of the abort events;
* `abort_effect`         an abort turns away exactly those who carry the signal;
* `outcomes_of_carrier`  what a caller gets that waits;
* `outcomes_of_newcomer` what a caller got before it came: nothing.
-/

namespace IssueQuery.Session

variable {κ ι ν : Type} [DecidableEq κ] {s s' : State κ ν} {w : Waiter} {ws : List Waiter}

/-! ## Events one after the other -/

theorem after_append (mode : Mode) (s : State κ ν) (first second : List (Event κ ι ν)) :
    after mode s (first ++ second) = after mode (after mode s first) second :=
  List.foldl_append

theorem after_cons (mode : Mode) (s : State κ ν) (e : Event κ ι ν) (rest : List (Event κ ι ν)) :
    after mode s (e :: rest) = after mode (step mode s e).2 rest := rfl

theorem log_append (mode : Mode) (s : State κ ν) (first second : List (Event κ ι ν)) :
    log mode s (first ++ second) = log mode s first ++ log mode (after mode s first) second := by
  induction first generalizing s with
  | nil => rfl
  | cons e rest ih => rw [List.cons_append, log_cons, log_cons, ih, after_cons, List.cons_append]

/-- A log tells of each event what it made happen where it stands. -/
theorem mem_log {mode : Mode} {events : List (Event κ ι ν)} {p : Event κ ι ν × Effects κ ι ν}
    (h : p ∈ log mode s events) : ∃ before e rest, events = before ++ e :: rest ∧
      p = (e, (step mode (after mode s before) e).1) := by
  induction events generalizing s with
  | nil => exact nomatch h
  | cons e rest ih =>
    rw [log_cons] at h
    obtain rfl | h := List.mem_cons.mp h
    · exact ⟨[], e, rest, rfl, rfl⟩
    · obtain ⟨before, e', rest', rfl, hp⟩ := ih h
      exact ⟨e :: before, e', rest', rfl, hp⟩

omit [DecidableEq κ] in
theorem outcomesOf_append (c : Nat) (first second : Log κ ι ν) :
    outcomesOf c (first ++ second) = outcomesOf c first ++ outcomesOf c second :=
  List.flatMap_append

/-! ## Which signals have aborted -/

/-- The reason that an event gives to a signal. -/
def Event.reasonFor? (name : Text) : Event κ ι ν → Option Text
  | .abort signal reason => if signal = name then some reason else none
  | _ => none

/-- The reason of a signal behind a list of events, which is the one of its first abort. -/
def firstReason? (name : Text) (events : List (Event κ ι ν)) : Option Text :=
  events.findSome? (Event.reasonFor? name)

omit [DecidableEq κ] in
/-- What turning callers away leaves as it is. -/
theorem turnAwayAll_frame (s : State κ ν) (reason : Text) (ws : List Waiter) :
    (s.turnAwayAll reason ws).2.signals = s.signals ∧
      (s.turnAwayAll reason ws).2.cache.started = s.cache.started := by
  induction ws generalizing s with
  | nil => exact ⟨rfl, rfl⟩
  | cons w rest ih =>
    obtain ⟨hsignals, hstarted⟩ := ih (s.turnAway w reason).2
    exact ⟨hsignals, hstarted.trans ReadThrough.leave_started⟩

/-- What failing loads leaves as it is. -/
theorem failAll_frame (s : State κ ν) (reason : Text) (loads : List Nat) :
    (s.failAll reason loads).2.signals = s.signals ∧
      (s.failAll reason loads).2.cache.started = s.cache.started := by
  induction loads generalizing s with
  | nil => exact ⟨rfl, rfl⟩
  | cons load rest ih =>
    obtain ⟨hsignals, hstarted⟩ := ih (s.settle load (.error reason)).2
    rw [State.failAll]
    dsimp only
    rw [hsignals, hstarted, settle_eq]
    exact ⟨rfl, ReadThrough.settle_started⟩

/-- An abort that is the first one of its signal is noted, and starts no load. -/
theorem abort_frame (mode : Mode) {signal : Text} (hnew : s.reason? (some signal) = none)
    (reason : Text) :
    (s.abort mode signal reason : Effects κ ι ν × State κ ν).2.signals =
        s.signals ++ [(signal, reason)] ∧
      (s.abort mode signal reason : Effects κ ι ν × State κ ν).2.cache.started =
        s.cache.started := by
  have hturned := turnAwayAll_frame { s with signals := s.signals ++ [(signal, reason)] } reason
    (s.waiting.filter fun w => w.signal = some signal)
  unfold State.abort
  rw [hnew]
  simp only [Option.isSome_none, Bool.false_eq_true, if_false]
  split
  · have hfailed := failAll_frame
      (State.turnAwayAll { s with signals := s.signals ++ [(signal, reason)] } reason
        (s.waiting.filter fun w => w.signal = some signal)).2 reason
    exact ⟨(hfailed _).1.trans hturned.1, (hfailed _).2.trans hturned.2⟩
  · exact hturned

theorem signals_request (mode : Mode) (s : State κ ν) (refresh : Bool) (key : κ) (input : ι)
    (ttl : Option Time) (signal : Option Text) :
    (step mode s (.request refresh key input ttl signal)).2.signals = s.signals := by
  simp only [step, State.request]
  split
  · rfl
  · split
    · rfl
    · unfold State.requestShared
      split <;> rfl

theorem reason?_step (mode : Mode) (s : State κ ν) (e : Event κ ι ν) (name : Text) :
    (step mode s e).2.reason? (some name) =
      (s.reason? (some name)).or (e.reasonFor? name) := by
  -- only an abort adds to the signals
  have hsame {t : State κ ν} (h : t.signals = s.signals) :
      t.reason? (some name) = (s.reason? (some name)).or none := by
    rw [Option.or_none, State.reason?, State.reason?, h]
  cases e with
  | request refresh key input ttl signal =>
    exact hsame (signals_request mode s refresh key input ttl signal)
  | resolve load v | reject load message =>
    refine hsame ?_
    rw [step, settle_eq]
  | abort signal reason =>
    cases hold : s.reason? (some signal) with
    | some r =>
      have hcase : (step mode s (.abort signal reason : Event κ ι ν)).2 = s := by
        rw [step, State.abort, hold]
        rfl
      rw [hcase, Event.reasonFor?]
      split
      · rename_i hname
        rw [← hname, hold]
        rfl
      · exact hsame rfl
    | none =>
      have hsignals := (abort_frame (ι := ι) mode hold reason).1
      have hlookup : (step mode s (.abort signal reason : Event κ ι ν)).2.reason? (some name) =
          (s.signals ++ [(signal, reason)]).lookup name := congrArg (List.lookup name) hsignals
      rw [hlookup, List.lookup_append]
      congr 1
      by_cases hname : signal = name
      · simp [Event.reasonFor?, hname]
      · have hne : (name == signal) = false := by simpa using Ne.symm hname
        simp [Event.reasonFor?, hname, List.lookup_cons, hne]
  | invalidate | invalidateAll | advance | seed | peek => exact hsame rfl

/-- The signals that have aborted are those of the abort events. -/
theorem reason?_after (mode : Mode) (s : State κ ν) (events : List (Event κ ι ν)) (name : Text) :
    (after mode s events).reason? (some name) =
      (s.reason? (some name)).or (firstReason? name events) := by
  induction events generalizing s with
  | nil => exact (Option.or_none).symm
  | cons e rest ih =>
    rw [after_cons, ih, reason?_step, Option.or_assoc, firstReason?, firstReason?,
      List.findSome?_cons]
    cases e.reasonFor? name <;> rfl

/-! ## Aborts that turn callers away -/

/-- The first abort of a signal turns away exactly those who carry it. -/
theorem abort_effect (h : Inv s) (abortable : Bool) {signal : Text}
    (hnew : s.reason? (some signal) = none) (reason : Text) :
    ∃ aborted s', step ⟨false, abortable⟩ s (.abort signal reason : Event κ ι ν) =
      ({ aborted := aborted
         settled := (s.carrying signal).map fun w => (w.caller, .error reason) }, s') ∧
      TurnedAway s (s.carrying signal) aborted s' := by
  obtain hcase | hcase := @abort_spec κ ι ν _ s h abortable signal reason
  · -- the signal is noted, so the abort does something
    have hnoted := (abort_frame (ι := ι) ⟨false, abortable⟩ hnew reason).1
    rw [hcase] at hnoted
    exact absurd hnoted (by simp)
  · exact hcase

/-- No signal of a caller that waits has aborted. -/
def Unaborted (s : State κ ν) : Prop := ∀ w ∈ s.waiting, s.reason? w.signal = none

theorem step_request_of_reason (mode : Mode) {signal : Option Text} {reason : Text}
    (h : s.reason? signal = some reason) (refresh : Bool) (key : κ) (input : ι)
    (ttl : Option Time) :
    step mode s (.request refresh key input ttl signal) =
      ({ settled := [(s.callers, .error reason)] }, { s with callers := s.callers + 1 }) := by
  simp only [step, State.request, h]

/-- A caller whose load ends or whose signal aborts waits no longer. -/
theorem gone_of_tells (h : Inv s) (halive : Unaborted s) (abortable : Bool) {e : Event κ ι ν}
    (hw : w ∈ s.waiting) (he : (∃ outcome, e.ends? = some (w.load, outcome)) ∨ e.aborts w) :
    ∀ v ∈ (step ⟨false, abortable⟩ s e).2.waiting, v.caller ≠ w.caller := by
  intro v hv hcaller
  obtain ⟨outcome, hend⟩ | ⟨signal, reason, rfl, hsignal⟩ := he
  · rw [step_of_ends hend, settle_eq] at hv
    obtain ⟨hv, hload⟩ := List.mem_filter.mp hv
    obtain rfl := List.inj_on_of_nodup_map h.distinct hv hw hcaller
    simp at hload
  · have hnew : s.reason? (some signal) = none := by
      rw [← hsignal]
      exact halive w hw
    obtain ⟨aborted, s', hcase, hspec⟩ := @abort_effect κ ι ν _ s h abortable signal hnew reason
    rw [hcase] at hv
    have hv : v ∈ s'.waiting := hv
    rw [hspec.waiting] at hv
    have hgone := (List.mem_filter.mp hv).2
    rw [hcaller] at hgone
    exact of_decide_eq_true hgone (List.mem_map_of_mem (mem_carrying.mpr ⟨hw, hsignal⟩))

/-- A new caller that waits carries the signal that it came with, which has not aborted. -/
theorem signal_of_newcomer (abortable : Bool) {refresh : Bool} {key : κ} {input : ι}
    {ttl : Option Time} {signal : Option Text}
    (hw : w ∈ (step ⟨false, abortable⟩ s (.request refresh key input ttl signal)).2.waiting) :
    w ∈ s.waiting ∨ (w.caller = s.callers ∧ w.signal = signal ∧ s.reason? signal = none) := by
  cases hreason : s.reason? signal with
  | some reason =>
    rw [step_request_of_reason _ hreason] at hw
    exact .inl hw
  | none =>
    -- only one who joins a load or starts one waits
    obtain ⟨reason, hcase⟩ | ⟨v, -, hcase⟩ | ⟨f, -, hcase⟩ | ⟨-, hcase⟩ :=
      request_spec abortable s refresh key input ttl signal
    · rw [hcase] at hw
      exact .inl hw
    · rw [hcase] at hw
      exact .inl hw
    · rw [hcase] at hw
      refine (List.mem_append.mp hw).imp_right fun hw => ?_
      obtain rfl := List.mem_singleton.mp hw
      exact ⟨rfl, rfl, rfl⟩
    · rw [hcase] at hw
      refine (List.mem_append.mp hw).imp_right fun hw => ?_
      obtain rfl := List.mem_singleton.mp hw
      exact ⟨rfl, rfl, rfl⟩

omit [DecidableEq κ] in
theorem unaborted_new (now : Time) (defaultTtl interval : Option Time) :
    Unaborted (State.new now defaultTtl interval : State κ ν) :=
  fun _ hw => nomatch hw

/-- No event leaves somebody waiting whose signal has aborted. -/
theorem unaborted_step (h : Inv s) (halive : Unaborted s) (abortable : Bool) (e : Event κ ι ν) :
    Unaborted (step ⟨false, abortable⟩ s e).2 := by
  intro w hw
  cases hsignal : w.signal with
  | none => rfl
  | some name =>
    rw [reason?_step]
    obtain hold | ⟨-, refresh, key, input, ttl, signal, rfl, -⟩ := waiting_of_step h abortable e hw
    · have hnew : s.reason? (some name) = none := by
        rw [← hsignal]
        exact halive w hold
      rw [hnew, Option.none_or]
      -- an abort of the signal would have turned the caller away
      cases e with
      | abort signal reason =>
        refine if_neg ?_
        rintro rfl
        exact gone_of_tells h halive abortable hold (.inr ⟨_, reason, rfl, hsignal⟩) w hw rfl
      | _ => rfl
    · obtain hold | ⟨-, hown, hnew⟩ := signal_of_newcomer abortable hw
      · rw [← hsignal, halive w hold]
        rfl
      · rw [← hsignal, hown, hnew]
        rfl

theorem unaborted_after (h : Inv s) (halive : Unaborted s) (abortable : Bool)
    (events : List (Event κ ι ν)) : Unaborted (after ⟨false, abortable⟩ s events) := by
  induction events generalizing s with
  | nil => exact halive
  | cons e rest ih => exact ih (inv_step h abortable e) (unaborted_step h halive abortable e)

/-! ## What callers get -/

/-- What an event tells a caller that waits: the end of its load, or the reason of its signal. -/
def Event.tells? (w : Waiter) : Event κ ι ν → Option (Outcome ν)
  | .resolve load value => if load = w.load then some (.ok value) else none
  | .reject load message => if load = w.load then some (.error message) else none
  | .abort signal reason => if w.signal = some signal then some (.error reason) else none
  | _ => none

omit [DecidableEq κ] in
theorem tells?_eq_some {e : Event κ ι ν} {outcome : Outcome ν} (h : e.tells? w = some outcome) :
    e.ends? = some (w.load, outcome) ∨
      ∃ signal reason, e = .abort signal reason ∧ w.signal = some signal ∧
        outcome = .error reason := by
  cases e with
  | resolve load v | reject load message =>
    simp only [Event.tells?] at h
    split at h
    · rename_i hload
      obtain rfl := Option.some.inj h
      exact .inl (by rw [Event.ends?, hload])
    · cases h
  | abort signal reason =>
    simp only [Event.tells?] at h
    split at h
    · rename_i hsignal
      exact .inr ⟨signal, reason, rfl, hsignal, (Option.some.inj h).symm⟩
    · cases h
  | _ => cases h

omit [DecidableEq κ] in
theorem tells?_eq_none {e : Event κ ι ν} (h : e.tells? w = none) :
    (∀ outcome, e.ends? ≠ some (w.load, outcome)) ∧ ¬ e.aborts w := by
  cases e with
  | resolve load v | reject load message =>
    simp only [Event.tells?] at h
    split at h
    · exact nomatch h
    · rename_i hload
      refine ⟨fun outcome hend => hload ?_, ?_⟩
      · exact (Prod.mk.inj (Option.some.inj hend)).1
      · rintro ⟨signal, reason, he, -⟩
        exact nomatch he
  | abort signal reason =>
    simp only [Event.tells?] at h
    split at h
    · exact nomatch h
    · rename_i hsignal
      refine ⟨fun outcome hend => (nomatch hend), ?_⟩
      rintro ⟨signal', reason', he, hw⟩
      obtain ⟨rfl, rfl⟩ := Event.abort.inj he
      exact hsignal hw
  | _ =>
    refine ⟨fun outcome hend => (nomatch hend), ?_⟩
    rintro ⟨signal, reason, he, -⟩
    exact nomatch he

/-- An event settles a caller that waits with what it tells the caller, and with nothing else. -/
theorem settled_tells (h : Inv s) (halive : Unaborted s) (hw : w ∈ s.waiting) (abortable : Bool)
    (e : Event κ ι ν) :
    ((step ⟨false, abortable⟩ s e).1.settled.filter (·.1 == w.caller)).map Prod.snd =
      (e.tells? w).toList := by
  cases htells : e.tells? w with
  | none =>
    obtain ⟨hother, habort⟩ := tells?_eq_none htells
    -- whoever is settled is new, or waited for the load that ends, or carries the signal that
    -- aborts
    have hnothing : (step ⟨false, abortable⟩ s e).1.settled.filter (·.1 == w.caller) = [] := by
      rw [List.filter_eq_nil_iff]
      rintro ⟨c, outcome⟩ hsettled hsame
      obtain rfl : c = w.caller := by simpa using hsame
      have hbelow := h.below w hw
      obtain ⟨hnew, -⟩ | ⟨v, hv, hcaller, hend⟩ | ⟨v, hv, hcaller, haborts, -⟩ :=
        settled_of_step h abortable e hsettled
      · omega
      · obtain rfl := List.inj_on_of_nodup_map h.distinct hv hw hcaller
        exact hother outcome hend
      · obtain rfl := List.inj_on_of_nodup_map h.distinct hv hw hcaller
        exact habort haborts
    rw [hnothing]
    rfl
  | some outcome =>
    obtain hend | ⟨signal, reason, rfl, hsignal, rfl⟩ := tells?_eq_some htells
    · -- its load ends
      have hstep := step_of_ends hend ⟨false, abortable⟩ s
      rw [hstep, filter_settle h hw outcome]
      rfl
    · -- its signal aborts, for the first time since it has waited for it
      have hnew : s.reason? (some signal) = none := by
        rw [← hsignal]
        exact halive w hw
      obtain ⟨aborted, s', hcase, -⟩ := @abort_effect κ ι ν _ s h abortable signal hnew reason
      have hone : (s.carrying signal).filter (·.caller == w.caller) = [w] :=
        ReadThrough.filter_of_nodup_map (h.nodup_carrying signal)
          (mem_carrying.mpr ⟨hw, hsignal⟩)
      rw [hcase]
      dsimp only
      rw [List.filter_map, List.map_map]
      have hcomp : ((fun p : Nat × Outcome ν => p.1 == w.caller) ∘ fun v : Waiter =>
          (v.caller, (.error reason : Outcome ν))) = fun v : Waiter => v.caller == w.caller := rfl
      rw [hcomp, hone]
      rfl

/-- A caller that waits gets what the first event tells it that tells it anything, and nothing
more. -/
theorem outcomes_of_carrier (h : Inv s) (halive : Unaborted s) (hw : w ∈ s.waiting)
    (abortable : Bool) (events : List (Event κ ι ν)) :
    outcomesOf w.caller (log ⟨false, abortable⟩ s events) =
      (events.findSome? (Event.tells? w)).toList := by
  induction events generalizing s with
  | nil => rfl
  | cons e rest ih =>
    have hfirst := settled_tells h halive hw abortable e
    have hinv := inv_step h abortable e
    rw [log_cons, outcomesOf, List.flatMap_cons, hfirst, List.findSome?_cons]
    cases htells : e.tells? w with
    | none =>
      obtain ⟨hother, habort⟩ := tells?_eq_none htells
      exact ih hinv (unaborted_step h halive abortable e)
        (stays_of_step h abortable hw hother habort)
    | some outcome =>
      -- the caller waits no longer
      have htold : (∃ outcome, e.ends? = some (w.load, outcome)) ∨ e.aborts w := by
        obtain hend | ⟨signal, reason, he, hsignal, -⟩ := tells?_eq_some htells
        · exact .inl ⟨outcome, hend⟩
        · exact .inr ⟨signal, reason, he, hsignal⟩
      have hgone := gone_of_tells h halive abortable hw htold
      have hcallers := Nat.lt_of_lt_of_le (h.below w hw) (callers_step h abortable e)
      have hnothing := outcomes_of_gone hinv hcallers hgone abortable rest
      rw [outcomesOf] at hnothing
      rw [hnothing]
      rfl

theorem callers_after (h : Inv s) (abortable : Bool) (events : List (Event κ ι ν)) :
    s.callers ≤ (after ⟨false, abortable⟩ s events).callers := by
  induction events generalizing s with
  | nil => exact Nat.le_refl _
  | cons e rest ih =>
    exact Nat.le_trans (callers_step h abortable e) (ih (inv_step h abortable e))

/-- A caller gets nothing before it comes. -/
theorem outcomes_of_newcomer (h : Inv s) (abortable : Bool) {events : List (Event κ ι ν)} {c : Nat}
    (hc : (after ⟨false, abortable⟩ s events).callers ≤ c) :
    outcomesOf c (log ⟨false, abortable⟩ s events) = [] := by
  induction events generalizing s with
  | nil => rfl
  | cons e rest ih =>
    have hinv := inv_step h abortable e
    have hlater := Nat.le_trans (callers_after hinv abortable rest) hc
    have hnothing : (step ⟨false, abortable⟩ s e).1.settled.filter (·.1 == c) = [] := by
      rw [List.filter_eq_nil_iff]
      rintro ⟨c', outcome⟩ hsettled hsame
      obtain rfl : c' = c := by simpa using hsame
      have hstep := callers_step h abortable e
      -- callers that are settled have come by now, and the one in question comes later
      obtain ⟨hnew, refresh, key, input, ttl, signal, rfl, -⟩ | ⟨w, hw, hcaller, -⟩ |
        ⟨w, hw, hcaller, -⟩ := settled_of_step h abortable e hsettled
      · have hcomes := callers_request (ν := ν) abortable s refresh key input ttl signal
        omega
      · have hbelow := h.below w hw
        omega
      · have hbelow := h.below w hw
        omega
    rw [log_cons, outcomesOf, List.flatMap_cons, hnothing]
    exact ih hinv hc

/-- A caller whose signal has aborted when it comes gets the reason, and nothing else ever. -/
theorem outcomes_of_late (h : Inv s) (abortable : Bool) {signal : Option Text} {reason : Text}
    (hreason : s.reason? signal = some reason) (refresh : Bool) (key : κ) (input : ι)
    (ttl : Option Time) (rest : List (Event κ ι ν)) :
    outcomesOf s.callers (log ⟨false, abortable⟩ s
      (.request refresh key input ttl signal :: rest)) = [.error reason] := by
  have hstep := step_request_of_reason (ι := ι) ⟨false, abortable⟩ hreason refresh key input ttl
  have hinv := inv_step h abortable (.request refresh key input ttl signal)
  rw [log_cons, outcomesOf, List.flatMap_cons]
  rw [hstep] at hinv ⊢
  have hnothing := outcomes_of_gone hinv (Nat.lt_succ_self s.callers)
    (fun w hw => Nat.ne_of_lt (h.below w hw)) abortable rest
  rw [outcomesOf] at hnothing
  rw [hnothing]
  simp

end IssueQuery.Session
