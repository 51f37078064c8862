import IssueQuery.Proofs.Number.Order
import IssueQuery.Watch

/-!
# A burst of changes is reported once

A watch keeps one time, at which it will report. What it reports along a sequence of events is told
here without that time: a change to the store is reported when it has been followed by quiet for as
long as the watch was asked for, and nothing else is.

* `Concerns`                which files matter;
* `reported`                the times of the reports that a watch makes along some events;
* `dueTimes`                the times at which reports are due, told from the events alone;
* `reported_eq`             from any watch on, the two are the same, but for what was due before;
* `mem_dueTimes`            which times these are, by the clock;
* `Watch.reports_debounced` what a watch reports, from the beginning.
-/

namespace IssueQuery.Watch

/-! ## Reports along some events -/

/-- The file is the store at the path or one of its two companions. An empty name is no name. -/
def Concerns (path : Text) (file : Option Text) : Prop :=
  ∃ name ∈ file, name ≠ [] ∧ (name = Path.fileName path ∨
    name = Path.fileName path ++ Text.ofString "-wal" ∨
    name = Path.fileName path ++ Text.ofString "-shm")

instance (path : Text) (file : Option Text) : Decidable (Concerns path file) :=
  inferInstanceAs (Decidable (∃ name ∈ file, _))

/-- The watch behind some events. -/
def run (w : Watch) (events : List Event) : Watch := events.foldl step w

/-- The time for which a report is made in an event, if one is made. -/
def reportIn (w : Watch) : Event → Option Time
  | .advance span => w.due.filter fun due => due ≤ w.now + span
  | .changed _ | .stop => none

/-- The times of the reports that a watch makes along some events. -/
def reported (w : Watch) : List Event → List Time
  | [] => []
  | e :: rest => (w.reportIn e).toList ++ (w.step e).reported rest

/-- The clock behind an event. -/
def Event.clock (now : Time) : Event → Time
  | .advance span => now + span
  | .changed _ | .stop => now

@[simp] theorem Event.clock_advance (now span : Time) :
    (Event.advance span).clock now = now + span := rfl

@[simp] theorem Event.clock_changed (now : Time) (file : Option Text) :
    (Event.changed file).clock now = now := rfl

@[simp] theorem Event.clock_stop (now : Time) : Event.stop.clock now = now := rfl

/-- The clock behind some events. -/
def clock (now : Time) (events : List Event) : Time := events.foldl Event.clock now

/-- Whether the clock comes to the time before the store changes again and before the watch is
stopped. -/
def elapses (path : Text) (due : Time) : (now : Time) → List Event → Bool
  | _, [] => false
  | now, .advance span :: rest => due ≤ now + span || elapses path due (now + span) rest
  | now, .changed file :: rest => !decide (Concerns path file) && elapses path due now rest
  | _, .stop :: _ => false

/-- When a report is due for an event that others follow: the delay after a change, if it is
followed by quiet for that long. -/
def dueTime? (path : Text) (delay now : Time) (e : Event) (rest : List Event) : Option Time :=
  match e with
  | .changed file =>
    if Concerns path file ∧ elapses path (now + delay) now rest then some (now + delay) else none
  | .advance _ | .stop => none

/-- When reports are due. -/
def dueTimes (path : Text) (delay : Time) : (now : Time) → List Event → List Time
  | _, [] => []
  | now, e :: rest =>
    (dueTime? path delay now e rest).toList ++ dueTimes path delay (e.clock now) rest

/-- The watch is one over the store at the path, with the delay. -/
structure Watches (w : Watch) (path : Text) (delay : Time) : Prop where
  names : w.names = (new path (some delay) 0).names
  debounce : w.debounce = delay

section Steps

variable {w : Watch} {path : Text} {delay start now : Time} {events : List Event}

theorem watches_new (path : Text) (delay start : Time) :
    Watches (new path (some delay) start) path delay := ⟨rfl, rfl⟩

theorem Watches.step (h : Watches w path delay) (e : Event) : Watches (w.step e) path delay := by
  cases e with
  | changed file =>
    rw [Watch.step]
    split
    · exact ⟨h.names, h.debounce⟩
    · exact h
  | advance span =>
    rw [Watch.step]
    split
    · split <;> exact ⟨h.names, h.debounce⟩
    · exact ⟨h.names, h.debounce⟩
  | stop => exact ⟨h.names, h.debounce⟩

theorem Watches.run (h : Watches w path delay) (events : List Event) :
    Watches (w.run events) path delay := by
  induction events generalizing w with
  | nil => exact h
  | cons e rest ih => exact ih (h.step e)

theorem Watches.isRelevant_iff (h : Watches w path delay) (file : Option Text) :
    w.isRelevant file = true ↔ Concerns path file := by
  rcases file with _ | _ | ⟨u, name⟩
  · simp [isRelevant, Concerns]
  · simp [isRelevant, Concerns]
  · simp [isRelevant, Concerns, h.names, new]

@[simp] theorem step_now (w : Watch) (e : Event) : (w.step e).now = e.clock w.now := by
  cases e with
  | changed file => rw [step]; split <;> rfl
  | advance span => rw [step]; split <;> first | rfl | (split <;> rfl)
  | stop => rfl

theorem run_now (w : Watch) (events : List Event) : (w.run events).now = clock w.now events := by
  induction events generalizing w with
  | nil => rfl
  | cons e rest ih => rw [run, List.foldl_cons, ← run, ih, step_now]; rfl

/-- A watch counts the reports that it makes. -/
theorem step_reports (w : Watch) (e : Event) :
    (w.step e).reports = w.reports + (w.reportIn e).toList.length := by
  cases e with
  | changed file => rw [step]; split <;> rfl
  | advance span =>
    rw [step, reportIn]
    cases w.due with
    | none => rfl
    | some due => by_cases hdue : due ≤ w.now + span <;> simp [Option.filter, hdue]
  | stop => rfl

theorem run_reports (w : Watch) (events : List Event) :
    (w.run events).reports = w.reports + (w.reported events).length := by
  induction events generalizing w with
  | nil => rfl
  | cons e rest ih =>
    rw [run, List.foldl_cons, ← run, ih, step_reports, reported, List.length_append, Nat.add_assoc]

/-- A watch reports what was due before if it comes to that, and what comes to be due. -/
theorem reported_eq (h : Watches w path delay) (events : List Event) :
    w.reported events = (w.due.filter fun due => elapses path due w.now events).toList ++
      dueTimes path delay w.now events := by
  induction events generalizing w with
  | nil => cases w.due <;> simp [reported, dueTimes, Option.filter, elapses]
  | cons e rest ih =>
    rw [reported, ih (h.step e), step_now, dueTimes, ← List.append_assoc, ← List.append_assoc]
    congr 1
    cases e with
    | changed file =>
      by_cases hconcerns : Concerns path file
      · -- what was due is put off
        have hdue : (w.step (.changed file)).due = some (w.now + delay) := by
          rw [step, if_pos ((h.isRelevant_iff file).mpr hconcerns), h.debounce]
        cases hlater : elapses path (w.now + delay) w.now rest <;> cases w.due <;>
          simp [reportIn, dueTime?, hdue, Option.filter, elapses, hconcerns, hlater]
      · have hsame : w.step (.changed file) = w := by
          rw [step, if_neg (hconcerns ∘ (h.isRelevant_iff file).mp)]
        simp [reportIn, dueTime?, hsame, elapses, hconcerns]
    | advance span =>
      cases hdue : w.due with
      | none => simp [reportIn, dueTime?, step, hdue]
      | some due =>
        by_cases hnow : due ≤ w.now + span <;>
          cases hlater : elapses path due (w.now + span) rest <;>
          simp [reportIn, dueTime?, step, hdue, Option.filter, elapses, hnow, hlater]
    | stop => cases w.due <;> simp [reportIn, step, dueTime?, Option.filter, elapses]

end Steps

/-! ## The times of the reports by the clock -/

/-- The clock does not run back, and at all times the delay takes time on it. -/
def Timely (delay : Time) : (now : Time) → List Event → Prop
  | _, [] => True
  | now, e :: rest => now ≤ e.clock now ∧ now < now + delay ∧ Timely delay (e.clock now) rest

/-- The event puts off what is due, or drops it. -/
def Interrupts (path : Text) (e : Event) : Prop :=
  e = .stop ∨ ∃ file, e = .changed file ∧ Concerns path file

/-- Nothing interrupts before the clock has come to the time. -/
def QuietUntil (path : Text) (due now : Time) (events : List Event) : Prop :=
  ∀ before e after, events = before ++ e :: after → Interrupts path e → due ≤ clock now before

section Clock

variable {path : Text} {delay now due : Time} {events : List Event}

theorem Timely.le_clock {before after : List Event} (h : Timely delay now (before ++ after))
    (hnow : now ≤ now) : now ≤ clock now before := by
  induction before generalizing now with
  | nil => exact hnow
  | cons e before ih =>
    obtain ⟨hle, -, hrest⟩ := h
    have hnext := (Number.ne_notANumber_of_le hle).2
    exact Number.le_trans hle (ih hrest (Number.le_refl hnext))

theorem quietUntil_cons {e : Event} (h : ¬ Interrupts path e) :
    QuietUntil path due now (e :: events) ↔ QuietUntil path due (e.clock now) events := by
  refine ⟨fun hquiet before e' after hsplit he' => ?_, fun hquiet before e' after hsplit he' => ?_⟩
  · exact hquiet (e :: before) e' after (by rw [hsplit]; rfl) he'
  · cases before with
    | nil =>
      obtain ⟨rfl, -⟩ := List.cons.inj hsplit
      exact absurd he' h
    | cons first before =>
      obtain ⟨rfl, hevents⟩ := List.cons.inj hsplit
      exact hquiet before e' after hevents he'

/-- The clock comes to a time ahead of it if it is quiet until then, and the events go on as long.
-/
theorem Timely.elapses_iff (h : Timely delay now events) (hdue : now < due) :
    elapses path due now events = true ↔
      due ≤ clock now events ∧ QuietUntil path due now events := by
  induction events generalizing now with
  | nil => simpa [elapses, clock] using fun hle => absurd hle hdue.2
  | cons e rest ih =>
    obtain ⟨hle, -, hrest⟩ := h
    by_cases hinterrupts : Interrupts path e
    · refine iff_of_false ?_ fun hquiet => hdue.2 (hquiet.2 [] e rest rfl hinterrupts)
      obtain rfl | ⟨file, rfl, hconcerns⟩ := hinterrupts <;> simp [elapses, *]
    · rw [quietUntil_cons hinterrupts]
      show _ ↔ due ≤ clock (e.clock now) rest ∧ _
      cases e with
      | changed file =>
        have hconcerns : ¬ Concerns path file := fun h => hinterrupts (.inr ⟨file, rfl, h⟩)
        simpa [elapses, hconcerns] using ih hrest hdue
      | advance span =>
        have hspan := (Number.ne_notANumber_of_le hle).2
        by_cases hpassed : due ≤ now + span
        · -- the clock is past the time from now on
          have hlater {before after : List Event} (hsplit : rest = before ++ after) :
              due ≤ clock (now + span) before :=
            Number.le_trans hpassed (Timely.le_clock (hsplit ▸ hrest) (Number.le_refl hspan))
          exact iff_of_true (by simp [elapses, hpassed])
            ⟨hlater (List.append_nil rest).symm, fun _ _ _ hsplit _ => hlater hsplit⟩
        · have hnumber := (Number.ne_notANumber_of_le hdue.1).2
          simpa [elapses, hpassed] using ih hrest ((Number.not_le_iff hnumber hspan).mp hpassed)
      | stop => exact absurd (.inl rfl) hinterrupts

theorem dueTime?_eq_some {t : Time} {e : Event} {rest : List Event} :
    dueTime? path delay now e rest = some t ↔ ∃ file, e = .changed file ∧ Concerns path file ∧
      t = now + delay ∧ elapses path t now rest = true := by
  cases e with
  | changed file =>
    rw [dueTime?, Option.ite_none_right_eq_some]
    constructor
    · rintro ⟨⟨hconcerns, helapses⟩, ⟨⟩⟩
      exact ⟨file, rfl, hconcerns, rfl, helapses⟩
    · rintro ⟨_, ⟨⟩, hconcerns, rfl, helapses⟩
      exact ⟨⟨hconcerns, helapses⟩, rfl⟩
  | advance span => simp [dueTime?]
  | stop => simp [dueTime?]

/-- Reports are made after the changes. -/
theorem Timely.lt_of_mem (h : Timely delay now events) :
    ∀ t ∈ dueTimes path delay now events, now < t := by
  induction events generalizing now with
  | nil => simp [dueTimes]
  | cons e rest ih =>
    obtain ⟨hle, hdelay, hrest⟩ := h
    intro t ht
    obtain ht | ht := List.mem_append.mp ht
    · obtain ⟨_, -, -, rfl, -⟩ := dueTime?_eq_some.mp (Option.mem_toList.mp ht)
      exact hdelay
    · exact Number.lt_of_le_of_lt hle (ih hrest t ht)

/-- What has been due is over before what comes to be due. -/
theorem Timely.lt_of_elapses (h : Timely delay now events)
    (helapses : elapses path due now events = true) :
    ∀ t ∈ dueTimes path delay now events, due < t := by
  induction events generalizing now with
  | nil => simp [dueTimes]
  | cons e rest ih =>
    obtain ⟨-, -, hrest⟩ := h
    intro t ht
    rw [dueTimes, List.mem_append] at ht
    cases e with
    | changed file =>
      obtain ⟨hconcerns, helapses⟩ : ¬ Concerns path file ∧ elapses path due now rest = true := by
        simpa [elapses] using helapses
      exact ih hrest helapses t (by simpa [dueTime?, hconcerns] using ht)
    | advance span =>
      have hlater : t ∈ dueTimes path delay (now + span) rest := by simpa [dueTime?] using ht
      obtain hdue | helapses : due ≤ now + span ∨ elapses path due (now + span) rest = true := by
        simpa [elapses] using helapses
      · exact Number.lt_of_le_of_lt hdue (hrest.lt_of_mem t hlater)
      · exact ih hrest helapses t hlater
    | stop => cases helapses

/-- Reports are made one after the other. -/
theorem Timely.pairwise (h : Timely delay now events) :
    (dueTimes path delay now events).Pairwise (· < ·) := by
  induction events generalizing now with
  | nil => exact .nil
  | cons e rest ih =>
    obtain ⟨-, -, hrest⟩ := h
    rw [dueTimes, List.pairwise_append]
    refine ⟨by cases dueTime? path delay now e rest <;> simp, ih hrest, fun t ht t' ht' => ?_⟩
    obtain ⟨file, rfl, -, rfl, helapses⟩ := dueTime?_eq_some.mp (Option.mem_toList.mp ht)
    exact Timely.lt_of_elapses hrest helapses t' ht'

/-- A report is due at a time if a change was followed by quiet until then. -/
theorem mem_dueTimes {t : Time} : t ∈ dueTimes path delay now events ↔
    ∃ before file after, events = before ++ .changed file :: after ∧ Concerns path file ∧
      t = clock now before + delay ∧ elapses path t (clock now before) after = true := by
  induction events generalizing now with
  | nil => simp [dueTimes]
  | cons e rest ih =>
    rw [dueTimes, List.mem_append, Option.mem_toList, dueTime?_eq_some, ih]
    constructor
    · rintro (⟨file, rfl, hdue⟩ | ⟨before, file, after, rfl, hdue⟩)
      · exact ⟨[], file, rest, rfl, hdue⟩
      · exact ⟨e :: before, file, after, rfl, hdue⟩
    · rintro ⟨_ | ⟨first, before⟩, file, after, hsplit, hdue⟩
      · obtain ⟨rfl, rfl⟩ := List.cons.inj hsplit
        exact .inl ⟨file, rfl, hdue⟩
      · obtain ⟨rfl, rfl⟩ := List.cons.inj hsplit
        exact .inr ⟨before, file, after, rfl, hdue⟩

theorem clock_append (now : Time) (before after : List Event) :
    clock now (before ++ after) = clock (clock now before) after := List.foldl_append

theorem Timely.behind {before after : List Event} (h : Timely delay now (before ++ after)) :
    Timely delay (clock now before) after := by
  induction before generalizing now with
  | nil => exact h
  | cons e before ih => exact ih h.2.2

/-- What is due is ahead on the clock, whatever happens. -/
theorem Timely.due_ahead {w : Watch} {before after : List Event} (hwatches : Watches w path delay)
    (h : Timely delay w.now (before ++ after)) (hahead : ∀ due ∈ w.due, w.now < due) :
    ∀ due ∈ (w.run before).due, (w.run before).now < due := by
  induction before generalizing w with
  | nil => exact hahead
  | cons e before ih =>
    obtain ⟨hle, hdelay, hrest⟩ := h
    rw [← step_now] at hrest
    refine ih (hwatches.step e) hrest fun due hdue => ?_
    rw [step_now]
    cases e with
    | changed file =>
      rw [Watch.step] at hdue
      split at hdue
      · obtain rfl := Option.some.inj hdue
        rw [hwatches.debounce]
        exact hdelay
      · exact hahead due hdue
    | advance span =>
      cases hpending : w.due with
      | none => simp [Watch.step, hpending] at hdue
      | some pending =>
        by_cases hpassed : pending ≤ w.now + span
        · simp [Watch.step, hpending, hpassed] at hdue
        · obtain rfl : pending = due := by simpa [Watch.step, hpending, hpassed] using hdue
          have hnumber := (Number.ne_notANumber_of_le (hahead pending hpending).1).2
          exact (Number.not_le_iff hnumber (Number.ne_notANumber_of_le hle).2).mp hpassed
    | stop => cases hdue

end Clock

/-! ## The reports of a watch -/

section Quiet

variable {path : Text} {delay : Time} {w : Watch}

theorem dueTimes_eq_nil {now : Time} {events : List Event}
    (h : ∀ e ∈ events, ∀ file, e ≠ .changed file) : dueTimes path delay now events = [] := by
  refine List.eq_nil_iff_forall_not_mem.mpr fun t ht => ?_
  obtain ⟨before, file, after, rfl, -⟩ := mem_dueTimes.mp ht
  exact h _ (by simp) file rfl

/-- While nothing changes, what is due is all that can be reported. -/
theorem reported_unchanged (h : Watches w path delay) {events : List Event}
    (hunchanged : ∀ e ∈ events, ∀ file, e ≠ .changed file) :
    w.reported events = (w.due.filter fun due => elapses path due w.now events).toList := by
  rw [reported_eq h, dueTimes_eq_nil hunchanged, List.append_nil]

end Quiet

/-- What a watch reports. Its reports are made at the times that are due, and counted. By a clock
that does not run back and on which the delay takes time, they are made one after the other; one is
made at a time exactly if the time is the delay after a change to the store, and until the clock
came to it the store did not change again and the watch was not stopped; and it is made while the
clock passes that time. A change to another file, or to one without a name, leaves the watch as it
is. At most one report is pending, and none is made once the watch has been stopped, if no change
comes in after that. -/
theorem reports_debounced (path : Text) (delay start : Time) (events : List Event) :
    let w := new path (some delay) start
    w.reported events = dueTimes path delay start events ∧
    (w.run events).reports = (w.reported events).length ∧
    (Timely delay start events →
      (w.reported events).Pairwise (· < ·) ∧
      (∀ t, t ∈ w.reported events ↔
        ∃ before file after, events = before ++ .changed file :: after ∧ Concerns path file ∧
          t = clock start before + delay ∧ t ≤ clock start events ∧
          ∀ quiet e rest, after = quiet ++ e :: rest → Interrupts path e →
            t ≤ clock start (before ++ .changed file :: quiet)) ∧
      ∀ before e after, events = before ++ e :: after → ∀ t ∈ (w.run before).reportIn e,
        clock start before < t ∧ t ≤ clock start (before ++ [e])) ∧
    (∀ file, ¬ Concerns path file → (w.run events).step (.changed file) = w.run events) ∧
    (∀ spans : List Time, ((w.run events).reported (spans.map .advance)).length ≤ 1) ∧
    (∀ after, (∀ e ∈ after, ∀ file, e ≠ .changed file) →
      (w.run events).reported (.stop :: after) = []) ∧
    (Path.fileName path ≠ [] → ∀ name, Concerns path (some name) ↔
      name = Path.fileName path ∨ name = Path.fileName path ++ Text.ofString "-wal" ∨
        name = Path.fileName path ++ Text.ofString "-shm") := by
  intro w
  have hwatches : Watches w path delay := watches_new path delay start
  have hreported : w.reported events = dueTimes path delay start events :=
    reported_eq hwatches events
  have hlater := hwatches.run events
  refine ⟨hreported, ?_, fun htimely => ⟨?_, fun t => ?_, ?_⟩, fun file hother => ?_,
    fun spans => ?_, fun after hafter => ?_, fun hname name => ?_⟩
  · -- the counter of reports
    exact (run_reports w events).trans (Nat.zero_add _)
  · rw [hreported]
    -- reports come in the order of time
    exact htimely.pairwise
  · -- a time is due exactly if a change set it and nothing interrupted the delay
    rw [hreported, mem_dueTimes]
    refine exists_congr fun before => exists_congr fun file => exists_congr fun after =>
      and_congr_right fun hsplit => and_congr_right fun _ => and_congr_right fun ht => ?_
    subst hsplit
    obtain ⟨-, hdelay, hrest⟩ := htimely.behind
    rw [Event.clock_changed] at hrest
    rw [hrest.elapses_iff (ht ▸ hdelay)]
    simp only [QuietUntil, clock_append]
    rfl
  · -- a report falls into the step of the clock that passes its time
    rintro before e after rfl t ht
    have hnow : (w.run before).now = clock start before := run_now w before
    cases e with
    | changed file => cases ht
    | advance span =>
      obtain ⟨hdue, hpassed⟩ := Option.mem_filter_iff.mp ht
      have hahead := htimely.due_ahead hwatches nofun t hdue
      rw [hnow] at hahead hpassed
      rw [clock_append]
      exact ⟨hahead, of_decide_eq_true hpassed⟩
    | stop => cases ht
  · -- a change to another file is not noticed
    rw [step, if_neg (hother ∘ (hlater.isRelevant_iff file).mp)]
  · -- without further changes there is one report at most
    rw [reported_unchanged hlater (by simp)]
    cases (w.run events).due.filter _ <;> simp
  · -- a stop drops what was due
    rw [reported_unchanged hlater (by simpa using hafter)]
    cases (w.run events).due <;> simp [Option.filter, elapses]
  · -- the files of the store: itself and the two beside it
    have hlong (tail : Text) : Path.fileName path ++ tail ≠ [] := by simp [hname]
    simp only [Concerns, Option.mem_def, Option.some.injEq, exists_eq_left', and_iff_right_iff_imp]
    rintro (rfl | rfl | rfl)
    · exact hname
    · exact hlong _
    · exact hlong _

/-- Two changes in a row, one to a file beside the store, and a third cut off by the end of the
watch. -/
def burst : List Event :=
  [.changed "issues.db", .advance 50, .changed "issues.db-wal", .advance 60, .changed "notes.txt",
    .advance 60, .changed "issues.db-shm", .advance 20, .stop, .advance 500]

/-- Of the burst one report is made, and it is made for the second change. -/
theorem reports_debounced_burst :
    Timely 100 0 burst ∧ (new "/data/issues.db" (some 100) 0).reported burst = [150] ∧
      ∃ before file after, burst = before ++ .changed file :: after ∧
        Concerns "/data/issues.db" file ∧ 150 = clock 0 before + 100 := by
  have htimely : Timely 100 0 burst := by
    simp only [burst, Timely]
    decide +kernel
  have hreported : (new "/data/issues.db" (some 100) 0).reported burst = [150] := by decide +kernel
  obtain ⟨-, -, htimes, -⟩ := reports_debounced "/data/issues.db" 100 0 burst
  obtain ⟨before, file, after, hsplit, hconcerns, htime, -⟩ :=
    ((htimes htimely).2.1 150).mp (by rw [hreported]; exact List.mem_singleton_self _)
  exact ⟨htimely, hreported, before, file, after, hsplit, hconcerns, htime⟩

end IssueQuery.Watch
