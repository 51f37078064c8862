import IssueQuery.Proofs.Query.FixedText

/-!
# Forms of dates

The forms of an offset and of an ISO date, said by what they are made of. The readers of dates accept
exactly the texts of these forms, and no text has both.

* `Offset.WrittenAs`          an offset, with the letter of its unit in either case;
* `IsoDate.Form`              an ISO date, with an optional time of day and zone;
* `isIsoDate_iff`             the reader of ISO dates accepts that form;
* `IsoDate.Form.not_offset`   an ISO date is no offset.
-/

namespace IssueQuery

namespace IsoDate

variable {count : Nat} {text rest z : Text}

/-- A number of so many digits. -/
def Digits (count : Nat) (text : Text) : Prop :=
  text.length = count ∧ ∀ u ∈ text, u.isDigit = true

/-- A point and one or more digits, or nothing. -/
inductive Fraction : Text → Prop
  | missing : Fraction []
  | present {digits : Text} (hne : digits ≠ []) (hdigits : ∀ u ∈ digits, u.isDigit = true) :
    Fraction ("." ++ digits)

/-- A colon, two digits and a fraction, or nothing. -/
inductive Seconds : Text → Prop
  | missing : Seconds []
  | present {seconds fraction : Text} (hseconds : Digits 2 seconds) (h : Fraction fraction) :
    Seconds (":" ++ (seconds ++ fraction))

/-- Nothing, `Z`, or a signed hour and minute with or without a colon. -/
inductive Zone : Text → Prop
  | missing : Zone []
  | utc : Zone "Z"
  | offset {sign hour colon minute : Text} (hsign : sign = "+" ∨ sign = "-") (hhour : Digits 2 hour)
    (hcolon : colon = [] ∨ colon = ":") (hminute : Digits 2 minute) :
    Zone (sign ++ (hour ++ (colon ++ minute)))

/-- `hh:mm`, with optional seconds and an optional zone. -/
inductive Time : Text → Prop
  | intro {hour minute seconds zone : Text} (hhour : Digits 2 hour) (hminute : Digits 2 minute)
    (hseconds : Seconds seconds) (hzone : Zone zone) :
    Time (hour ++ (":" ++ (minute ++ (seconds ++ zone))))

/-- `YYYY-MM-DD` -/
inductive Day : Text → Prop
  | intro {year month day : Text} (hyear : Digits 4 year) (hmonth : Digits 2 month)
    (hday : Digits 2 day) : Day (year ++ ("-" ++ (month ++ ("-" ++ day))))

/-- A day, alone or with a time behind `T` or a space. -/
inductive Form : Text → Prop
  | day {day : Text} (h : Day day) : Form day
  | time {day separator time : Text} (h : Day day) (hseparator : separator = "T" ∨ separator = " ")
    (htime : Time time) : Form (day ++ (separator ++ time))

/-! ## What is taken off the front -/

theorem digits_eq_some :
    digits count text = some rest ↔ ∃ ds, Digits count ds ∧ text = ds ++ rest := by
  -- the reader takes one digit after the other, so both directions follow the count
  induction count generalizing text with
  | zero =>
    constructor
    · intro h
      exact ⟨[], ⟨rfl, by simp⟩, Option.some.inj h⟩
    · rintro ⟨ds, ⟨hlength, -⟩, rfl⟩
      obtain rfl := List.length_eq_zero_iff.mp hlength
      rfl
  | succ count ih =>
    constructor
    · intro h
      cases text with
      | nil => cases h
      | cons u text =>
        rw [digits] at h
        split at h
        · rename_i hu
          obtain ⟨ds, ⟨hlength, hdigits⟩, rfl⟩ := ih.mp h
          exact ⟨u :: ds, ⟨by rw [List.length_cons, hlength], by simpa [hu] using hdigits⟩, rfl⟩
        · cases h
    · rintro ⟨ds, ⟨hlength, hdigits⟩, rfl⟩
      cases ds with
      | nil => cases hlength
      | cons u ds =>
        rw [List.cons_append, digits, if_pos (hdigits u List.mem_cons_self)]
        exact ih.mpr ⟨ds, ⟨Nat.succ.inj hlength, fun v hv => hdigits v (List.mem_cons_of_mem _ hv)⟩,
          rfl⟩

theorem char_eq_some {c : Char} {u : CodeUnit} (hu : u.toChar = c) (hnul : c ≠ Char.ofNat 0) :
    char c text = some rest ↔ text = u :: rest := by
  cases text with
  | nil => simp [char]
  | cons v text =>
    rw [char]
    constructor
    · intro h
      split at h
      · rename_i hv
        have hv : v.toChar = c := eq_of_beq hv
        rw [CodeUnit.eq_ofNat_of_toChar hv hnul, CodeUnit.eq_ofNat_of_toChar hu hnul,
          Option.some.inj h]
      · cases h
    · intro h
      obtain ⟨rfl, rfl⟩ := List.cons.inj h
      rw [hu, beq_self_eq_true, if_pos rfl]

theorem char_dash : char '-' text = some rest ↔ text = "-" ++ rest :=
  char_eq_some (by decide) (by decide)

theorem char_colon : char ':' text = some rest ↔ text = ":" ++ rest :=
  char_eq_some (by decide) (by decide)

theorem char_point : char '.' text = some rest ↔ text = "." ++ rest :=
  char_eq_some (by decide) (by decide)

theorem day_eq_some : day text = some rest ↔ ∃ d, Day d ∧ text = d ++ rest := by
  simp only [day, bind, Option.bind_eq_some_iff, digits_eq_some, char_dash]
  constructor
  · rintro ⟨_, ⟨_, ⟨_, ⟨_, ⟨year, hyear, rfl⟩, rfl⟩, month, hmonth, rfl⟩, rfl⟩, day, hday, rfl⟩
    exact ⟨_, .intro hyear hmonth hday, by simp only [List.append_assoc]⟩
  · rintro ⟨_, ⟨hyear, hmonth, hday⟩, rfl⟩
    simp only [List.append_assoc]
    exact ⟨_, ⟨_, ⟨_, ⟨_, ⟨_, hyear, rfl⟩, rfl⟩, _, hmonth, rfl⟩, rfl⟩, _, hday, rfl⟩

/-! ## Times of day -/

/-- What may stand behind the seconds of a time. -/
def EndsSeconds (text : Text) : Prop :=
  ∀ u ∈ text.head?, u.toChar ≠ '.' ∧ u.toChar ≠ ':' ∧ u.isDigit = false

theorem Zone.endsSeconds (h : Zone z) : EndsSeconds z := by
  intro u hu
  cases h with
  | missing => cases hu
  | utc =>
    obtain rfl := Option.some.inj hu
    decide
  | offset hsign =>
    obtain rfl | rfl := hsign <;>
    · obtain rfl := Option.some.inj hu
      decide

theorem char_eq_none {c : Char} (h : ∀ u ∈ text.head?, u.toChar ≠ c) : char c text = none := by
  cases text with
  | nil => rfl
  | cons u text =>
    have hu : u.toChar ≠ c := h u rfl
    simp [char, hu]

theorem fraction_append {f : Text} (h : Fraction f) (hrest : EndsSeconds rest) :
    fraction (f ++ rest) = rest := by
  cases h with
  | missing =>
    rw [List.nil_append, fraction, char_eq_none fun u hu => (hrest u hu).1]
  | @present digits hne hdigits =>
    have hpoint := char_point.mpr (List.append_assoc (Text.ofString ".") digits rest)
    have hstop : rest.takeWhile CodeUnit.isDigit = [] ∧ rest.dropWhile CodeUnit.isDigit = rest := by
      cases rest with
      | nil => exact ⟨rfl, rfl⟩
      | cons u rest => simp [(hrest u rfl).2.2]
    rw [fraction, hpoint]
    dsimp only
    rw [List.takeWhile_append_of_pos hdigits, List.dropWhile_append_of_pos hdigits, hstop.1, hstop.2,
      List.append_nil, if_neg (by simpa using hne)]

theorem exists_fraction (text : Text) : ∃ f, Fraction f ∧ text = f ++ fraction text := by
  unfold fraction
  split
  · rename_i rest hpoint
    obtain rfl := char_point.mp hpoint
    split
    · exact ⟨[], .missing, rfl⟩
    · rename_i hne
      refine ⟨_, @Fraction.present (rest.takeWhile CodeUnit.isDigit) (by simpa using hne)
        fun u hu => List.all_eq_true.mp List.all_takeWhile u hu, ?_⟩
      rw [List.append_assoc, List.takeWhile_append_dropWhile]
  · exact ⟨[], .missing, rfl⟩

theorem colon_digits_eq_some : (char ':' text >>= digits 2) = some rest ↔
    ∃ ds, Digits 2 ds ∧ text = ":" ++ (ds ++ rest) := by
  simp only [bind, Option.bind_eq_some_iff, digits_eq_some, char_colon]
  constructor
  · rintro ⟨_, rfl, ds, hds, rfl⟩
    exact ⟨ds, hds, rfl⟩
  · rintro ⟨ds, hds, rfl⟩
    exact ⟨_, rfl, ds, hds, rfl⟩

theorem seconds_append {s : Text} (h : Seconds s) (hrest : EndsSeconds rest) :
    seconds (s ++ rest) = rest := by
  cases h with
  | missing =>
    rw [List.nil_append, seconds, char_eq_none fun u hu => (hrest u hu).2.1]
    rfl
  | @present ds f hds hf =>
    have hcolon : (char ':' (":" ++ (ds ++ (f ++ rest))) >>= digits 2) = some (f ++ rest) :=
      colon_digits_eq_some.mpr ⟨ds, hds, rfl⟩
    rw [seconds, List.append_assoc, List.append_assoc, hcolon]
    exact fraction_append hf hrest

theorem exists_seconds (text : Text) : ∃ s, Seconds s ∧ text = s ++ seconds text := by
  unfold seconds
  split
  · rename_i rest hcolon
    obtain ⟨ds, hds, rfl⟩ := colon_digits_eq_some.mp hcolon
    obtain ⟨f, hf, hrest⟩ := exists_fraction rest
    refine ⟨_, .present hds hf, ?_⟩
    rw [List.append_assoc, List.append_assoc, ← hrest]
  · exact ⟨[], .missing, rfl⟩

/-- An hour and a minute, with or without a colon between them. -/
def Span (text : Text) : Prop :=
  ∃ hour colon minute, Digits 2 hour ∧ (colon = [] ∨ colon = Text.ofString ":") ∧ Digits 2 minute ∧
    text = hour ++ (colon ++ minute)

theorem isSpan_iff : (match digits 2 text with
      | some rest => digits 2 ((char ':' rest).getD rest) == some []
      | none => false) = true ↔ Span text := by
  constructor
  · intro h
    split at h
    · rename_i rest htaken
      obtain ⟨hour, hhour, rfl⟩ := digits_eq_some.mp htaken
      obtain ⟨minute, hminute, hrest⟩ := digits_eq_some.mp (eq_of_beq h)
      rw [List.append_nil] at hrest
      cases hcolon : char ':' rest with
      | none =>
        rw [hcolon] at hrest
        exact ⟨hour, [], minute, hhour, .inl rfl, hminute, by rw [← hrest]; rfl⟩
      | some rest' =>
        obtain rfl := char_colon.mp hcolon
        rw [hcolon] at hrest
        exact ⟨hour, _, minute, hhour, .inr rfl, hminute, by rw [← hrest]; rfl⟩
    · cases h
  · rintro ⟨hour, colon, minute, hhour, hcolon, hminute, rfl⟩
    have hlast : digits 2 minute = some [] :=
      digits_eq_some.mpr ⟨minute, hminute, (List.append_nil _).symm⟩
    have hrest : (char ':' (colon ++ minute)).getD (colon ++ minute) = minute := by
      obtain rfl | rfl := hcolon
      · -- the minute begins with a digit
        have hdigit : ∀ u ∈ minute.head?, u.toChar ≠ ':' := by
          intro u hu heq
          have hdigit : u.toChar.isDigit = true := hminute.2 u (List.mem_of_mem_head? hu)
          rw [heq] at hdigit
          exact absurd hdigit (by decide)
        rw [List.nil_append, char_eq_none hdigit, Option.getD_none]
      · rw [char_colon.mpr rfl, Option.getD_some]
    rw [digits_eq_some.mpr ⟨hour, hhour, rfl⟩]
    dsimp only
    rw [hrest, hlast]
    rfl

theorem zone_cons {u : CodeUnit} :
    Zone (u :: rest) ↔ (u.toChar = 'Z' ∧ rest = []) ∨
      (u.toChar = '+' ∨ u.toChar = '-') ∧ Span rest := by
  constructor
  · intro h
    -- the forms of a zone are closed texts, so its first unit comes from the text itself
    generalize hz : u :: rest = z at h
    cases h with
    | missing => cases hz
    | utc =>
      obtain ⟨rfl, rfl⟩ := List.cons.inj hz
      exact .inl ⟨by decide, rfl⟩
    | @offset sign hour colon minute hsign hhour hcolon hminute =>
      refine .inr ?_
      obtain rfl | rfl := hsign
      · obtain ⟨rfl, rfl⟩ := List.cons.inj hz
        exact ⟨.inl (by decide), hour, colon, minute, hhour, hcolon, hminute, rfl⟩
      · obtain ⟨rfl, rfl⟩ := List.cons.inj hz
        exact ⟨.inr (by decide), hour, colon, minute, hhour, hcolon, hminute, rfl⟩
  · rintro (⟨hu, rfl⟩ | ⟨hu | hu, hour, colon, minute, hhour, hcolon, hminute, rfl⟩)
    · rw [CodeUnit.eq_ofNat_of_toChar hu (by decide)]
      exact .utc
    · rw [CodeUnit.eq_ofNat_of_toChar hu (by decide)]
      exact .offset (.inl rfl) hhour hcolon hminute
    · rw [CodeUnit.eq_ofNat_of_toChar hu (by decide)]
      exact .offset (.inr rfl) hhour hcolon hminute

theorem isZone_iff : isZone z = true ↔ Zone z := by
  cases z with
  | nil => exact ⟨fun _ => .missing, fun _ => rfl⟩
  | cons u rest =>
    rw [zone_cons, isZone]
    split
    · rename_i hu
      simp [hu]
    · rename_i hu
      exact isSpan_iff.trans (by simp [hu])
    · rename_i hu
      exact isSpan_iff.trans (by simp [hu])
    · rename_i hutc hplus hminus
      refine Iff.intro (fun h => Bool.noConfusion h) ?_
      rintro (⟨hu, -⟩ | ⟨hu | hu, -⟩)
      · exact absurd hu hutc
      · exact absurd hu hplus
      · exact absurd hu hminus

theorem isTime_iff : isTime text = true ↔ Time text := by
  have hfront {rest : Text} : (digits 2 text >>= char ':' >>= digits 2) = some rest ↔
      ∃ hour minute, Digits 2 hour ∧ Digits 2 minute ∧ text = hour ++ (":" ++ (minute ++ rest)) := by
    simp only [bind, Option.bind_eq_some_iff, digits_eq_some, char_colon]
    constructor
    · rintro ⟨_, ⟨_, ⟨hour, hhour, rfl⟩, rfl⟩, minute, hminute, rfl⟩
      exact ⟨hour, minute, hhour, hminute, rfl⟩
    · rintro ⟨hour, minute, hhour, hminute, rfl⟩
      exact ⟨_, ⟨_, ⟨hour, hhour, rfl⟩, rfl⟩, minute, hminute, rfl⟩
  unfold isTime
  constructor
  · intro h
    split at h
    · rename_i rest hrest
      obtain ⟨hour, minute, hhour, hminute, rfl⟩ := hfront.mp hrest
      -- the reader may leave the seconds out, and the form takes whatever it left out
      obtain ⟨s, hs, htext⟩ := exists_seconds rest
      rw [htext]
      exact .intro hhour hminute hs (isZone_iff.mp h)
    · cases h
  · rintro ⟨hhour, hminute, hseconds, hzone⟩
    rw [hfront.mpr ⟨_, _, hhour, hminute, rfl⟩]
    dsimp only
    -- no zone starts as seconds do, so the reader takes all of them and nothing else
    rw [seconds_append hseconds hzone.endsSeconds]
    exact isZone_iff.mpr hzone

end IsoDate

/-- The reader of ISO dates accepts the texts of their form. -/
theorem isIsoDate_iff {text : Text} : isIsoDate text = true ↔ IsoDate.Form text := by
  unfold isIsoDate
  constructor
  · intro h
    split at h
    · cases h
    · rename_i htaken
      obtain ⟨day, hday, rfl⟩ := IsoDate.day_eq_some.mp htaken
      rw [List.append_nil]
      exact .day hday
    · rename_i u rest htaken
      obtain ⟨day, hday, rfl⟩ := IsoDate.day_eq_some.mp htaken
      obtain ⟨hseparator, htime⟩ := Bool.and_eq_true_iff.mp h
      have hseparator : [u] = Text.ofString "T" ∨ [u] = Text.ofString " " := by
        obtain hu | hu : u.toChar = 'T' ∨ u.toChar = ' ' := by simpa using hseparator
        · exact .inl (by rw [CodeUnit.eq_ofNat_of_toChar hu (by decide)]; rfl)
        · exact .inr (by rw [CodeUnit.eq_ofNat_of_toChar hu (by decide)]; rfl)
      exact .time hday hseparator (IsoDate.isTime_iff.mp htime)
  · rintro (⟨hday⟩ | ⟨hday, hseparator, htime⟩)
    · rw [IsoDate.day_eq_some.mpr ⟨_, hday, (List.append_nil _).symm⟩]
    · rw [IsoDate.day_eq_some.mpr ⟨_, hday, rfl⟩]
      have htime := IsoDate.isTime_iff.mpr htime
      obtain rfl | rfl := hseparator <;> exact htime

/-! ## Offsets -/

/-- The letters that write the unit. -/
def OffsetUnit.letters : OffsetUnit → List Char
  | .days => ['d', 'D']
  | .hours => ['h', 'H']
  | .months => ['m', 'M']

theorem OffsetUnit.ofAnyLetter?_eq_some {u : CodeUnit} {unit : OffsetUnit} :
    ofAnyLetter? u = some unit ↔ u.toChar ∈ unit.letters := by
  unfold ofAnyLetter?
  constructor
  · intro h
    split at h <;> rename_i hu <;> cases h <;> simp [hu, letters]
  · intro h
    cases unit <;>
    · simp only [letters, List.mem_cons, List.not_mem_nil, or_false] at h
      obtain hu | hu := h <;> simp [hu]

/-- A letter of a unit goes on with a word and is no digit. -/
theorem OffsetUnit.letter_unit {u : CodeUnit} {unit : OffsetUnit} (h : u.toChar ∈ unit.letters) :
    u.isDigit = false ∧ u.isWordUnit = true := by
  have hall : ∀ unit : OffsetUnit, unit.letters.all (fun c => c != Char.ofNat 0 &&
      !CodeUnit.isDigit (UInt16.ofNat c.toNat) && CodeUnit.isWordUnit (UInt16.ofNat c.toNat)) := by
    intro unit
    cases unit <;> decide +kernel
  obtain ⟨⟨hnul, hdigit⟩, hword⟩ := by simpa using List.all_eq_true.mp (hall unit) _ h
  rw [CodeUnit.eq_ofNat_of_toChar rfl hnul]
  exact ⟨hdigit, hword⟩

/-- The text is a sign, one or more digits and a letter of the unit, in either case. -/
def Offset.WrittenAs (o : Offset) (text : Text) : Prop :=
  o.digits ≠ [] ∧ (∀ u ∈ o.digits, u.isDigit = true) ∧
    ∃ letter : CodeUnit, letter.toChar ∈ o.unit.letters ∧
      text = Text.ofString o.sign.symbol ++ (o.digits ++ [letter])

theorem Offset.read?_anyLetter {text : Text} {o : Offset} :
    read? OffsetUnit.ofAnyLetter? text = some o ↔ o.WrittenAs text := by
  have hletters : ∀ u unit, OffsetUnit.ofAnyLetter? u = some unit → u.isDigit = false :=
    fun u unit h => (OffsetUnit.letter_unit (OffsetUnit.ofAnyLetter?_eq_some.mp h)).1
  rw [read?_eq_some_iff hletters]
  simp only [OffsetUnit.ofAnyLetter?_eq_some, WrittenAs]

/-- An ISO date begins with four digits and a hyphen, and goes on. -/
theorem IsoDate.Form.starts {text : Text} (h : Form text) :
    ∃ year more : Text, Digits 4 year ∧ more ≠ [] ∧ text = year ++ ("-" ++ more) := by
  have hday {day : Text} (h : Day day) (rest : Text) :
      ∃ year more : Text, Digits 4 year ∧ more ≠ [] ∧ day ++ rest = year ++ ("-" ++ more) := by
    obtain @⟨year, month, day, hyear, hmonth, hday⟩ := h
    refine ⟨year, month ++ ("-" ++ (day ++ rest)), hyear, ?_, by simp only [List.append_assoc]⟩
    intro hnil
    have hlength := hmonth.1
    rw [(List.append_eq_nil_iff.mp hnil).1] at hlength
    cases hlength
  obtain ⟨h⟩ | ⟨h, -, -⟩ := h
  · simpa using hday h []
  · exact hday h _

/-- An ISO date is no offset, whichever letters offsets may have. -/
theorem IsoDate.Form.not_offset {text : Text} (h : Form text)
    (unitOf : CodeUnit → Option OffsetUnit) : Offset.read? unitOf text = none := by
  obtain ⟨year, more, ⟨hlength, hdigits⟩, hmore, rfl⟩ := h.starts
  obtain ⟨u, year, rfl⟩ := List.exists_cons_of_length_eq_add_one hlength
  obtain ⟨v, more, rfl⟩ := List.exists_cons_of_ne_nil hmore
  obtain ⟨dash, hdash, hnot⟩ : ∃ dash, Text.ofString "-" = [dash] ∧ dash.isDigit = false :=
    ⟨45, by decide, by decide⟩
  rw [hdash, List.singleton_append]
  have hsigned : WrittenSign.take (u :: (year ++ dash :: v :: more)) =
      (.unsigned, u :: (year ++ dash :: v :: more)) :=
    take_signed .unsigned (hdigits u List.mem_cons_self) _
  have hdrop : (u :: (year ++ dash :: v :: more)).dropWhile CodeUnit.isDigit =
      dash :: v :: more := by
    rw [← List.cons_append, List.dropWhile_append_of_pos hdigits,
      List.dropWhile_cons_of_neg (by simp [hnot])]
  rw [Offset.read?, List.cons_append, hsigned]
  dsimp only
  rw [hdrop]
  split
  · rename_i hlast
    cases hlast
  · rfl

end IssueQuery
