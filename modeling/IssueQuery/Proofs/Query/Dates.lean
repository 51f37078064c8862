import IssueQuery.Proofs.Query.DateForms
import IssueQuery.Proofs.Query.Parameters
import IssueQuery.Proofs.Query.Typing
import IssueQuery.Proofs.Query.Words

/-!
# Dates from text to parameter

Three readers look at an offset: the lexer, the parser, and what makes SQL of dates. They agree on
every sign, number of digits and letter, so an offset is told to SQL as it was written, and a date of
any other form never looks like one.

* `isNumberWord_of_mem_tokens`   what a number token is;
* `Offset.WrittenAs.lexemesFrom` an offset is one number token;
* `DateTold`                     how SQL is told about a date that a query writes;
* `Query.dates_told`             all of it, for offsets alone and for every checked query.
-/

namespace IssueQuery

open Grammar

variable {text rest raw date : Text} {o : Offset} {u : CodeUnit}

/-! ## Number tokens -/

theorem ofWord_ne_number (word : Text) : TokenKind.ofWord word ≠ .number := by
  unfold TokenKind.ofWord
  dsimp only
  split
  · nofun
  · split <;> nofun

/-- A number goes on as long as it can, and has the form of a number. -/
theorem Lexeme.scan_number (h : (scan u rest).kind = .number) :
    isNumberWord (u :: rest.takeWhile CodeUnit.isWordUnit) = true ∧
      (scan u rest).literal = u :: rest.takeWhile CodeUnit.isWordUnit := by
  have hnumeric (signed : Bool) (source : Text) (hkind : (numeric signed source).kind = .number) :
      isNumberWord source = true ∧ (numeric signed source).literal = source := by
    unfold numeric at hkind ⊢
    by_cases hnumber : isNumberWord source = true
    · rw [if_pos hnumber]
      exact ⟨hnumber, rfl⟩
    · rw [if_neg hnumber] at hkind
      cases signed <;> cases hkind
  -- numbers are scanned where words are: behind a digit, or a sign and a digit
  have hscan := scan_eq_wordLike_of_kind (.inr h)
  rw [hscan] at h ⊢
  unfold wordLike at h ⊢
  dsimp only at h ⊢
  by_cases hdigit : u.isDigit = true
  · rw [if_pos hdigit] at h ⊢
    exact hnumeric false _ h
  · rw [if_neg hdigit] at h ⊢
    by_cases hsigned : ((u.toChar == '-' || u.toChar == '+') && startsWithDigit rest) = true
    · rw [if_pos hsigned] at h ⊢
      exact hnumeric true _ h
    · rw [if_neg hsigned] at h
      split at h
      · exact absurd h (ofWord_ne_number _)
      · cases h

theorem isNumberWord_of_mem_tokens {t : Token} (ht : t ∈ text.tokens) (hkind : t.kind = .number) :
    isNumberWord t.literal = true := by
  have hall (text : Text) (skip pos : Nat) :
      ∀ l ∈ text.lexemesFrom skip pos, l.1.kind = .number → isNumberWord l.1.literal = true := by
    -- one unit of the text at a time, be it passed over or the first one of a token
    induction text generalizing skip pos with
    | nil => simp [Text.lexemesFrom]
    | cons u rest ih =>
      intro l hl hnumber
      cases skip with
      | succ skip => exact ih skip (pos + 1) l hl hnumber
      | zero =>
        rw [Text.lexemesFrom] at hl
        split at hl
        · exact ih 0 (pos + 1) l hl hnumber
        · obtain rfl | hl := List.mem_cons.mp hl
          · obtain ⟨hform, hliteral⟩ := Lexeme.scan_number hnumber
            rw [← hliteral] at hform
            exact hform
          · exact ih _ (pos + 1) l hl hnumber
  obtain ht | ht := List.mem_append.mp ht
  · obtain ⟨l, hl, rfl⟩ := List.mem_map.mp ht
    exact hall text 0 1 l hl hkind
  · obtain rfl := List.mem_singleton.mp ht
    cases hkind

/-- The last unit of a whole number is a digit. -/
theorem isDigit_of_isWholeNumber (h : isWholeNumber text = true) :
    ∀ u ∈ text.getLast?, u.isDigit = true := by
  have htext := signed_take text
  obtain ⟨hne, hdigits⟩ : (WrittenSign.take text).2 ≠ [] ∧
      ∀ u ∈ (WrittenSign.take text).2, u.isDigit = true := by
    simpa [isWholeNumber] using h
  intro u hu
  rw [← htext, List.getLast?_append, List.getLast?_eq_some_getLast hne, Option.some_or] at hu
  obtain rfl := Option.some.inj hu
  exact hdigits _ (List.getLast_mem hne)

/-- A number token that does not end in a digit is an offset. -/
theorem exists_writtenAs {t : Token} (ht : t ∈ text.tokens) (hkind : t.kind = .number)
    (hlast : ∃ u ∈ t.literal.getLast?, u.isDigit = false) : ∃ o : Offset, o.WrittenAs t.literal := by
  have hnumber := isNumberWord_of_mem_tokens ht hkind
  obtain hwhole | hoffset := Bool.or_eq_true_iff.mp hnumber
  · obtain ⟨u, hu, hnot⟩ := hlast
    rw [isDigit_of_isWholeNumber hwhole u hu] at hnot
    cases hnot
  · obtain ⟨o, ho⟩ := Option.isSome_iff_exists.mp hoffset
    exact ⟨o, Offset.read?_anyLetter.mp ho⟩

/-- An offset begins with a digit, or with a sign and a digit, and goes on like a word. -/
theorem Offset.WrittenAs.units (h : o.WrittenAs raw) :
    ∃ u more, raw = u :: more ∧ u.isSpace = false ∧ u.toChar ∉ Lexeme.symbols ∧
      (∀ v ∈ more, v.isWordUnit = true) ∧
      (u.isDigit = true ∨ u.isDigit = false ∧ (u.toChar = '-' ∨ u.toChar = '+') ∧
        Lexeme.startsWithDigit more = true) := by
  obtain ⟨sign, digits, unit⟩ := o
  obtain ⟨hne, hdigits, letter, hletter, rfl⟩ := h
  obtain ⟨d, ds, rfl⟩ := List.exists_cons_of_ne_nil hne
  have hword : ∀ v ∈ (d :: ds) ++ [letter], v.isWordUnit = true := by
    intro v hv
    obtain hv | hv := List.mem_append.mp hv
    · have hdigit : v.isDigit = true := hdigits v hv
      simp [CodeUnit.isWordUnit, hdigit]
    · obtain rfl := List.mem_singleton.mp hv
      exact (OffsetUnit.letter_unit hletter).2
  have hdigit : d.isDigit = true := hdigits d List.mem_cons_self
  -- the first unit is a digit, or the sign in front of one
  cases sign with
  | unsigned =>
    refine ⟨d, ds ++ [letter], rfl, ?_, ?_, fun v hv => hword v (List.mem_cons_of_mem _ hv),
      .inl hdigit⟩
    · rw [Bool.eq_false_iff]
      intro hspace
      rw [(not_isWordUnit_of_isSpace hspace).2.2.1] at hdigit
      cases hdigit
    · -- no symbol is a digit
      have hplain : Lexeme.symbols.all fun c => !c.isDigit := by decide
      intro hsymbol
      have hnot := List.all_eq_true.mp hplain _ hsymbol
      rw [CodeUnit.isDigit] at hdigit
      simp [hdigit] at hnot
  | plus =>
    have hsign : Text.ofString WrittenSign.plus.symbol = [43] := by decide
    exact ⟨43, d :: (ds ++ [letter]), by rw [hsign]; rfl, by decide, by decide, hword,
      .inr ⟨by decide, by decide, hdigit⟩⟩
  | minus =>
    have hsign : Text.ofString WrittenSign.minus.symbol = [45] := by decide
    exact ⟨45, d :: (ds ++ [letter]), by rw [hsign]; rfl, by decide, by decide, hword,
      .inr ⟨by decide, by decide, hdigit⟩⟩

/-- An offset at the end of a text is one number token. -/
theorem Offset.WrittenAs.lexemesFrom (h : o.WrittenAs raw) (pos : Nat) :
    raw.lexemesFrom 0 pos = [(⟨.number, raw, pos⟩, raw.length - 1)] := by
  have hnumber : isNumberWord raw = true := by
    rw [isNumberWord, Offset.read?_anyLetter.mpr h, Option.isSome_some, Bool.or_true]
  obtain ⟨u, more, rfl, hspace, hsymbol, hword, hfirst⟩ := h.units
  have hrun : (more ++ []).takeWhile CodeUnit.isWordUnit = more ++ [] :=
    List.takeWhile_append_of_pos hword
  rw [List.append_nil] at hrun
  have hscan : Lexeme.scan u (more ++ []) = Lexeme.verbatim .number (u :: more) := by
    rw [List.append_nil, Lexeme.scan_eq_wordLike hsymbol, Lexeme.wordLike]
    obtain hdigit | ⟨hdigit, hsign, hsecond⟩ := hfirst
    · rw [if_pos hdigit, hrun, Lexeme.numeric, if_pos hnumber]
    · rw [if_neg (by simp [hdigit]), if_pos (by simp [hsign, hsecond]), hrun, Lexeme.numeric,
        if_pos hnumber]
  have hlexemes := Text.lexemesFrom_verbatim hspace hscan pos
  rwa [List.append_nil] at hlexemes

/-! ## What SQL is told -/

/-- The piece of SQL text for an offset: hours count from the minute, days and months from the day. -/
def Offset.piece (o : Offset) : String :=
  match o.unit with
  | .hours => "datetime('now', ?)"
  | .days | .months => "date('now', ?)"

/-- The parameter for an offset: its sign, its digits as they are written, and the unit in words. -/
def Offset.parameter (o : Offset) : Text :=
  let sign := if o.sign = .minus then "-" else "+"
  let unit :=
    match o.unit with
    | .days => "days"
    | .hours => "hours"
    | .months => "months"
  sign ++ (o.digits ++ (" " ++ Text.ofString unit))

/-- What SQL is told about a date that a query writes as `raw`: a piece of text and the parameter for
the `?` in it. -/
inductive DateTold (raw : Text) : (piece : String) → (parameter : Text) → Prop
  | today (h : raw.toLower = "today") : DateTold raw "date('now', ?)" "+0 days"
  | yesterday (h : raw.toLower = "yesterday") : DateTold raw "date('now', ?)" "-1 days"
  | offset {o : Offset} (h : o.WrittenAs raw) : DateTold raw o.piece o.parameter
  | iso (h : IsoDate.Form raw) : DateTold raw "?" raw

/-- An offset is read again after the parser has made its letter small. -/
theorem moment_offset (h : o.WrittenAs raw) :
    (moment o.toText).render = o.piece ∧ (moment o.toText).param = .text o.parameter := by
  have hread : Offset.read? OffsetUnit.ofLetter? o.toText = some o :=
    Offset.read?_eq_some.mpr ⟨h.1, h.2.1, rfl⟩
  obtain ⟨htoday, hyesterday⟩ := DateForm.no_word_of_offset hread
  rw [moment, if_neg htoday, if_neg hyesterday, hread]
  obtain ⟨sign, digits, unit⟩ := o
  cases unit <;>
    simp [Sql.Moment.render, Sql.Moment.param, Offset.piece, Offset.parameter, Offset.modifier,
      OffsetUnit.plural]

theorem moment_iso (h : IsoDate.Form raw) : moment raw = .at (.text raw) := by
  have hwords : ∀ word ∈ ["today", "yesterday"], isIsoDate (Text.ofString word) = false := by
    decide +kernel
  have hiso := isIsoDate_iff.mpr h
  have htoday : raw ≠ Text.ofString "today" := by
    rintro rfl
    cases hiso.symm.trans (hwords "today" (by simp))
  have hyesterday : raw ≠ Text.ofString "yesterday" := by
    rintro rfl
    cases hiso.symm.trans (hwords "yesterday" (by simp))
  rw [moment, if_neg htoday, if_neg hyesterday, h.not_offset]

theorem numberValue_offset (h : o.WrittenAs raw) :
    Parser.numberValue raw = .date raw o.toText := by
  rw [Parser.numberValue, Offset.read?_anyLetter.mpr h]

/-- A date of the grammar is told to SQL in the way of its form. -/
theorem told_of_isValue {ts : List Token} (h : IsValue ts (.date raw date)) :
    ∃ p, (moment date).param = .text p ∧ DateTold raw (moment date).render p := by
  have hiso (hform : isIsoDate raw = true) :
      ∃ p, (moment raw).param = .text p ∧ DateTold raw (moment raw).render p := by
    have hform := isIsoDate_iff.mp hform
    rw [moment_iso hform]
    exact ⟨raw, rfl, .iso hform⟩
  generalize hvalue : Value.date raw date = value at h
  -- a date comes from a quoted string, a number with a unit, or a word
  cases h with
  | true | false => cases hvalue
  | @string t ht =>
    unfold Parser.stringValue at hvalue
    split at hvalue
    · obtain ⟨rfl, rfl⟩ := Value.date.inj hvalue
      exact hiso ‹_›
    · cases hvalue
  | @number t ht =>
    cases hread : Offset.read? OffsetUnit.ofAnyLetter? t.literal with
    | none =>
      rw [Parser.numberValue, hread] at hvalue
      cases hvalue
    | some o =>
      have hwritten := Offset.read?_anyLetter.mp hread
      rw [numberValue_offset hwritten] at hvalue
      obtain ⟨rfl, rfl⟩ := Value.date.inj hvalue
      obtain ⟨hpiece, hparam⟩ := moment_offset hwritten
      exact ⟨_, hparam, hpiece ▸ .offset hwritten⟩
  | @word t ht =>
    unfold Parser.wordValue at hvalue
    split at hvalue
    · cases hvalue
    · dsimp only at hvalue
      split at hvalue
      · rename_i hsmall
        obtain ⟨rfl, rfl⟩ := Value.date.inj hvalue
        obtain htoday | hyesterday : t.literal.toLower = Text.ofString "today" ∨
            t.literal.toLower = Text.ofString "yesterday" := by simpa using hsmall
        · rw [htoday]
          exact ⟨_, rfl, .today htoday⟩
        · rw [hyesterday]
          exact ⟨_, rfl, .yesterday hyesterday⟩
      · split at hvalue
        · obtain ⟨rfl, rfl⟩ := Value.date.inj hvalue
          exact hiso ‹_›
        · cases hvalue

/-! ## From text to parameter -/

theorem condition_of_date {name : Text} {field : Field} (hname : Field.ofName? name = some field)
    (hkind : field.kind = .date) (op : ComparisonOp) (value : Value) :
    (Leaf.compare name op value).condition =
      .ok (.compareTime field.column op (moment value.text)) :=
  Leaf.condition_compare_eq_ok_iff.mpr ⟨field, hname, Field.comparison_of_date hkind op value⟩

/-- An offset that a field of dates is compared with becomes a modifier. -/
theorem Offset.WrittenAs.selects (h : o.WrittenAs raw) {field : Field} (hkind : field.kind = .date)
    (op : ComparisonOp) :
    ∃ q s, Query.parse (field.name ++ (" " ++ (op.symbol ++ (" " ++ raw)))) = .ok q ∧
      (op ∈ field.kind.operators → q.check = .ok ()) ∧ q.select = .ok s ∧
      s.whereText = "datetime(" ++ field.column ++ ") " ++ op.symbol ++ " " ++ o.piece ∧
      s.params = [.text o.parameter] := by
  have hname : Field.ofName? field.name = some field := Field.ofName?_eq_some_iff.mpr rfl
  have hfield (rest : Text) : Text.lexemesFrom (field.name ++ (" " ++ rest)) 0 1 =
      (⟨.identifier, field.name, 1⟩, 6) :: rest.lexemesFrom 0 9 := by
    cases field with
    | created | updated => rfl
    | _ => cases hkind
  have hleaf (hop : op ∈ field.kind.operators) :
      (Leaf.compare field.name op (.date raw o.toText)).check = .ok () := by
    simp only [Leaf.check, Field.require, hname, bind, Except.bind]
    rw [if_pos (List.contains_iff_mem.mpr hop), Field.checkValue, hkind]
    rfl
  have hcondition := condition_of_date hname hkind op (.date raw o.toText)
  obtain ⟨hpiece, hparam⟩ := moment_offset h
  refine ⟨⟨some (.leaf (.compare field.name op (.date raw o.toText))), none, []⟩,
    ⟨some (.compareTime field.column op (moment o.toText)), []⟩, ?_, ?_, ?_, ?_, ?_⟩
  · -- the text is three tokens: the field, the operator and the offset
    rw [Query.parse, Text.properTokens, Text.lexemes, hfield, Text.lexemesFrom_operator,
      h.lexemesFrom, ← numberValue_offset h]
    rfl
  · intro hop
    have hleaves : [Leaf.compare field.name op (.date raw o.toText)].forM Leaf.check = .ok () :=
      forM_eq_ok.mpr (by simpa using hleaf hop)
    rw [Query.check]
    exact congrArg (· >>= fun _ => .ok ()) hleaves
  · simp [Query.select, Filter.condition, hcondition, Functor.map, Except.map, bind, Except.bind,
      pure, Except.pure, Value.text]
  · simp [Selection.whereText, Sql.Condition.render, hpiece]
  · simp [Selection.params, Sql.Condition.params, hparam]

/-- The parameters that a leaf brings. -/
def Leaf.ownParams (l : Leaf) : List Sql.Param :=
  match l.condition with
  | .ok c => c.params
  | .error _ => []

/-- The leaf compares the field with one date, and tells SQL about it by one parameter. -/
def Leaf.Dated (l : Leaf) (field : Field) : Prop :=
  ∃ op value c piece p, l = .compare field.name op value ∧ l.condition = .ok c ∧
    c.render = "datetime(" ++ field.column ++ ") " ++ op.symbol ++ " " ++ piece ∧
    l.ownParams = [.text p] ∧ DateTold value.raw piece p

/-- A checked leaf of the grammar on a field of dates. -/
theorem Leaf.dated {l : Leaf} (hwritten : l.Written) (hcheck : l.check = .ok ()) {field : Field}
    (hname : Field.ofName? l.name = some field) (hkind : field.kind = .date) : l.Dated field := by
  cases l with
  | oneOf name values negated =>
    obtain ⟨field', hname', hlist, -⟩ := Leaf.of_check_oneOf hcheck
    obtain rfl : field' = field := Option.some.inj (hname'.symm.trans hname)
    rw [hkind] at hlist
    cases hlist
  | compare name op value =>
    obtain ⟨field', hname', -, hsuits⟩ := Leaf.of_check_compare hcheck
    obtain rfl : field' = field := Option.some.inj (hname'.symm.trans hname)
    rw [hkind] at hsuits
    -- only a date suits
    cases value with
    | date raw date =>
      obtain ⟨ts, hvalue⟩ := hwritten _ (List.mem_singleton_self _)
      obtain ⟨p, hparam, htold⟩ := told_of_isValue hvalue
      have hcondition := condition_of_date hname' hkind op (.date raw date)
      obtain rfl : name = Text.ofString field'.name := Field.eq_name_of_ofName? hname
      refine ⟨op, .date raw date, _, _, p, rfl, hcondition, rfl, ?_, htold⟩
      rw [ownParams, hcondition]
      exact congrArg (fun p => [p]) hparam
    | _ => cases hsuits

/-- A checked query takes the parameters of its leaves, in source order. -/
theorem Query.exists_selection {q : Query} (hcheck : q.check = .ok ()) :
    ∃ s, q.select = .ok s ∧ s.params = q.leaves.flatMap Leaf.ownParams := by
  obtain ⟨hleaves, horder⟩ := Query.of_check hcheck
  obtain ⟨terms, hterms⟩ := exists_sortTerms horder
  obtain ⟨c, hc, -, hparams, -⟩ := Query.exists_condition hleaves
  refine ⟨⟨c, terms⟩, ?_, ?_⟩
  · simp [Query.select, hc, hterms, bind, Except.bind, pure, Except.pure]
  · have hown : ∀ l ∈ q.leaves, l.bindings.map Binding.param = l.ownParams := by
      intro l hl
      obtain ⟨c, hc, hbinds⟩ := Leaf.exists_binds (hleaves l hl)
      rw [Leaf.ownParams, hc]
      simpa using hbinds.params.symm
    rw [Selection.params, hparams, Query.bindings, List.map_flatMap]
    rw [List.flatMap_def, List.flatMap_def, List.map_congr_left hown]

/-- An offset that the lexer reads as a number, in either case of its letter, is a date to the parser,
and compared with a field of dates it is bound with its sign, its digits and its unit. Every leaf of a
checked query on a field of dates brings one parameter: for one of two words, for an offset, or for an
ISO date, which is bound as it is written. No ISO date is taken for an offset. -/
theorem Query.dates_told (text : Text) :
    (∀ t ∈ text.tokens, t.kind = .number → (∃ u ∈ t.literal.getLast?, u.isDigit = false) →
      ∃ o : Offset, o.WrittenAs t.literal ∧ Parser.valueOf? t = some (.date t.literal o.toText) ∧
        ∀ (field : Field) (op : ComparisonOp), field.kind = .date →
          ∃ q s, Query.parse (field.name ++ (" " ++ (op.symbol ++ (" " ++ t.literal)))) = .ok q ∧
            (op ∈ field.kind.operators → q.check = .ok ()) ∧ q.select = .ok s ∧
            s.whereText = "datetime(" ++ field.column ++ ") " ++ op.symbol ++ " " ++ o.piece ∧
            s.params = [.text o.parameter]) ∧
    (∀ q, Query.parse text = .ok q → q.check = .ok () →
      ∃ s, q.select = .ok s ∧ s.params = q.leaves.flatMap Leaf.ownParams ∧
        ∀ l ∈ q.leaves, ∀ field : Field, Field.ofName? l.name = some field → field.kind = .date →
          l.Dated field) ∧
    ∀ date, IsoDate.Form date →
      (∀ o : Offset, ¬ o.WrittenAs date) ∧ moment date = .at (.text date) := by
  refine ⟨fun t ht hnumber hlast => ?_, fun q hparse hcheck => ?_, fun date hform => ⟨?_, ?_⟩⟩
  · -- a number that ends in a letter is an offset
    obtain ⟨o, ho⟩ := exists_writtenAs ht hnumber hlast
    refine ⟨o, ho, ?_, fun field op hkind => ho.selects hkind op⟩
    rw [Parser.valueOf?, hnumber, numberValue_offset ho]
  · -- the leaves of any checked query
    obtain ⟨s, hselect, hparams⟩ := Query.exists_selection hcheck
    have hleaves := (Query.of_check hcheck).1
    exact ⟨s, hselect, hparams, fun l hl field hname hkind =>
      Leaf.dated (Query.written_of_parse hparse l hl) (hleaves l hl) hname hkind⟩
  · -- a date is not read as an offset
    intro o ho
    cases (Offset.read?_anyLetter.mpr ho).symm.trans (hform.not_offset OffsetUnit.ofAnyLetter?)
  · exact moment_iso hform

/-- An offset with a sign and a capital letter, and a quoted ISO date with a time. -/
def datesText : Text := Text.ofString "created >= -30D and updated < '2024-01-15T09:30Z'"

/-- What `datesText` asks for. -/
def datesQuery : Query :=
  { filter := some (.binary .and
      (.leaf (.compare "created" .ge (.date "-30D" "-30d")))
      (.leaf (.compare "updated" .lt (.date "2024-01-15T09:30Z" "2024-01-15T09:30Z")))),
    expansion := none, order := [] }

theorem Query.dates_told_both :
    Query.parse datesText = .ok datesQuery ∧ datesQuery.check = .ok () ∧
      (∃ s, datesQuery.select = .ok s ∧
        s.params = [.text "-30 days", .text "2024-01-15T09:30Z"]) ∧
      Leaf.Dated (.compare "created" .ge (.date "-30D" "-30d")) .created := by
  have hparse : Query.parse datesText = .ok datesQuery := by rfl
  have hcheck : datesQuery.check = .ok () := rfl
  have hown : datesQuery.leaves.flatMap Leaf.ownParams =
      [.text "-30 days", .text "2024-01-15T09:30Z"] := by decide +kernel
  obtain ⟨-, htold, -⟩ := Query.dates_told datesText
  obtain ⟨s, hselect, hparams, hdated⟩ := htold datesQuery hparse hcheck
  exact ⟨hparse, hcheck, ⟨s, hselect, hparams.trans hown⟩,
    hdated _ List.mem_cons_self .created rfl rfl⟩

end IssueQuery
