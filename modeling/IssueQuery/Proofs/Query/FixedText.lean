import IssueQuery.Proofs.Query.Parameters
import IssueQuery.Proofs.Sql.Pieces

/-!
# The text of a query is fixed

What a user writes into a query may choose between the texts that SQL is given, but none of it gets
into them. Two queries of one shape have one SQL text, whatever their values are, except that a test
for a set depends on whether it asks for `true`, and a date on which of four forms it has. And every
text is put together from a closed list of pieces, among which a field has nothing but the
expression for its column.

* `DateForm.Of`             the four forms of a date;
* `Query.Alike`             two queries of one shape;
* `FailsFirst`              what works unless one of some names is no field;
* `Query.select_fixed_text` all of it, for every query, checked or not.
-/

namespace IssueQuery

open Sql (Condition LabelTest MadeOf pieces)

/-! ## Forms of dates -/

/-- The forms of a date that SQL text tells apart. -/
inductive DateForm where
  | today
  | yesterday
  | offset (unit : OffsetUnit)
  | other

namespace DateForm

/-- The text is an optional sign, one or more digits and the letter of the unit. -/
def IsOffset (unit : OffsetUnit) (date : Text) : Prop :=
  ∃ sign digits, digits ≠ [] ∧ (∀ u ∈ digits, u.isDigit = true) ∧
    date = Offset.toText ⟨sign, digits, unit⟩

/-- The texts of each form. -/
def Of : DateForm → Text → Prop
  | .today, date => date = Text.ofString "today"
  | .yesterday, date => date = Text.ofString "yesterday"
  | .offset unit, date => IsOffset unit date
  | .other, date => date ≠ Text.ofString "today" ∧ date ≠ Text.ofString "yesterday" ∧
      ∀ unit, ¬ IsOffset unit date

/-- The SQL text of a date of the form. -/
def render : DateForm → String
  | .today | .yesterday | .offset .days | .offset .months => "date('now', ?)"
  | .offset .hours => "datetime('now', ?)"
  | .other => "?"

end DateForm

/-- A sign in front of a digit is taken off. -/
theorem take_signed (sign : WrittenSign) {u : CodeUnit} (hdigit : u.isDigit = true) (rest : Text) :
    WrittenSign.take (Text.ofString sign.symbol ++ u :: rest) = (sign, u :: rest) := by
  cases sign with
  | plus | minus => rfl
  | unsigned =>
    have htext : Text.ofString WrittenSign.unsigned.symbol ++ u :: rest = u :: rest := rfl
    have hdigit : u.toChar.isDigit = true := hdigit
    rw [htext, WrittenSign.take]
    -- a digit is no sign
    split
    · rename_i hu
      exact absurd (hu ▸ hdigit) (by decide)
    · rename_i hu
      exact absurd (hu ▸ hdigit) (by decide)
    · rfl

/-- What is taken off a text and what is left make up the text. -/
theorem signed_take (text : Text) :
    Text.ofString (WrittenSign.take text).1.symbol ++ (WrittenSign.take text).2 = text := by
  have hplus : Text.ofString "+" = [UInt16.ofNat '+'.toNat] := by decide
  have hminus : Text.ofString "-" = [UInt16.ofNat '-'.toNat] := by decide
  cases text with
  | nil => rfl
  | cons u rest =>
    unfold WrittenSign.take
    dsimp only
    split
    · rename_i hu
      rw [CodeUnit.eq_ofNat_of_toChar hu (by decide), ← List.singleton_append, ← hplus]
      rfl
    · rename_i hu
      rw [CodeUnit.eq_ofNat_of_toChar hu (by decide), ← List.singleton_append, ← hminus]
      rfl
    · rfl

theorem OffsetUnit.ofLetter?_eq_some {u : CodeUnit} {unit : OffsetUnit} :
    ofLetter? u = some unit ↔ [u] = Text.ofString unit.letter := by
  constructor
  · intro h
    unfold ofLetter? at h
    split at h <;> rename_i hu <;> cases h <;>
    · rw [CodeUnit.eq_ofNat_of_toChar hu (by decide)]
      rfl
  · intro h
    cases unit <;>
    · obtain rfl := (List.cons.inj h).1
      decide

/-- An offset is read from a sign, one or more digits and a letter for its unit, and from nothing
else. -/
theorem Offset.read?_eq_some_iff {unitOf : CodeUnit → Option OffsetUnit}
    (hletters : ∀ u unit, unitOf u = some unit → u.isDigit = false) {text : Text} {o : Offset} :
    read? unitOf text = some o ↔
      o.digits ≠ [] ∧ (∀ u ∈ o.digits, u.isDigit = true) ∧ ∃ letter, unitOf letter = some o.unit ∧
        text = Text.ofString o.sign.symbol ++ (o.digits ++ [letter]) := by
  constructor
  · intro h
    have htext := signed_take text
    rw [read?] at h
    generalize WrittenSign.take text = taken at h htext
    obtain ⟨sign, body⟩ := taken
    dsimp only at h htext
    split at h
    · -- digits and one letter behind the sign that was taken
      rename_i d ds letter hdigits hrest
      obtain ⟨unit, hunit, rfl⟩ := Option.map_eq_some_iff.mp h
      refine ⟨by simp [hdigits], fun u hu => List.all_eq_true.mp List.all_takeWhile u hu, letter,
        hunit, ?_⟩
      rw [← hrest, List.takeWhile_append_dropWhile, htext]
    · cases h
  · rintro ⟨hne, hdigits, letter, hunit, rfl⟩
    obtain ⟨sign, digits, unit⟩ := o
    have hnot := hletters letter unit hunit
    obtain ⟨d, ds, rfl⟩ := List.exists_cons_of_ne_nil hne
    -- a unit letter is no digit, so the reader stops in front of it
    have htake : (d :: (ds ++ [letter])).takeWhile CodeUnit.isDigit = d :: ds := by
      rw [← List.cons_append, List.takeWhile_append_of_pos hdigits,
        List.takeWhile_cons_of_neg (by simp [hnot]), List.append_nil]
    have hdrop : (d :: (ds ++ [letter])).dropWhile CodeUnit.isDigit = [letter] := by
      rw [← List.cons_append, List.dropWhile_append_of_pos hdigits,
        List.dropWhile_cons_of_neg (by simp [hnot])]
    rw [read?, List.cons_append, take_signed sign (hdigits d List.mem_cons_self)]
    dsimp only
    rw [htake, hdrop]
    dsimp only
    rw [hunit, Option.map_some]

theorem OffsetUnit.not_digit_of_ofLetter? {u : CodeUnit} {unit : OffsetUnit}
    (h : ofLetter? u = some unit) : u.isDigit = false := by
  have hletter := ofLetter?_eq_some.mp h
  cases unit <;>
  · obtain rfl := (List.cons.inj hletter).1
    decide

/-- An offset is read from the text that writes it, and from no other. -/
theorem Offset.read?_eq_some {text : Text} {o : Offset} :
    read? OffsetUnit.ofLetter? text = some o ↔
      o.digits ≠ [] ∧ (∀ u ∈ o.digits, u.isDigit = true) ∧ text = o.toText := by
  rw [read?_eq_some_iff fun u unit => OffsetUnit.not_digit_of_ofLetter?, toText, List.append_assoc]
  simp only [OffsetUnit.ofLetter?_eq_some]
  constructor
  · rintro ⟨hne, hdigits, letter, hletter, rfl⟩
    exact ⟨hne, hdigits, by rw [hletter]⟩
  · rintro ⟨hne, hdigits, rfl⟩
    obtain ⟨letter, hletter⟩ : ∃ letter, [letter] = Text.ofString o.unit.letter := by
      cases o.unit <;> exact ⟨_, rfl⟩
    exact ⟨hne, hdigits, letter, hletter, by rw [hletter]⟩

theorem DateForm.isOffset_iff {unit : OffsetUnit} {date : Text} :
    IsOffset unit date ↔ ∃ o, Offset.read? OffsetUnit.ofLetter? date = some o ∧ o.unit = unit := by
  constructor
  · rintro ⟨sign, digits, h⟩
    exact ⟨⟨sign, digits, unit⟩, Offset.read?_eq_some.mpr h, rfl⟩
  · rintro ⟨⟨sign, digits, _⟩, hread, rfl⟩
    exact ⟨sign, digits, Offset.read?_eq_some.mp hread⟩

/-- Neither of the two words for days is an offset. -/
theorem DateForm.no_word_of_offset {date : Text} {o : Offset}
    (hread : Offset.read? OffsetUnit.ofLetter? date = some o) :
    date ≠ Text.ofString "today" ∧ date ≠ Text.ofString "yesterday" := by
  have hwords : ∀ word ∈ ["today", "yesterday"],
      Offset.read? OffsetUnit.ofLetter? (Text.ofString word) = none := by decide +kernel
  constructor
  · rintro rfl
    cases hread.symm.trans (hwords "today" (by simp))
  · rintro rfl
    cases hread.symm.trans (hwords "yesterday" (by simp))

/-- SQL is told about a date in the way of its form. -/
theorem DateForm.render_moment {form : DateForm} {date : Text} (h : form.Of date) :
    (moment date).render = form.render := by
  cases form with
  | today =>
    obtain rfl : date = Text.ofString "today" := h
    rfl
  | yesterday =>
    obtain rfl : date = Text.ofString "yesterday" := h
    rfl
  | offset unit =>
    obtain ⟨o, hread, rfl⟩ := isOffset_iff.mp h
    obtain ⟨htoday, hyesterday⟩ := DateForm.no_word_of_offset hread
    rw [moment, if_neg htoday, if_neg hyesterday, hread]
    obtain ⟨sign, digits, unit⟩ := o
    cases unit <;> rfl
  | other =>
    obtain ⟨htoday, hyesterday, hoffset⟩ := h
    have hread : Offset.read? OffsetUnit.ofLetter? date = none := by
      cases hread : Offset.read? OffsetUnit.ofLetter? date with
      | none => rfl
      | some o => exact absurd (isOffset_iff.mpr ⟨o, hread, rfl⟩) (hoffset o.unit)
    rw [moment, if_neg htoday, if_neg hyesterday, hread]
    rfl

/-! ## Queries of one shape -/

/-- Two leaves on one field by one operator. Their values may be any, but a test for a set asks for
`true` in both or in neither, dates are of one form, and lists are of one length. -/
inductive Leaf.Alike : Leaf → Leaf → Prop
  | compare {name : Text} {op : ComparisonOp} {value value' : Value}
      (truth : name = Text.ofString "blocked" ∨ name = Text.ofString "ready" →
        value.isTrue = value'.isTrue)
      (date : (Field.ofName? name).map Field.kind = some .date →
        ∃ form : DateForm, form.Of value.text ∧ form.Of value'.text) :
      Alike (.compare name op value) (.compare name op value')
  | oneOf {name : Text} {values values' : List Value} {negated : Bool}
      (length : values.length = values'.length) :
      Alike (.oneOf name values negated) (.oneOf name values' negated)

/-- Two filters that are put together in one way from leaves of one shape. -/
inductive Filter.Alike : Filter → Filter → Prop
  | leaf {l l' : Leaf} (h : l.Alike l') : Alike (.leaf l) (.leaf l')
  | not {f f' : Filter} (h : Alike f f') : Alike (.not f) (.not f')
  | binary {connective : Connective} {left left' right right' : Filter} (hleft : Alike left left')
      (hright : Alike right right') :
      Alike (.binary connective left right) (.binary connective left' right')

/-- Two queries with filters of one shape and the same order. -/
structure Query.Alike (q q' : Query) : Prop where
  filter : Option.Rel Filter.Alike q.filter q'.filter
  order : q.order = q'.order

/-! ## Names -/

/-- The name that a leaf is about. -/
def Leaf.name : Leaf → Text
  | .compare name _ _ | .oneOf name _ _ => name

/-- The names in a query, in source order. -/
def Query.names (q : Query) : List Text := q.leaves.map Leaf.name ++ q.order.map OrderTerm.field

/-- The first of the names that is no field. -/
def firstUnknown (names : List Text) : Option Text :=
  names.find? fun name => (Field.ofName? name).isNone

/-- Gives a result unless one of the names is no field; else reports the first of those. -/
def FailsFirst {α : Type} (names : List Text) (result : Except CheckError α) : Prop :=
  match firstUnknown names with
  | none => ∃ a, result = .ok a
  | some name => result = .error (.unknownColumn name)

theorem FailsFirst.pure {α : Type} (a : α) : FailsFirst [] (.ok a) := ⟨a, rfl⟩

/-- One part after another looks at the names of both. -/
theorem FailsFirst.bind {α β : Type} {names more : List Text} {x : Except CheckError α}
    {f : α → Except CheckError β} (hx : FailsFirst names x)
    (hf : ∀ a, x = .ok a → FailsFirst more (f a)) : FailsFirst (names ++ more) (x >>= f) := by
  simp only [FailsFirst, firstUnknown, List.find?_append] at hx hf ⊢
  cases hfirst : names.find? fun name => (Field.ofName? name).isNone with
  | none =>
    rw [hfirst] at hx
    obtain ⟨a, rfl⟩ := hx
    exact hf a rfl
  | some name =>
    rw [hfirst] at hx
    subst hx
    rfl

/-- A last part that looks at no name. -/
theorem FailsFirst.map {α β : Type} {names : List Text} {x : Except CheckError α} (f : α → β)
    (hx : FailsFirst names x) : FailsFirst names (x >>= fun a => .ok (f a)) := by
  have h := hx.bind fun a _ => FailsFirst.pure (f a)
  rwa [List.append_nil] at h

theorem failsFirst_named (name : Text) : FailsFirst [name] (Field.named name) := by
  unfold FailsFirst firstUnknown Field.named
  cases hname : Field.ofName? name with
  | none => simp [hname]
  | some field => simp [hname]

theorem Leaf.failsFirst_condition (l : Leaf) : FailsFirst [l.name] l.condition := by
  cases l with
  | compare name op value =>
    exact (failsFirst_named name).map fun field => field.comparison op value
  | oneOf name values negated =>
    exact (failsFirst_named name).map fun field => field.listTest values negated

theorem Filter.failsFirst_condition (f : Filter) :
    FailsFirst (f.leaves.map Leaf.name) f.condition := by
  induction f with
  | leaf l => exact l.failsFirst_condition
  | not f ih => exact ih.map Condition.not
  | binary connective left right ihl ihr =>
    rw [leaves, List.map_append]
    exact ihl.bind fun c _ => ihr.map (Condition.binary connective c)

theorem failsFirst_sortTerms (order : List OrderTerm) :
    FailsFirst (order.map OrderTerm.field) (order.mapM OrderTerm.sortTerm) := by
  induction order with
  | nil => exact FailsFirst.pure []
  | cons term order ih =>
    have hterm : FailsFirst [term.field] term.sortTerm :=
      (failsFirst_named term.field).map fun field : Field =>
        Sql.SortTerm.mk field.sortKey term.descending
    rw [List.mapM_cons]
    exact hterm.bind fun t _ => ih.map (t :: ·)

/-- A query becomes SQL if all of its names are fields. -/
theorem Query.failsFirst_select (q : Query) : FailsFirst q.names q.select := by
  have hfilter : FailsFirst (q.leaves.map Leaf.name) (q.filter.mapM Filter.condition) := by
    cases hf : q.filter with
    | none =>
      rw [Query.leaves, hf]
      exact FailsFirst.pure none
    | some f =>
      rw [Query.leaves, hf]
      have hcondition : (some f).mapM Filter.condition = f.condition >>= fun c => .ok (some c) := by
        cases hc : f.condition <;> simp [hc, Functor.map, Except.map, bind, Except.bind]
      rw [hcondition]
      exact f.failsFirst_condition.map some
  exact hfilter.bind fun c _ => (failsFirst_sortTerms q.order).map (Selection.mk c)

theorem names_of_alike {f f' : Filter} (h : f.Alike f') :
    f.leaves.map Leaf.name = f'.leaves.map Leaf.name := by
  induction h with
  | leaf h => cases h <;> rfl
  | not h ih => exact ih
  | binary hleft hright ihl ihr => simp only [Filter.leaves, List.map_append, ihl, ihr]

theorem Query.Alike.names {q q' : Query} (h : q.Alike q') : q.names = q'.names := by
  have hleaves : q.leaves.map Leaf.name = q'.leaves.map Leaf.name := by
    have hfilter := h.filter
    unfold Query.leaves
    generalize q.filter = f, q'.filter = f' at hfilter
    cases hfilter with
    | none => rfl
    | some hf => exact names_of_alike hf
  rw [Query.names, Query.names, hleaves, h.order]

/-! ## One text for one shape -/

/-- The text of a comparison depends on its value by way of a truth or of a date's form. -/
theorem render_comparison_congr {field : Field} (op : ComparisonOp) {value value' : Value}
    (truth : field.set? ≠ none → value.isTrue = value'.isTrue)
    (date : field.kind = .date → (moment value.text).render = (moment value'.text).render) :
    (field.comparison op value).render = (field.comparison op value').render := by
  cases field with
  | blocked | ready =>
    have htrue : value.isTrue = value'.isTrue := truth (by decide)
    simp only [Field.comparison, Field.set?, htrue]
  | created | updated =>
    have hdate := date rfl
    simp only [Field.comparison, Field.set?, Field.isLabel, Field.kind, Condition.render,
      Bool.false_eq_true, if_false, hdate]
  | pinned | priority | type | status | label | labels | title | description | id | assignee =>
    cases op <;> rfl

theorem render_listTest_congr (field : Field) {values values' : List Value} (negated : Bool)
    (h : values.length = values'.length) :
    (field.listTest values negated).render = (field.listTest values' negated).render := by
  unfold Field.listTest
  split <;> simp [Condition.render, LabelTest.render, h]

theorem Leaf.Alike.render {l l' : Leaf} (h : l.Alike l') {c c' : Condition}
    (hc : l.condition = .ok c) (hc' : l'.condition = .ok c') : c.render = c'.render := by
  cases h with
  | @compare name op value value' truth date =>
    obtain ⟨field, hname, rfl⟩ := Leaf.condition_compare_eq_ok_iff.mp hc
    obtain ⟨field', hname', rfl⟩ := Leaf.condition_compare_eq_ok_iff.mp hc'
    obtain rfl := Option.some.inj (hname'.symm.trans hname)
    refine render_comparison_congr op (fun hset => truth ?_) fun hkind => ?_
    · rw [Field.eq_name_of_ofName? hname]
      exact field'.name_of_set.mpr hset
    · obtain ⟨form, h, h'⟩ := date (by rw [hname, Option.map_some, hkind])
      rw [DateForm.render_moment h, DateForm.render_moment h']
  | @oneOf name values values' negated length =>
    obtain ⟨field, hname, rfl⟩ := Leaf.condition_oneOf_eq_ok_iff.mp hc
    obtain ⟨field', hname', rfl⟩ := Leaf.condition_oneOf_eq_ok_iff.mp hc'
    obtain rfl := Option.some.inj (hname'.symm.trans hname)
    exact render_listTest_congr field' negated length

theorem Filter.Alike.render {f f' : Filter} (h : f.Alike f') {c c' : Condition}
    (hc : f.condition = .ok c) (hc' : f'.condition = .ok c') : c.render = c'.render := by
  induction h generalizing c c' with
  | leaf h => exact h.render hc hc'
  | not h ih =>
    simp only [condition, Except.bind_eq_ok_iff, pure, Except.pure, Except.ok.injEq] at hc hc'
    obtain ⟨d, hd, rfl⟩ := hc
    obtain ⟨d', hd', rfl⟩ := hc'
    simp only [Condition.render, ih hd hd']
  | binary hleft hright ihl ihr =>
    simp only [condition, Except.bind_eq_ok_iff, pure, Except.pure, Except.ok.injEq] at hc hc'
    obtain ⟨l, hl, r, hr, rfl⟩ := hc
    obtain ⟨l', hl', r', hr', rfl⟩ := hc'
    simp only [Condition.render, ihl hl hl', ihr hr hr']

/-- What a query becomes, part by part. -/
theorem Query.of_select {q : Query} {s : Selection} (h : q.select = .ok s) :
    q.filter.mapM Filter.condition = .ok s.condition ∧
      q.order.mapM OrderTerm.sortTerm = .ok s.order := by
  simp only [select, Except.bind_eq_ok_iff, pure, Except.pure, Except.ok.injEq] at h
  obtain ⟨c, hc, terms, hterms, rfl⟩ := h
  exact ⟨hc, hterms⟩

/-- The condition of a query is that of its filter. -/
theorem Query.condition_of_select {q : Query} {s : Selection} (h : q.select = .ok s) :
    (q.filter = none ∧ s.condition = none) ∨
      ∃ f c, q.filter = some f ∧ f.condition = .ok c ∧ s.condition = some c := by
  obtain ⟨hcondition, -⟩ := Query.of_select h
  cases hf : q.filter with
  | none =>
    rw [hf] at hcondition
    exact .inl ⟨rfl, (Except.ok.inj hcondition).symm⟩
  | some f =>
    cases hc : f.condition with
    | error e => simp [hf, hc, Functor.map, Except.map] at hcondition
    | ok c =>
      refine .inr ⟨f, c, rfl, hc, ?_⟩
      simpa [hf, hc, Functor.map, Except.map] using hcondition.symm

theorem Query.Alike.texts {q q' : Query} (h : q.Alike q') {s s' : Selection}
    (hs : q.select = .ok s) (hs' : q'.select = .ok s') :
    s.whereText = s'.whereText ∧ s.orderText = s'.orderText := by
  constructor
  · unfold Selection.whereText
    have hfilter := h.filter
    obtain ⟨hf, hc⟩ | ⟨f, c, hf, hcondition, hc⟩ := Query.condition_of_select hs <;>
    obtain ⟨hf', hc'⟩ | ⟨f', c', hf', hcondition', hc'⟩ := Query.condition_of_select hs' <;>
    rw [hf, hf'] at hfilter <;> rw [hc, hc']
    · cases hfilter
    · cases hfilter
    · cases hfilter with
      | some halike => exact halike.render hcondition hcondition'
  · have horder := (Query.of_select hs).2
    rw [h.order, (Query.of_select hs').2] at horder
    rw [Selection.orderText, Selection.orderText, Except.ok.inj horder]

/-! ## Pieces -/

theorem Field.mem_all (field : Field) : field ∈ all := by
  cases field <;> decide

theorem ComparisonOp.mem_all (op : ComparisonOp) : op ∈ all := by
  cases op <;> decide

theorem uses_comparison (field : Field) (op : ComparisonOp) (value : Value) :
    (field.comparison op value).Uses Field.all ComparisonOp.all := by
  have hcolumn : ∃ f ∈ Field.all, field.column = f.column := ⟨field, field.mem_all, rfl⟩
  simp only [Field.comparison]
  repeat' split
  all_goals first | exact ⟨hcolumn, op.mem_all⟩ | exact hcolumn | trivial

theorem uses_listTest (field : Field) (values : List Value) (negated : Bool) :
    (field.listTest values negated).Uses Field.all ComparisonOp.all := by
  unfold Field.listTest
  split
  · trivial
  · exact ⟨field, field.mem_all, rfl⟩

theorem Leaf.uses {l : Leaf} {c : Condition} (h : l.condition = .ok c) :
    c.Uses Field.all ComparisonOp.all := by
  cases l with
  | compare name op value =>
    simp only [condition, Except.bind_eq_ok_iff, pure, Except.pure, Except.ok.injEq] at h
    obtain ⟨field, -, rfl⟩ := h
    exact uses_comparison field op value
  | oneOf name values negated =>
    simp only [condition, Except.bind_eq_ok_iff, pure, Except.pure, Except.ok.injEq] at h
    obtain ⟨field, -, rfl⟩ := h
    exact uses_listTest field values negated

/-- The condition of a filter uses what the conditions of its leaves do. -/
theorem Filter.uses {fields : List Field} {ops : List ComparisonOp} {f : Filter} {c : Condition}
    (hleaves : ∀ l ∈ f.leaves, ∀ d, l.condition = .ok d → d.Uses fields ops)
    (h : f.condition = .ok c) : c.Uses fields ops := by
  induction f generalizing c with
  | leaf l => exact hleaves l (by simp [leaves]) c h
  | not f ih =>
    simp only [condition, Except.bind_eq_ok_iff, pure, Except.pure, Except.ok.injEq] at h
    obtain ⟨d, hd, rfl⟩ := h
    have huses : d.Uses fields ops := ih hleaves hd
    exact huses
  | binary connective left right ihl ihr =>
    simp only [condition, Except.bind_eq_ok_iff, pure, Except.pure, Except.ok.injEq] at h
    obtain ⟨l, hl, r, hr, rfl⟩ := h
    simp only [leaves, List.mem_append] at hleaves
    exact ⟨ihl (fun l hl => hleaves l (.inl hl)) hl, ihr (fun l hl => hleaves l (.inr hl)) hr⟩

theorem sortTerms_of_fields {order : List OrderTerm} {terms : List Sql.SortTerm}
    (h : order.mapM OrderTerm.sortTerm = .ok terms) :
    ∀ t ∈ terms, ∃ field : Field, t.key = field.sortKey := by
  induction order generalizing terms with
  | nil =>
    obtain rfl : [] = terms := Except.ok.inj h
    simp
  | cons term order ih =>
    simp only [List.mapM_cons, OrderTerm.sortTerm, Except.bind_eq_ok_iff, pure, Except.pure,
      Except.ok.injEq] at h
    obtain ⟨t, ⟨field, -, rfl⟩, rest, hrest, rfl⟩ := h
    intro t' ht'
    obtain rfl | ht' := List.mem_cons.mp ht'
    · exact ⟨field, rfl⟩
    · exact ih hrest t' ht'

/-- Both texts of a query are made of the pieces. -/
theorem Query.madeOf_texts {q : Query} {s : Selection} (h : q.select = .ok s) :
    MadeOf (pieces Field.all ComparisonOp.all) s.whereText ∧
      MadeOf (pieces Field.all ComparisonOp.all) s.orderText := by
  constructor
  · unfold Selection.whereText
    obtain ⟨-, hc⟩ | ⟨f, c, -, hcondition, hc⟩ := Query.condition_of_select h <;> rw [hc]
    · exact .nil
    · exact Sql.madeOf_render (Filter.uses (fun l _ d => l.uses) hcondition)
  · unfold Selection.orderText
    split
    · exact Sql.madeOf_fixed (by decide)
    · refine MadeOf.intercalate (by decide) fun t ht => ?_
      obtain ⟨⟨key, descending⟩, hterm, rfl⟩ := List.mem_map.mp ht
      obtain ⟨field, rfl⟩ : ∃ field : Field, key = field.sortKey :=
        sortTerms_of_fields (Query.of_select h).2 _ hterm
      exact Sql.madeOf_sortTerm field.mem_all descending

/-! ## The texts of a query -/

/-- What the user writes never becomes SQL text. A query becomes SQL if each of its names is a
field, and is refused with the first name that is none. Two queries of one shape have the same
texts, whatever their values and sources are; and both texts are made of fixed pieces, the symbols
of operators and the columns of fields. -/
theorem Query.select_fixed_text {q q' : Query} (h : q.Alike q') :
    FailsFirst q.names q.select ∧ FailsFirst q.names q'.select ∧
      ∀ s s', q.select = .ok s → q'.select = .ok s' →
        s.whereText = s'.whereText ∧ s.orderText = s'.orderText ∧
          MadeOf (pieces Field.all ComparisonOp.all) s.whereText ∧
          MadeOf (pieces Field.all ComparisonOp.all) s.orderText := by
  refine ⟨q.failsFirst_select, h.names ▸ q'.failsFirst_select, fun s s' hs hs' => ?_⟩
  obtain ⟨hwhere, horder⟩ := h.texts hs hs'
  exact ⟨hwhere, horder, Query.madeOf_texts hs⟩

/-- A query for a part of titles and for a day, with a list of identifiers. -/
def partQuery (part day first second : Text) : Query :=
  { filter := some (.binary .and
      (.not (.leaf (.compare "title" .contains (.string part part))))
      (.binary .or
        (.leaf (.compare "created" .gt (.date day day)))
        (.leaf (.oneOf "id" [.string first first, .string second second] false)))),
    expansion := none, order := [⟨"labels", true⟩] }

/-- Quotes, marks and comments in values leave the text as it is. -/
theorem select_fixed_text_hostile :
    let plain := partQuery "log" "-7d" "bd-1" "bd-2"
    let hostile := partQuery "%') OR 1=1 --" "+30d" "?" "'; DROP TABLE issues; --"
    plain.Alike hostile ∧ ∃ s s', plain.select = .ok s ∧ hostile.select = .ok s' ∧
      s.whereText = s'.whereText ∧ s.orderText = s'.orderText ∧
      s.params = [.text "%log%", .text "-7 days", .text "bd-1", .text "bd-2"] ∧
      s'.params = [.text "%%') OR 1=1 --%", .text "+30 days", .text "?",
        .text "'; DROP TABLE issues; --"] := by
  intro plain hostile
  have htitle : (Field.ofName? "title").map Field.kind ≠ some .date := by decide +kernel
  have hnoSet : ∀ name ∈ ["title", "created"],
      ¬ (Text.ofString name = Text.ofString "blocked" ∨
        Text.ofString name = Text.ofString "ready") := by decide +kernel
  have hday : (DateForm.offset .days).Of (Text.ofString "-7d") :=
    ⟨.minus, "7", by decide, List.all_eq_true.mp (by decide), by decide⟩
  have hday' : (DateForm.offset .days).Of (Text.ofString "+30d") :=
    ⟨.plus, "30", by decide, List.all_eq_true.mp (by decide), by decide⟩
  -- the two differ in their values only
  have halike : plain.Alike hostile := by
    refine ⟨.some (.binary (.not (.leaf ?_)) (.binary (.leaf ?_) (.leaf (.oneOf rfl)))), rfl⟩
    · exact .compare (fun h => absurd h (hnoSet "title" (by simp))) fun h => absurd h htitle
    · exact .compare (fun h => absurd h (hnoSet "created" (by simp))) fun _ => ⟨_, hday, hday'⟩
  obtain ⟨hplain, hhostile, htexts⟩ := Query.select_fixed_text halike
  have hknown : firstUnknown plain.names = none := by decide +kernel
  have hparams : plain.select.toOption.map Selection.params =
      some [.text "%log%", .text "-7 days", .text "bd-1", .text "bd-2"] := by decide +kernel
  have hparams' : hostile.select.toOption.map Selection.params =
      some [.text "%%') OR 1=1 --%", .text "+30 days", .text "?",
        .text "'; DROP TABLE issues; --"] := by decide +kernel
  rw [FailsFirst, hknown] at hplain hhostile
  obtain ⟨s, hs⟩ := hplain
  obtain ⟨s', hs'⟩ := hhostile
  obtain ⟨hwhere, horder, -⟩ := htexts s s' hs hs'
  rw [hs] at hparams
  rw [hs'] at hparams'
  exact ⟨halike, s, s', hs, hs', hwhere, horder, Option.some.inj hparams, Option.some.inj hparams'⟩

end IssueQuery
