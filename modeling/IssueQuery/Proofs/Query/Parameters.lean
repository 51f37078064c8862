import Mathlib.Algebra.Ring.Nat
import IssueQuery.Proofs.Query.MeaningPreserved
import IssueQuery.Proofs.Query.ParserCorrect

/-!
# Parameters line up with their marks

The text of a query and its parameters come from one condition, but the text is what the database
reads: it takes the parameters one by one for the `?` from left to right. So every value that a
query compares with has to put one `?` into the text and one parameter at the same place of the
list, and nothing else may put a `?` anywhere.

* `Query.bindings`        the values to bind, in source order, each with its field;
* `Binding.param`         the parameter that stands for one of them;
* `marks_render`          a condition has a `?` for each parameter;
* `Query.select_lines_up` all of it, for every checked query.
-/

namespace IssueQuery

open Sql (Condition LabelTest Moment Param placeholders)

/-! ## What a query binds -/

/-- A value that a query compares a field with by way of a parameter. -/
structure Binding where
  field : Field
  /-- Whether the value is looked for as a part of the field. -/
  isPart : Bool
  value : Value

/-- How SQL is told about a date: days, hours or months from now, or the date itself. -/
def dateText (date : Text) : Text :=
  if date = Text.ofString "today" then Text.ofString "+0 days"
  else if date = Text.ofString "yesterday" then Text.ofString "-1 days"
  else
    match Offset.read? OffsetUnit.ofLetter? date with
    | some ⟨.minus, digits, unit⟩ => "-" ++ digits ++ " " ++ Text.ofString unit.plural
    | some ⟨_, digits, unit⟩ => "+" ++ digits ++ " " ++ Text.ofString unit.plural
    | none => date

/-- The parameter that stands for a value. -/
def Binding.param (b : Binding) : Param :=
  match b.field with
  | .priority => .number b.value.level
  | .pinned => .number (if b.value.isTrue then 1 else 0)
  | .created | .updated => .text (dateText b.value.text)
  | _ => .text (if b.isPart then "%" ++ b.value.text ++ "%" else b.value.text)

/-- The values that a leaf binds, in source order. Whether an issue is in a set takes none. -/
def Leaf.bindings : Leaf → List Binding
  | .compare name op value =>
    match Field.ofName? name with
    | none | some .blocked | some .ready => []
    | some field => [⟨field, op = .contains || op = .notContains, value⟩]
  | .oneOf name values _ =>
    match Field.ofName? name with
    | none => []
    | some field => values.map fun v => ⟨field, false, v⟩

/-- The values that a query binds, in source order. -/
def Query.bindings (q : Query) : List Binding := q.leaves.flatMap Leaf.bindings

/-- How many `?` a leaf takes: none for a set, one for any other comparison, and one for each
listed value. -/
def Leaf.markCount : Leaf → Nat
  | .compare name _ _ =>
    if name = Text.ofString "blocked" ∨ name = Text.ofString "ready" then 0 else 1
  | .oneOf _ values _ => values.length

/-! ## Marks in texts -/

namespace Sql

/-- The number of `?` in a text. -/
def marks (text : String) : Nat := text.toList.count '?'

@[simp] theorem marks_append (a b : String) : marks (a ++ b) = marks a + marks b := by
  simp [marks, String.toList_append, List.count_append]

/-- The commas of a list bring no marks. -/
theorem marks_intercalate (texts : List String) :
    marks (", ".intercalate texts) = (texts.map marks).sum := by
  simp only [marks, String.toList_intercalate]
  induction texts with
  | nil => rfl
  | cons t texts ih =>
    cases texts with
    | nil => simp [List.intercalate, marks]
    | cons u texts =>
      simp only [List.map_cons, List.intercalate_cons_cons, List.count_append, List.sum_cons,
        marks] at ih ⊢
      have hcomma : List.count '?' ", ".toList = 0 := by decide
      omega

@[simp] theorem marks_placeholders (count : Nat) : marks (placeholders count) = count := by
  have hmark : marks "?" = 1 := by decide
  rw [placeholders, marks_intercalate, List.map_replicate, hmark, List.sum_replicate_nat,
    Nat.mul_one]

@[simp] theorem marks_symbol (op : ComparisonOp) : marks op.symbol = 0 := by
  cases op <;> decide

@[simp] theorem marks_membership (negated : Bool) : marks (membership negated) = 0 := by
  cases negated <;> decide

@[simp] theorem marks_connective (connective : Connective) : marks connective.word = 0 := by
  cases connective <;> decide

@[simp] theorem marks_set (set : IssueSet) : marks set.render = 0 := by
  cases set <;> decide

@[simp] theorem marks_moment (moment : Moment) : marks moment.render = 1 := by
  cases moment <;> simp [marks, Moment.render]

@[simp] theorem marks_labelTest (test : LabelTest) :
    marks test.render = test.params.length := by
  cases test with
  | eq p | like p => simp [LabelTest.render, LabelTest.params, marks]
  | oneOf ps =>
    simp only [LabelTest.render, LabelTest.params, marks_append, marks_placeholders]
    simp [marks]

/-- No expression for a column has a mark in it. -/
def Condition.ColumnsUnmarked : Condition → Prop
  | .compare column _ _ | .compareTime column _ _ | .like column _ _ | .oneOf column _ _ =>
    marks column = 0
  | .member .. | .labelled .. => True
  | .not c => c.ColumnsUnmarked
  | .binary _ left right => left.ColumnsUnmarked ∧ right.ColumnsUnmarked

/-- A condition has a `?` for each of its parameters. -/
theorem marks_render {c : Condition} (h : c.ColumnsUnmarked) :
    marks c.render = c.params.length := by
  -- the fixed pieces of each text are counted last, once its parts are known
  induction c with
  | compare column op p =>
    have hcolumn : marks column = 0 := h
    simp only [Condition.render, Condition.params, marks_append, marks_symbol, hcolumn]
    simp [marks]
  | compareTime column op moment =>
    have hcolumn : marks column = 0 := h
    simp only [Condition.render, Condition.params, marks_append, marks_symbol, marks_moment,
      hcolumn]
    simp [marks]
  | like column negated p =>
    have hcolumn : marks column = 0 := h
    simp only [Condition.render, Condition.params, marks_append, hcolumn]
    cases negated <;> simp [marks]
  | oneOf column negated ps =>
    have hcolumn : marks column = 0 := h
    simp only [Condition.render, Condition.params, marks_append, marks_membership,
      marks_placeholders, hcolumn]
    simp [marks]
  | member negated set =>
    simp only [Condition.render, Condition.params, marks_append, marks_membership, marks_set]
    simp [marks]
  | labelled negated test =>
    simp only [Condition.render, Condition.params, marks_append, marks_membership,
      marks_labelTest]
    simp [marks]
  | not c ih =>
    simp only [Condition.render, Condition.params, marks_append, ih h]
    simp [marks]
  | binary connective left right ihl ihr =>
    simp only [Condition.render, Condition.params, marks_append, marks_connective, ihl h.1,
      ihr h.2, List.length_append]
    simp [marks]

/-- A sort term has no `?`. -/
theorem marks_sortTerm {term : SortTerm}
    (h : ∀ column, term.key = .column column → marks column = 0) : marks term.render = 0 := by
  have hword : marks (if term.descending then " DESC" else " ASC") = 0 := by
    cases term.descending <;> decide
  rw [SortTerm.render, marks_append, hword]
  cases hkey : term.key with
  | column column => simpa [SortKey.render] using h column hkey
  | member set =>
    simp only [SortKey.render, marks_append, marks_set]
    simp [marks]
  | firstLabel => simp [SortKey.render, marks]

end Sql

open Sql (marks)

@[simp] theorem Field.marks_column (field : Field) : marks field.column = 0 := by
  cases field <;> decide

/-! ## Leaves -/

theorem param_moment (date : Text) : (moment date).param = .text (dateText date) := by
  unfold moment dateText
  split
  · rfl
  · split
    · rfl
    · cases hread : Offset.read? OffsetUnit.ofLetter? date with
      | none => rfl
      | some offset =>
        obtain ⟨sign, digits, unit⟩ := offset
        cases sign <;> cases unit <;> rfl

theorem columnsUnmarked_comparison (field : Field) (op : ComparisonOp) (value : Value) :
    (field.comparison op value).ColumnsUnmarked := by
  have hcolumn := field.marks_column
  simp only [Field.comparison]
  repeat' split
  all_goals first | exact hcolumn | trivial

theorem columnsUnmarked_listTest (field : Field) (values : List Value) (negated : Bool) :
    (field.listTest values negated).ColumnsUnmarked := by
  unfold Field.listTest
  split
  · trivial
  · exact field.marks_column

/-- A comparison outside the sets takes the parameter of its value. -/
theorem params_comparison {field : Field} {op : ComparisonOp} {value : Value}
    (hset : field.set? = none) (hop : op ∈ field.kind.operators)
    (hsuits : value.suits field.kind = true) :
    (field.comparison op value).params =
      [Binding.param ⟨field, op = .contains || op = .notContains, value⟩] := by
  cases field with
  | blocked | ready => exact nomatch hset
  | priority =>
    -- no pattern is allowed, and only a priority suits
    cases value with
    | priority raw level =>
      revert hop
      cases op <;> simp [Field.kind, FieldKind.operators] <;> rfl
    | _ => exact absurd hsuits (by simp [Value.suits, Field.kind])
  | pinned => rfl
  | created | updated => exact congrArg (fun p => [p]) (param_moment value.text)
  | type | status | title | description | id | assignee | label | labels =>
    cases op <;> rfl

theorem params_listTest {field : Field} {values : List Value} (negated : Bool)
    (hlist : field.kind.allowsList = true) (hsuits : ∀ v ∈ values, v.suits field.kind = true) :
    (field.listTest values negated).params =
      values.map fun v => Binding.param ⟨field, false, v⟩ := by
  cases field with
  | priority => exact map_bind_priority hsuits
  | type | status | title | description | id | assignee | label | labels => rfl
  | pinned | blocked | ready | created | updated => exact absurd hlist (by decide)

/-- The name of a field. -/
theorem Field.eq_name_of_ofName? {name : Text} {field : Field}
    (h : Field.ofName? name = some field) : name = Text.ofString field.name := by
  unfold ofName? at h
  have hname := List.find?_some h
  exact (eq_of_beq hname).symm

/-- The fields that ask about sets, by name. -/
theorem Field.name_of_set (field : Field) :
    (Text.ofString field.name = Text.ofString "blocked" ∨
      Text.ofString field.name = Text.ofString "ready") ↔ ¬ field.set? = none := by
  cases field <;> decide +kernel

/-- A condition takes one parameter for each value that leaves bind. -/
structure Sql.Condition.Binds (c : Condition) (leaves : List Leaf) : Prop where
  unmarked : c.ColumnsUnmarked
  params : c.params = (leaves.flatMap Leaf.bindings).map Binding.param
  count : c.params.length = (leaves.map Leaf.markCount).sum

/-- The values of a comparison outside the sets, and how many there are. -/
theorem Leaf.bindings_compare {name : Text} {field : Field} (op : ComparisonOp) (value : Value)
    (hname : Field.ofName? name = some field) :
    (Leaf.compare name op value).bindings =
        (if field.set? = none then
          [⟨field, op = .contains || op = .notContains, value⟩] else []) ∧
      (Leaf.compare name op value).markCount = if field.set? = none then 1 else 0 := by
  constructor
  · rw [bindings, hname]
    cases field <;> rfl
  · rw [markCount, Field.eq_name_of_ofName? hname]
    simp only [Field.name_of_set, ite_not]

theorem Leaf.exists_binds {l : Leaf} (hcheck : l.check = .ok ()) :
    ∃ c, l.condition = .ok c ∧ c.Binds [l] := by
  cases l with
  | compare name op value =>
    obtain ⟨field, hname, hop, hsuits⟩ := Leaf.of_check_compare hcheck
    obtain ⟨hbindings, hcount⟩ := Leaf.bindings_compare op value hname
    refine ⟨field.comparison op value, Leaf.condition_compare_eq_ok_iff.mpr ⟨field, hname, rfl⟩,
      columnsUnmarked_comparison field op value, ?_, ?_⟩
    · cases hset : field.set? with
      | none => simp [params_comparison hset hop hsuits, hbindings, hset]
      | some set => simp [Field.comparison, hset, hbindings, Condition.params]
    · cases hset : field.set? with
      | none => simp [params_comparison hset hop hsuits, hcount, hset]
      | some set => simp [Field.comparison, hset, hcount, Condition.params]
  | oneOf name values negated =>
    obtain ⟨field, hname, hlist, hsuits⟩ := Leaf.of_check_oneOf hcheck
    have hparams := params_listTest negated hlist hsuits
    refine ⟨field.listTest values negated, Leaf.condition_oneOf_eq_ok_iff.mpr ⟨field, hname, rfl⟩,
      columnsUnmarked_listTest field values negated, ?_, ?_⟩
    · simp [hparams, bindings, hname, Function.comp_def]
    · simp [hparams, markCount]

/-! ## Filters -/

theorem Filter.exists_binds {f : Filter} (hcheck : ∀ l ∈ f.leaves, l.check = .ok ()) :
    ∃ c, f.condition = .ok c ∧ c.Binds f.leaves := by
  -- induction on the filter, whose leaves are all checked
  induction f with
  | leaf l => exact l.exists_binds (hcheck l (by simp [leaves]))
  | not f ih =>
    obtain ⟨c, hc, hunmarked, hparams, hcount⟩ := ih hcheck
    refine ⟨.not c, ?_, hunmarked, hparams, hcount⟩
    simp [condition, hc, bind, Except.bind, pure, Except.pure]
  | binary connective left right ihl ihr =>
    simp only [leaves, List.mem_append] at hcheck
    obtain ⟨c, hc, hbindsl⟩ := ihl fun l hl => hcheck l (.inl hl)
    obtain ⟨d, hd, hbindsr⟩ := ihr fun l hl => hcheck l (.inr hl)
    refine ⟨.binary connective c d, ?_, ⟨hbindsl.unmarked, hbindsr.unmarked⟩, ?_, ?_⟩
    · simp [condition, hc, hd, bind, Except.bind, pure, Except.pure]
    · simp [Condition.params, hbindsl.params, hbindsr.params, leaves]
    · simp [Condition.params, hbindsl.count, hbindsr.count, leaves]

/-! ## Orders -/

theorem marks_sortTerm_of_orderTerm {term : OrderTerm} {t : Sql.SortTerm}
    (h : term.sortTerm = .ok t) : marks t.render = 0 := by
  obtain ⟨field, -, rfl⟩ := OrderTerm.sortTerm_eq_ok_iff.mp h
  refine Sql.marks_sortTerm fun column hkey => ?_
  -- a column of its own has no mark
  simp only [Field.sortKey] at hkey
  split at hkey
  · cases hkey
  · split at hkey
    · cases hkey
    · obtain rfl := Sql.SortKey.column.inj hkey
      exact field.marks_column

theorem marks_of_sortTerms {order : List OrderTerm} {terms : List Sql.SortTerm}
    (h : order.mapM OrderTerm.sortTerm = .ok terms) : ∀ t ∈ terms, marks t.render = 0 := by
  induction order generalizing terms with
  | nil =>
    obtain rfl : [] = terms := Except.ok.inj h
    simp
  | cons term order ih =>
    simp only [List.mapM_cons, Except.bind_eq_ok_iff, pure, Except.pure,
      Except.ok.injEq] at h
    obtain ⟨t, ht, rest, hrest, rfl⟩ := h
    intro t' ht'
    obtain rfl | ht' := List.mem_cons.mp ht'
    · exact marks_sortTerm_of_orderTerm ht
    · exact ih hrest t' ht'

/-- The order of a query has no `?`. -/
theorem marks_orderText {order : List OrderTerm} {terms : List Sql.SortTerm}
    (h : order.mapM OrderTerm.sortTerm = .ok terms) (c : Option Condition) :
    marks (Selection.orderText ⟨c, terms⟩) = 0 := by
  unfold Selection.orderText
  split
  · decide
  · have hcounts : terms.map (marks ∘ Sql.SortTerm.render) = terms.map fun _ => 0 :=
      List.map_congr_left (marks_of_sortTerms h)
    rw [Sql.marks_intercalate, List.map_map, hcounts, List.map_const', List.sum_replicate_nat,
      Nat.mul_zero]

/-! ## Parsed queries -/

open Grammar

/-- The values of a leaf. -/
def Leaf.values : Leaf → List Value
  | .compare _ _ value => [value]
  | .oneOf _ values _ => values

/-- Every value of a leaf is one that the grammar has. -/
def Leaf.Written (l : Leaf) : Prop := ∀ v ∈ l.values, ∃ ts, IsValue ts v

theorem isValue_of_many {ts : List Token} {values : List Value}
    (h : Many .comma IsValue ts values) : ∀ v ∈ values, ∃ us, IsValue us v := by
  induction h with
  | nil => simp
  | cons ht first more ih =>
    intro v hv
    obtain rfl | hv := List.mem_cons.mp hv
    · exact ⟨_, first⟩
    · exact ih v hv

theorem isValue_of_valueList {ts : List Token} {values : List Value} (h : ValueList ts values) :
    ∀ v ∈ values, ∃ us, IsValue us v := by
  obtain ⟨hopen, ⟨first, more⟩, hclose⟩ := h
  intro v hv
  obtain rfl | hv := List.mem_cons.mp hv
  · exact ⟨_, first⟩
  · exact isValue_of_many more v hv

theorem written_of_comparison {ts : List Token} {l : Leaf} (h : Comparison ts l) :
    l.Written := by
  cases h with
  | compare hfield hoperator hvalue =>
    intro v hv
    obtain rfl := List.mem_singleton.mp hv
    exact ⟨_, hvalue⟩
  | oneOf hfield hin hvalues => exact isValue_of_valueList hvalues
  | noneOf hfield hnot hin hvalues => exact isValue_of_valueList hvalues

/-- The leaves of a filter are comparisons of the grammar. -/
def WrittenLeaves (f : Filter) : Prop := ∀ l ∈ f.leaves, l.Written

/-- Filters with written leaves, joined to the left, have written leaves. -/
theorem WrittenLeaves.foldl {separator : TokenKind} {c : Connective} {us : List Token} {f : Filter}
    {more : List Filter} (hf : WrittenLeaves f)
    (hmore : Many separator (fun _ g => WrittenLeaves g) us more) :
    WrittenLeaves (more.foldl (.binary c) f) := by
  induction hmore generalizing f with
  | nil => exact hf
  | cons ht hg hmore ih =>
    apply ih
    intro l hl
    obtain hl | hl := List.mem_append.mp hl
    · exact hf l hl
    · exact hg l hl

/-- Every leaf of an expression is a comparison of the grammar. -/
theorem written_of_expression {ts : List Token} {f : Filter} (h : Expression ts f) :
    WrittenLeaves f := by
  have hcompositional : Compositional (fun _ f => WrittenLeaves f) (fun _ f => WrittenLeaves f)
      (fun _ f => WrittenLeaves f) :=
    { expression := WrittenLeaves.foldl
      term := WrittenLeaves.foldl
      not := fun _ h => h
      parens := fun _ h _ => h
      comparison := fun h l hl => by
        obtain rfl := List.mem_singleton.mp hl
        exact written_of_comparison h }
  exact hcompositional.of_expression h

/-- The values of a parsed query are those of the grammar. -/
theorem Query.written_of_parse {text : Text} {q : Query} (h : Query.parse text = .ok q) :
    ∀ l ∈ q.leaves, l.Written := by
  have hquery : Parser.query text.properTokens = .ok q := by
    rw [Query.parse] at h
    cases hparsed : Parser.query text.properTokens with
    | error e => rw [hparsed] at h; cases h
    | ok parsed => rw [hparsed] at h; cases h; rfl
  generalize text.properTokens = tokens at hquery
  obtain ⟨hfilter, hexpand, horder⟩ := Parser.query_sound hquery
  cases hfilter with
  | missing => simp [Query.leaves]
  | present hexpression => exact written_of_expression hexpression

/-! ## Values of the grammar -/

/-- A priority is one of the five levels. -/
def Value.IsLevel : Value → Prop
  | .priority _ level => ∃ n : Nat, n ≤ 4 ∧ level = Number.ofInt n
  | _ => True

theorem priorityLevel?_le {word : Text} {level : Nat} (h : word.priorityLevel? = some level) :
    level ≤ 4 := by
  unfold Text.priorityLevel? at h
  split at h
  · split at h
    · rename_i hword
      simp only [Bool.and_eq_true, decide_eq_true_eq] at hword
      obtain rfl := Option.some.inj h
      exact hword.2
    · cases h
  · cases h

theorem isLevel_of_isValue {ts : List Token} {v : Value} (h : IsValue ts v) : v.IsLevel := by
  cases h with
  | string ht =>
    unfold Parser.stringValue
    split <;> trivial
  | number ht =>
    unfold Parser.numberValue
    split <;> trivial
  | true ht | false ht => trivial
  | word ht =>
    unfold Parser.wordValue
    split
    · rename_i level hlevel
      exact ⟨level, priorityLevel?_le hlevel, rfl⟩
    · dsimp only
      repeat' split
      all_goals trivial

/-- Types and states are the only words of closed lists. -/
theorem type_or_status_of_listed {field : Field} {words : List String}
    (hkind : field.kind = .oneOf words) : field = .type ∨ field = .status := by
  cases field with
  | type => exact .inl rfl
  | status => exact .inr rfl
  | _ => cases hkind

/-- The words of a closed list are no dates. -/
theorem not_date_of_listed {field : Field} {words : List String}
    (hkind : field.kind = .oneOf words) : ∀ w ∈ words,
      Offset.read? OffsetUnit.ofAnyLetter? (Text.ofString w) = none ∧
      (Text.ofString w).toLower ≠ Text.ofString "today" ∧
      (Text.ofString w).toLower ≠ Text.ofString "yesterday" := by
  obtain rfl | rfl := type_or_status_of_listed hkind <;>
  · cases hkind
    decide +kernel

/-- A value of the grammar that a closed list of words allows has one of the words as its text. -/
theorem text_listed {field : Field} {words : List String} (hkind : field.kind = .oneOf words)
    {ts : List Token} {v : Value} (h : IsValue ts v) (hsuits : v.suits field.kind = true) :
    ∃ w ∈ words, v.text = Text.ofString w := by
  have hwords := not_date_of_listed hkind
  rw [hkind, Value.suits, List.any_eq_true] at hsuits
  obtain ⟨w, hw, hgiven⟩ := hsuits
  have hgiven := eq_of_beq hgiven
  obtain ⟨hoffset, htoday, hyesterday⟩ := hwords w hw
  refine ⟨w, hw, ?_⟩
  -- the check looks at the source of a value that is no string; the text of a date may differ
  cases h with
  | @string t ht =>
    rw [hgiven]
    unfold Parser.stringValue
    split <;> rfl
  | @number t ht =>
    unfold Parser.numberValue at hgiven ⊢
    cases hread : Offset.read? OffsetUnit.ofAnyLetter? t.literal with
    | none =>
      rw [hread] at hgiven
      exact hgiven.symm
    | some offset =>
      rw [hread] at hgiven
      have hliteral : Text.ofString w = t.literal := hgiven
      rw [← hliteral, hoffset] at hread
      cases hread
  | true ht | false ht => exact hgiven.symm
  | @word t ht =>
    unfold Parser.wordValue at hgiven ⊢
    cases hlevel : t.literal.priorityLevel? with
    | some level =>
      rw [hlevel] at hgiven
      exact hgiven.symm
    | none =>
      rw [hlevel] at hgiven
      dsimp only at hgiven ⊢
      split
      · rename_i hsmall
        rw [if_pos hsmall] at hgiven
        have hliteral : Text.ofString w = t.literal := hgiven
        -- neither `today` nor `yesterday` is listed
        simp [← hliteral, htoday, hyesterday] at hsmall
      · rename_i hsmall
        rw [if_neg hsmall] at hgiven
        cases hiso : isIsoDate t.literal <;> rw [hiso] at hgiven <;> exact hgiven.symm

/-! ## Queries -/

/-- What holds of every value that a checked query binds: its field takes it, and only a field of
strings is searched for parts. -/
theorem of_mem_bindings {l : Leaf} (hcheck : l.check = .ok ()) {b : Binding}
    (hb : b ∈ l.bindings) :
    b.value ∈ l.values ∧ b.value.suits b.field.kind = true ∧
      (b.isPart = true → b.field.kind = .string) := by
  cases l with
  | compare name op value =>
    obtain ⟨field, hname, hop, hsuits⟩ := Leaf.of_check_compare hcheck
    rw [(Leaf.bindings_compare op value hname).1] at hb
    split at hb
    · obtain rfl := List.mem_singleton.mp hb
      refine ⟨List.mem_singleton_self value, hsuits, fun hpart => ?_⟩
      revert hop hpart
      cases hkind : field.kind <;> cases op <;> simp [FieldKind.operators]
    · exact absurd hb List.not_mem_nil
  | oneOf name values negated =>
    obtain ⟨field, hname, hlist, hsuits⟩ := Leaf.of_check_oneOf hcheck
    simp only [Leaf.bindings, hname, List.mem_map] at hb
    obtain ⟨v, hv, rfl⟩ := hb
    exact ⟨hv, hsuits v hv, fun hpart => absurd hpart Bool.false_ne_true⟩

/-- A level of a priority is bound as it is. -/
theorem Binding.param_priority {b : Binding} (hsuits : b.value.suits b.field.kind = true)
    (hfield : b.field = .priority) (hlevel : b.value.IsLevel) :
    ∃ n : Nat, n ≤ 4 ∧ b.param = .number (Number.ofInt n) := by
  obtain ⟨field, isPart, value⟩ := b
  obtain rfl : field = .priority := hfield
  cases value with
  | priority raw level =>
    obtain ⟨n, hn, rfl⟩ := hlevel
    exact ⟨n, hn, rfl⟩
  | _ => exact absurd hsuits (by simp [Value.suits, Field.kind])

/-- A flag is bound as 1 or 0. -/
theorem Binding.param_pinned {b : Binding} (hsuits : b.value.suits b.field.kind = true)
    (hfield : b.field = .pinned) :
    ∃ raw flag, b.value = .bool raw flag ∧ b.param = .number (if flag then 1 else 0) := by
  obtain ⟨field, isPart, value⟩ := b
  obtain rfl : field = .pinned := hfield
  cases value with
  | bool raw flag => exact ⟨raw, flag, rfl, rfl⟩
  | _ => exact absurd hsuits (by simp [Value.suits, Field.kind])

/-- A value of the grammar for a closed list of words is bound as one of the words. -/
theorem Binding.param_listed {b : Binding} (hsuits : b.value.suits b.field.kind = true)
    (hpart : b.isPart = true → b.field.kind = .string) {ts : List Token}
    (hwritten : IsValue ts b.value) {words : List String} (hkind : b.field.kind = .oneOf words) :
    ∃ w ∈ words, b.param = .text (Text.ofString w) := by
  obtain ⟨w, hw, htext⟩ := text_listed hkind hwritten hsuits
  refine ⟨w, hw, ?_⟩
  obtain ⟨field, isPart, value⟩ := b
  -- a word of a list is compared whole
  have hwhole : isPart = false := by
    cases isPart with
    | false => rfl
    | true => cases hkind.symm.trans (hpart rfl)
  rw [← htext, hwhole]
  obtain rfl | rfl := type_or_status_of_listed hkind <;> rfl

/-- The condition of a checked query, if it has a filter, takes what the query binds. -/
theorem Query.exists_condition {q : Query} (hleaves : ∀ l ∈ q.leaves, l.check = .ok ()) :
    ∃ c, q.filter.mapM Filter.condition = .ok c ∧
      marks ((c.map Condition.render).getD "") = ((c.map Condition.params).getD []).length ∧
      (c.map Condition.params).getD [] = q.bindings.map Binding.param ∧
      ((c.map Condition.params).getD []).length = (q.leaves.map Leaf.markCount).sum := by
  cases hfilter : q.filter with
  | none =>
    have hnone : q.leaves = [] := by simp [Query.leaves, hfilter]
    exact ⟨none, rfl, rfl, by simp [Query.bindings, hnone], by simp [hnone]⟩
  | some f =>
    have hown : q.leaves = f.leaves := by simp [Query.leaves, hfilter]
    obtain ⟨c, hc, hbinds⟩ := f.exists_binds (hown ▸ hleaves)
    refine ⟨some c, ?_, Sql.marks_render hbinds.unmarked, ?_, ?_⟩
    · simp [hc, Functor.map, Except.map]
    · rw [Query.bindings, hown]
      exact hbinds.params
    · rw [hown]
      exact hbinds.count

/-- A checked query becomes SQL whose condition has one `?` for each parameter: none for a leaf
that asks about a set, one for any other comparison, one for each listed value. The order has none.
The parameters are those of the bound values in source order: a level from 0 to 4 for a priority,
1 or 0 for a flag, and for a closed list of words one of the words if the query was written as
text. -/
theorem Query.select_lines_up {q : Query} (hcheck : q.check = .ok ()) :
    ∃ s, q.select = .ok s ∧
      marks s.whereText = s.params.length ∧
      s.params.length = (q.leaves.map Leaf.markCount).sum ∧
      marks s.orderText = 0 ∧
      s.params = q.bindings.map Binding.param ∧
      (∀ b ∈ q.bindings, b.field = .priority → b.value.IsLevel →
        ∃ n : Nat, n ≤ 4 ∧ b.param = .number (Number.ofInt n)) ∧
      (∀ b ∈ q.bindings, b.field = .pinned →
        ∃ raw flag, b.value = .bool raw flag ∧ b.param = .number (if flag then 1 else 0)) ∧
      ∀ text, Query.parse text = .ok q → ∀ b ∈ q.bindings, b.value.IsLevel ∧
        ∀ words, b.field.kind = .oneOf words → ∃ w ∈ words, b.param = .text (Text.ofString w) := by
  obtain ⟨hleaves, horder⟩ := Query.of_check hcheck
  obtain ⟨terms, hterms⟩ := exists_sortTerms horder
  obtain ⟨c, hc, htext, hparams, hcount⟩ := Query.exists_condition hleaves
  -- a value that is bound is a value of a checked leaf
  have hmem {b : Binding} (hb : b ∈ q.bindings) : ∃ l ∈ q.leaves, b.value ∈ l.values ∧
      b.value.suits b.field.kind = true ∧ (b.isPart = true → b.field.kind = .string) := by
    obtain ⟨l, hl, hb⟩ := List.mem_flatMap.mp hb
    exact ⟨l, hl, of_mem_bindings (hleaves l hl) hb⟩
  refine ⟨⟨c, terms⟩, ?_, htext, hcount, marks_orderText hterms c, hparams, ?_, ?_, ?_⟩
  · simp [Query.select, hc, hterms, bind, Except.bind, pure, Except.pure]
  · intro b hb hfield hlevel
    obtain ⟨-, -, -, hsuits, -⟩ := hmem hb
    exact b.param_priority hsuits hfield hlevel
  · intro b hb hfield
    obtain ⟨-, -, -, hsuits, -⟩ := hmem hb
    exact b.param_pinned hsuits hfield
  · intro text hparse b hb
    obtain ⟨l, hl, hvalue, hsuits, hpart⟩ := hmem hb
    -- a query that was read has only values that the grammar writes
    obtain ⟨ts, hwritten⟩ := Query.written_of_parse hparse l hl b.value hvalue
    exact ⟨isLevel_of_isValue hwritten, fun words => b.param_listed hsuits hpart hwritten⟩

/-- The text `type = bug and (title ~ log or priority in (P1, P0)) and ready = true`. -/
def boundText : Text :=
  Text.ofString "type = bug and (title ~ log or priority in (P1, P0)) and ready = true"

/-- What `boundText` asks for. -/
def boundQuery : Query :=
  { filter := some (.binary .and
      (.binary .and
        (.leaf (.compare "type" .eq (.string "bug" "bug")))
        (.binary .or
          (.leaf (.compare "title" .contains (.string "log" "log")))
          (.leaf (.oneOf "priority" [.priority "P1" 1, .priority "P0" 0] false))))
      (.leaf (.compare "ready" .eq (.bool "true" true)))),
    expansion := none, order := [] }

theorem select_lines_up_several :
    boundQuery.check = .ok () ∧ Query.parse boundText = .ok boundQuery ∧
      ∃ s, boundQuery.select = .ok s ∧ marks s.whereText = 4 ∧
        s.params = [.text "bug", .text "%log%", .number 1, .number 0] := by
  have hcheck : boundQuery.check = .ok () := rfl
  have hparse : Query.parse boundText = .ok boundQuery := by
    have hsome : (Query.parse boundText).toOption = some boundQuery := by decide +kernel
    cases hresult : Query.parse boundText with
    | error e => rw [hresult] at hsome; cases hsome
    | ok q => rw [hresult] at hsome; exact congrArg Except.ok (Option.some.inj hsome)
  have hbound : boundQuery.bindings.map Binding.param =
      [.text "bug", .text "%log%", .number 1, .number 0] := by decide +kernel
  obtain ⟨s, hselect, hmarks, -, -, hparams, -⟩ := Query.select_lines_up hcheck
  rw [hbound] at hparams
  exact ⟨hcheck, hparse, s, hselect, by rw [hmarks, hparams]; rfl, hparams⟩

end IssueQuery
