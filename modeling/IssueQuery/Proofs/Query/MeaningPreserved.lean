import IssueQuery.Proofs.Query.Meaning
import IssueQuery.Proofs.Sql.RenderReads

/-!
# SQL keeps the meaning of filters

A checked filter becomes a condition whose text, read as SQL with its parameters in place, is true
of exactly those issues that the filter holds for, and is never unknown. The proof follows the
filter. Its leaves fall into texts, priorities, flags, times, labels and sets, each with a lemma
about the data that SQL compares; connectives need only the truth tables.

* `Leaf.condition_preserves`   the leaves;
* `Filter.condition_preserves` whole filters;
* `Query.select_preserves`     the text and the parameters of a query.
-/

namespace IssueQuery

open Sql (Datum Functions Condition Expr Param LabelTest columnOperand labelOperand idOperand)

section Preserved

variable (fns : Functions) (r : Records)

/-- A condition is read as something that is true of the issue or false, as `holds` says. -/
def Sql.Condition.Says (c : Condition) (holds : Bool) : Prop :=
  ∃ e : Expr, c.Reads e ∧ e.truth fns r.tables r.scope = some holds

variable {fns r}

theorem says_not {c : Condition} {a : Bool} (h : c.Says fns r a) :
    (Condition.not c).Says fns r (!a) := by
  obtain ⟨e, hreads, htruth⟩ := h
  exact ⟨.not e, Sql.reads_not hreads, by simp [Expr.truth, htruth]⟩

theorem says_binary (connective : Connective) {c d : Condition} {a b : Bool}
    (hc : c.Says fns r a) (hd : d.Says fns r b) :
    (Condition.binary connective c d).Says fns r
      (match connective with | .and => a && b | .or => a || b) := by
  obtain ⟨e, hreads, htruth⟩ := hc
  obtain ⟨e', hreads', htruth'⟩ := hd
  refine ⟨_, Sql.reads_binary connective hreads hreads', ?_⟩
  cases connective <;> simp [Expr.join, Expr.truth, htruth, htruth']

/-! ## Columns of texts -/

/-- The text of a field that holds one. A missing assignee is the empty text. -/
def Field.text? (row : IssueRow) : Field → Option Text
  | .type => some row.issueType
  | .status => some row.status
  | .title => some row.title
  | .description => some row.description
  | .id => some row.id
  | .assignee => some (row.assignee.getD [])
  | _ => none

theorem value_text {field : Field} {t : Text} (h : field.text? r.issue = some t) :
    (columnOperand field).value fns r.scope = .text t := by
  cases field with
  | assignee =>
    obtain rfl : r.issue.assignee.getD [] = t := by simpa [Field.text?] using h
    cases hassignee : r.issue.assignee <;>
      simp [columnOperand, Sql.Operand.value, Functions.call, Sql.Atom.value, Records.scope,
        Records.column, hassignee, Datum.isNull, Text.ofString]
  | type | status | title | description | id =>
    simp only [Field.text?, Option.some.injEq] at h
    subst h
    rfl
  | _ => simp [Field.text?] at h

theorem not_pseudo_text {field : Field} {t : Text} (h : field.text? r.issue = some t) :
    field.isPseudo = false := by
  cases field with
  | type | status | title | description | id | assignee => rfl
  | _ => simp [Field.text?] at h

/-- The operators of a field that holds a text. -/
theorem operators_text {field : Field} {t : Text} (h : field.text? r.issue = some t)
    {op : ComparisonOp} (hop : op ∈ field.kind.operators) :
    op ∈ [.eq, .ne, .contains, .notContains] := by
  cases field with
  | type | status | title | description | id | assignee => revert hop; revert op; decide
  | _ => simp [Field.text?] at h

theorem comparison_text {field : Field} {t : Text} (h : field.text? r.issue = some t)
    {op : ComparisonOp} (hop : op ∈ field.kind.operators) (value : Value) :
    (field.comparison op value).Says fns r (fns.textMatches op value t != op.isNegative) := by
  have hvalue : (columnOperand field).value fns r.scope = .text t := value_text h
  have hcomparison : field.comparison op value =
      if op = .contains || op = .notContains then
        .like field.column (op = .ne || op = .notContains) (containsPattern value.text)
      else .compare field.column op (.text value.text) := by
    cases field with
    | type | status | title | description | id | assignee => rfl
    | _ => simp [Field.text?] at h
  have hplain := not_pseudo_text h
  rw [hcomparison]
  have hcases := operators_text h hop
  simp only [List.mem_cons, List.not_mem_nil, or_false] at hcases
  -- `=`, `!=`, `~` and `!~`
  obtain rfl | rfl | rfl | rfl := hcases
  · refine ⟨_, Sql.reads_compare hplain rfl _, (Sql.truth_compareParam hvalue rfl).trans ?_⟩
    simp [Param.datum, Datum.satisfies, Functions.textMatches, ComparisonOp.isNegative]
  · refine ⟨_, Sql.reads_compare hplain rfl _, (Sql.truth_compareParam hvalue rfl).trans ?_⟩
    simp [Param.datum, Datum.satisfies, Functions.textMatches, ComparisonOp.isNegative]
  · exact ⟨_, Sql.reads_like hplain false _, Sql.truth_like hvalue⟩
  · exact ⟨_, Sql.reads_like hplain true _, Sql.truth_like hvalue⟩

theorem listTest_text {field : Field} {t : Text} (h : field.text? r.issue = some t)
    (values : List Value) (negated : Bool) :
    (field.listTest values negated).Says fns r ((values.any fun v => t == v.text) != negated) := by
  have htest : field.listTest values negated =
      .oneOf field.column negated (values.map fun v => .text v.text) := by
    cases field with
    | type | status | title | description | id | assignee => rfl
    | _ => simp [Field.text?] at h
  rw [htest]
  refine ⟨_, Sql.reads_oneOf (not_pseudo_text h) negated _, ?_⟩
  rw [Sql.truth_oneOf (value_text h) rfl (by simp)]
  simp [Function.comp_def, Param.datum]

/-! ## Priorities and flags -/

theorem isSqlOperator_of_mem {op : ComparisonOp} (h : op ∈ FieldKind.priority.operators) :
    Sql.isSqlOperator op = true := by
  revert h
  cases op <;> decide

theorem comparison_priority {op : ComparisonOp} (hop : op ∈ FieldKind.priority.operators)
    (raw : Text) (level : Number) :
    (Field.priority.comparison op (.priority raw level)).Says fns r
      ((Datum.number r.issue.priority).satisfies op (.number level)) := by
  have hsql := isSqlOperator_of_mem hop
  have hcomparison : Field.priority.comparison op (.priority raw level) =
      .compare Field.priority.column op (.number level) := by
    cases op with
    | contains | notContains => exact absurd hsql (by decide)
    | _ => rfl
  rw [hcomparison]
  exact ⟨_, Sql.reads_compare rfl hsql _, Sql.truth_compareParam rfl rfl⟩

/-- The parameters for the priorities in a list are their levels. -/
theorem map_bind_priority {values : List Value}
    (hvalues : ∀ v ∈ values, v.suits .priority = true) :
    values.map (Field.bind .priority) = values.map fun v => .number v.level := by
  apply List.map_congr_left
  intro v hv
  have hsuits := hvalues v hv
  cases v with
  | priority raw level => rfl
  | _ => exact absurd hsuits (by simp [Value.suits])

theorem listTest_priority {values : List Value} (negated : Bool)
    (hvalues : ∀ v ∈ values, v.suits .priority = true) :
    (Field.priority.listTest values negated).Says fns r
      ((values.any fun v => (Datum.number r.issue.priority).same (.number v.level)) != negated) := by
  have htest : Field.priority.listTest values negated =
      .oneOf Field.priority.column negated (values.map fun v => .number v.level) := by
    rw [← map_bind_priority hvalues]
    rfl
  rw [htest]
  refine ⟨_, Sql.reads_oneOf rfl negated _, ?_⟩
  have hvalue : (columnOperand .priority).value fns r.scope = .number r.issue.priority := rfl
  rw [Sql.truth_oneOf hvalue rfl (by simp)]
  simp [Function.comp_def, Param.datum]

/-- The number that stands for a flag. -/
def flagDatum (b : Bool) : Datum := .number (if b then 1 else 0)

theorem same_flagDatum (a b : Bool) : (flagDatum a).same (flagDatum b) = (a == b) := by
  revert a b
  decide +kernel

/-- A missing flag is not set. -/
theorem value_pinned :
    (columnOperand .pinned).value fns r.scope = flagDatum (r.issue.pinned.getD false) := by
  cases hpinned : r.issue.pinned with
  | none =>
    simp [columnOperand, Sql.Operand.value, Functions.call, Sql.Atom.value, Records.scope,
      Records.column, hpinned, Datum.isNull, flagDatum]
    rfl
  | some pinned =>
    simp [columnOperand, Sql.Operand.value, Functions.call, Sql.Atom.value, Records.scope,
      Records.column, hpinned, Datum.isNull, flagDatum]

theorem comparison_pinned {op : ComparisonOp} (hop : op ∈ FieldKind.bool.operators)
    (value : Value) :
    (Field.pinned.comparison op value).Says fns r
      ((r.issue.pinned.getD false == value.isTrue) != op.isNegative) := by
  have hcomparison : Field.pinned.comparison op value =
      .compare Field.pinned.column op (.number (if value.isTrue then 1 else 0)) := rfl
  have hparam : (Param.number (if value.isTrue then 1 else 0)).datum = flagDatum value.isTrue := rfl
  rw [hcomparison]
  simp only [FieldKind.operators, List.mem_cons, List.not_mem_nil, or_false] at hop
  -- `=` and `!=`
  obtain rfl | rfl := hop
  · refine ⟨_, Sql.reads_compare rfl rfl _, (Sql.truth_compareParam value_pinned rfl).trans ?_⟩
    rw [hparam, Datum.satisfies, same_flagDatum]
    simp [ComparisonOp.isNegative]
  · refine ⟨_, Sql.reads_compare rfl rfl _, (Sql.truth_compareParam value_pinned rfl).trans ?_⟩
    rw [hparam, Datum.satisfies, same_flagDatum]
    simp [ComparisonOp.isNegative]

/-! ## Times -/

/-- The moment of a date is the point of time that the date stands for. -/
theorem value_moment (date : Text) : (moment date).operand.value fns r.scope = fns.timeOf date := by
  unfold moment Functions.timeOf
  split
  · -- `today`
    rfl
  · split
    · rfl
    · cases hread : Offset.read? OffsetUnit.ofLetter? date with
      | none => rfl
      | some o =>
        obtain ⟨sign, digits, unit⟩ := o
        cases unit <;>
          simp [Sql.Moment.operand, Sql.Operand.value, Functions.call, Sql.Atom.value, Param.datum,
            Offset.modifier, OffsetUnit.plural, Text.ofString]

/-- A comparison of dates becomes a comparison of times. -/
theorem Field.comparison_of_date {field : Field} (hkind : field.kind = .date) (op : ComparisonOp)
    (value : Value) :
    field.comparison op value = .compareTime field.column op (moment value.text) := by
  cases field with
  | created | updated => rfl
  | _ => cases hkind

theorem comparison_time {field : Field} {column : Datum}
    (hcolumn : field.time? r.issue = some column) {op : ComparisonOp}
    (hop : op ∈ FieldKind.date.operators) (value : Value)
    (hknown : (fns.datetime [column]).isNull = false)
    (hknown' : (fns.timeOf value.text).isNull = false) :
    (field.comparison op value).Says fns r
      ((fns.datetime [column]).satisfies op (fns.timeOf value.text)) := by
  have hsql : Sql.isSqlOperator op = true := isSqlOperator_of_mem hop
  have hkind : field.kind = .date := by
    cases field with
    | created | updated => rfl
    | _ => simp [Field.time?] at hcolumn
  -- what SQL compares with is the time in the row
  have hvalue : (Sql.Operand.call "datetime"
      [.column "i" (if field = .created then "created_at" else "updated_at")]).value fns r.scope =
        fns.datetime [column] := by
    cases field with
    | created | updated =>
      simp only [Field.time?, Option.some.injEq] at hcolumn
      subst hcolumn
      rfl
    | _ => simp [Field.time?] at hcolumn
  rw [Field.comparison_of_date hkind]
  exact ⟨_, Sql.reads_compareTime hkind hsql _,
    Sql.truth_compare hvalue (value_moment value.text) hknown hknown'⟩

/-! ## Labels -/

/-- A search for the identifiers of the labels that pass a test finds that of the issue exactly if
one of its own labels passes. -/
theorem any_labels (passes : Text → Bool) :
    (((r.labels.filter fun l => passes l.2).map fun l => Datum.text l.1).any
      (Datum.text r.issue.id).same) = r.ownLabels.any passes := by
  rw [Bool.eq_iff_iff]
  simp only [Records.ownLabels, List.any_eq_true, List.mem_map, List.mem_filter]
  constructor
  · -- a row that was found carries the identifier of the issue
    rintro ⟨_, ⟨l, ⟨hl, hpasses⟩, rfl⟩, hsame⟩
    have hid : r.issue.id = l.1 := by simpa using hsame
    exact ⟨l.2, ⟨l, ⟨hl, by simp [hid]⟩, rfl⟩, hpasses⟩
  · rintro ⟨_, ⟨l, ⟨hl, hid⟩, rfl⟩, hpasses⟩
    have hid : l.1 = r.issue.id := by simpa using hid
    exact ⟨_, ⟨l, ⟨hl, hpasses⟩, rfl⟩, by simp [hid]⟩

theorem says_labelled (negated : Bool) {test : LabelTest} {passes : Text → Bool}
    (htest : ∀ l : Text × Text,
      test.expr.truth fns r.tables (r.scope.within (Records.labelRow l)) = some (passes l.2)) :
    (Condition.labelled negated test).Says fns r (r.ownLabels.any passes != negated) := by
  refine ⟨_, Sql.reads_labelled negated test, ?_⟩
  have hid : idOperand.value fns r.scope = .text r.issue.id := rfl
  have hlabels : r.tables "labels" = r.labels.map Records.labelRow := rfl
  -- the rows that are found are those whose label passes
  have hfound : ((r.tables "labels").filter fun row =>
      test.expr.truth fns r.tables (r.scope.within row) == some true).map (fun row => row "issue_id")
        = (r.labels.filter fun l => passes l.2).map fun l => Datum.text l.1 := by
    rw [hlabels, List.filter_map, List.map_map]
    congr 1
    apply List.filter_congr
    intro l _
    simp [htest l]
  have hknown : ∀ d ∈ (r.labels.filter fun l => passes l.2).map fun l => Datum.text l.1,
      d.isNull = false := by
    intro d hd
    obtain ⟨l, -, rfl⟩ := List.mem_map.mp hd
    rfl
  rw [Expr.truth, hid, hfound, Datum.among_of_not_null rfl hknown, any_labels,
    Sql.Truth.negateIf_some]

theorem value_label (l : Text × Text) :
    labelOperand.value fns (r.scope.within (Records.labelRow l)) = .text l.2 := rfl

theorem comparison_label {field : Field} (hfield : field.isLabel = true) {op : ComparisonOp}
    (hop : op ∈ FieldKind.string.operators) (value : Value) :
    (field.comparison op value).Says fns r
      (r.ownLabels.any (fns.textMatches op value) != op.isNegative) := by
  have hcomparison : field.comparison op value =
      .labelled (op = .ne || op = .notContains)
        (if op = .contains || op = .notContains then .like (containsPattern value.text)
          else .eq (.text value.text)) := by
    cases field with
    | label | labels => rfl
    | _ => exact absurd hfield (by decide)
  rw [hcomparison]
  simp only [FieldKind.operators, List.mem_cons, List.not_mem_nil, or_false] at hop
  -- `=`, `!=`, `~` and `!~`; the negated ones ask for the same labels
  obtain rfl | rfl | rfl | rfl := hop
  · exact says_labelled false fun l => Sql.truth_compareParam (value_label l) rfl
  · exact says_labelled true fun l => Sql.truth_compareParam (value_label l) rfl
  · refine says_labelled false fun l => (Sql.truth_like (value_label l)).trans ?_
    simp [Functions.textMatches]
  · refine says_labelled true fun l => (Sql.truth_like (value_label l)).trans ?_
    simp [Functions.textMatches]

theorem listTest_label {field : Field} (hfield : field.isLabel = true) (values : List Value)
    (negated : Bool) :
    (field.listTest values negated).Says fns r
      ((r.ownLabels.any fun t => values.any fun v => t == v.text) != negated) := by
  have htest : field.listTest values negated =
      .labelled negated (.oneOf (values.map fun v => .text v.text)) := by
    cases field with
    | label | labels => rfl
    | _ => exact absurd hfield (by decide)
  rw [htest]
  refine says_labelled negated fun l => (Sql.truth_oneOf (value_label l) rfl (by simp)).trans ?_
  simp [Function.comp_def, Param.datum]

/-! ## Sets of issues -/

/-- The identifiers of the issues in a set. -/
def Records.ids (r : Records) : Sql.IssueSet → List Text
  | .blocked => r.blocked
  | .ready => r.ready

theorem says_member (negated : Bool) (set : Sql.IssueSet) :
    (Condition.member negated set).Says fns r ((r.ids set).contains r.issue.id != negated) := by
  refine ⟨_, Sql.reads_member negated set, ?_⟩
  have hid : idOperand.value fns r.scope = .text r.issue.id := rfl
  have hids : ((r.tables set.source.2).map fun row => row set.source.1) =
      (r.ids set).map Datum.text := by
    cases set <;> simp [Sql.IssueSet.source, Records.tables, Records.ids, Records.idRow,
      Function.comp_def]
  have hany : ((r.ids set).map Datum.text).any (Datum.text r.issue.id).same =
      (r.ids set).contains r.issue.id := by
    rw [Bool.eq_iff_iff]
    simp
  rw [Expr.truth, hid, hids, Datum.among_of_not_null rfl (by simp), hany,
    Sql.Truth.negateIf_some]

theorem comparison_set {field : Field} {set : Sql.IssueSet} (hset : field.set? = some set)
    {op : ComparisonOp} (hop : op ∈ FieldKind.bool.operators) (value : Value) :
    (field.comparison op value).Says fns r
      ((r.ids set).contains r.issue.id == (value.isTrue != op.isNegative)) := by
  have hcomparison : field.comparison op value = .member (value.isTrue == (op == .ne)) set := by
    rw [Field.comparison, hset]
  -- a flag that is compared by `!=` counts as the other flag
  have hnegated : ((r.ids set).contains r.issue.id == (value.isTrue != op.isNegative)) =
      ((r.ids set).contains r.issue.id != (value.isTrue == (op == .ne))) := by
    simp only [FieldKind.operators, List.mem_cons, List.not_mem_nil, or_false] at hop
    generalize (r.ids set).contains r.issue.id = found
    generalize value.isTrue = expected
    obtain rfl | rfl := hop <;> revert found expected <;> decide
  rw [hcomparison, hnegated]
  exact says_member _ set

/-! ## Leaves -/

/-- What a check of all elements accepts, the check of each of them accepts. -/
theorem forM_eq_ok {α ε : Type} {f : α → Except ε Unit} {l : List α} :
    l.forM f = .ok () ↔ ∀ a ∈ l, f a = .ok () := by
  induction l with
  | nil => simp [pure, Except.pure]
  | cons a l ih =>
    have hcons : (a :: l).forM f = (f a >>= fun _ => l.forM f) := rfl
    rw [hcons, List.forall_mem_cons, ← ih]
    cases hf : f a with
    | error e => simp [bind, Except.bind]
    | ok u => simp [bind, Except.bind]

theorem suits_of_checkValue {field : Field} {value : Value} (h : field.checkValue value = .ok ()) :
    value.suits field.kind = true := by
  unfold Field.checkValue at h
  split at h
  · assumption
  · cases h

/-- What a checked comparison is. -/
theorem Leaf.of_check_compare {name : Text} {op : ComparisonOp} {value : Value}
    (h : (Leaf.compare name op value).check = .ok ()) :
    ∃ field, Field.ofName? name = some field ∧ op ∈ field.kind.operators ∧
      value.suits field.kind = true := by
  cases hname : Field.ofName? name with
  | none => simp [check, Field.require, hname, bind, Except.bind] at h
  | some field =>
    simp only [check, Field.require, hname, bind, Except.bind] at h
    split at h
    · rename_i hop
      exact ⟨field, rfl, List.contains_iff_mem.mp hop, suits_of_checkValue h⟩
    · cases h

/-- What a checked test against a list is. -/
theorem Leaf.of_check_oneOf {name : Text} {values : List Value} {negated : Bool}
    (h : (Leaf.oneOf name values negated).check = .ok ()) :
    ∃ field, Field.ofName? name = some field ∧ field.kind.allowsList = true ∧
      ∀ v ∈ values, v.suits field.kind = true := by
  cases hname : Field.ofName? name with
  | none => simp [check, Field.require, hname, bind, Except.bind] at h
  | some field =>
    simp only [check, Field.require, hname, bind, Except.bind] at h
    split at h
    · rename_i hlist
      exact ⟨field, rfl, hlist, fun v hv => suits_of_checkValue (forM_eq_ok.mp h v hv)⟩
    · cases h

theorem Leaf.condition_compare_eq_ok_iff {name : Text} {op : ComparisonOp} {value : Value}
    {c : Condition} : (Leaf.compare name op value).condition = .ok c ↔
      ∃ field, Field.ofName? name = some field ∧ field.comparison op value = c := by
  cases hname : Field.ofName? name <;>
    simp [condition, Field.named, hname, bind, Except.bind, pure, Except.pure]

theorem Leaf.condition_oneOf_eq_ok_iff {name : Text} {values : List Value} {negated : Bool}
    {c : Condition} : (Leaf.oneOf name values negated).condition = .ok c ↔
      ∃ field, Field.ofName? name = some field ∧ field.listTest values negated = c := by
  cases hname : Field.ofName? name <;>
    simp [condition, Field.named, hname, bind, Except.bind, pure, Except.pure]

theorem OrderTerm.sortTerm_eq_ok_iff {term : OrderTerm} {t : Sql.SortTerm} :
    term.sortTerm = .ok t ↔
      ∃ field, Field.ofName? term.field = some field ∧ ⟨field.sortKey, term.descending⟩ = t := by
  cases hname : Field.ofName? term.field <;>
    simp [sortTerm, Field.named, hname, bind, Except.bind, pure, Except.pure]

theorem comparison_says {field : Field} {op : ComparisonOp} {value : Value}
    (hop : op ∈ field.kind.operators) (hvalue : value.suits field.kind = true)
    (htimes : ∀ column, field.time? r.issue = some column →
      (fns.datetime [column]).isNull = false ∧ (fns.timeOf value.text).isNull = false) :
    (field.comparison op value).Says fns r (field.holds fns r op value) := by
  cases field with
  | type | status | title | description | id | assignee => exact comparison_text rfl hop value
  | priority =>
    cases value with
    | priority raw level => exact comparison_priority hop raw level
    | _ => exact absurd hvalue (by simp [Field.kind, Value.suits])
  | pinned => exact comparison_pinned hop value
  | created | updated =>
    obtain ⟨hknown, hknown'⟩ := htimes _ rfl
    exact comparison_time rfl hop value hknown hknown'
  | label | labels => exact comparison_label rfl hop value
  | blocked =>
    have hset : Field.blocked.set? = some .blocked := rfl
    exact comparison_set hset hop value
  | ready =>
    have hset : Field.ready.set? = some .ready := rfl
    exact comparison_set hset hop value

theorem listTest_says {field : Field} {values : List Value} (negated : Bool)
    (hlist : field.kind.allowsList = true) (hvalues : ∀ v ∈ values, v.suits field.kind = true) :
    (field.listTest values negated).Says fns r (field.isAmong r values != negated) := by
  cases field with
  | type | status | title | description | id | assignee => exact listTest_text rfl values negated
  | priority => exact listTest_priority negated hvalues
  | label | labels => exact listTest_label rfl values negated
  | pinned | blocked | ready | created | updated => exact absurd hlist (by decide)

/-- The condition of a checked leaf says of an issue what the leaf does. -/
theorem Leaf.condition_preserves {l : Leaf} (hcheck : l.check = .ok ())
    (htimes : l.TimesKnown fns r) :
    ∃ c, l.condition = .ok c ∧ c.Says fns r (l.holds fns r) := by
  cases l with
  | compare name op value =>
    obtain ⟨field, hname, hop, hsuits⟩ := Leaf.of_check_compare hcheck
    refine ⟨field.comparison op value, Leaf.condition_compare_eq_ok_iff.mpr ⟨field, hname, rfl⟩, ?_⟩
    have hholds : holds fns r (.compare name op value) = field.holds fns r op value := by
      simp [holds, hname]
    rw [hholds]
    exact comparison_says hop hsuits fun column hcolumn => htimes field column hname hcolumn
  | oneOf name values negated =>
    obtain ⟨field, hname, hlist, hsuits⟩ := Leaf.of_check_oneOf hcheck
    refine ⟨field.listTest values negated,
      Leaf.condition_oneOf_eq_ok_iff.mpr ⟨field, hname, rfl⟩, ?_⟩
    have hholds : holds fns r (.oneOf name values negated) =
        (field.isAmong r values != negated) := by
      simp [holds, hname]
    rw [hholds]
    exact listTest_says negated hlist hsuits

/-! ## Filters and queries -/

/-- The condition of a checked filter says of an issue what the filter does. -/
theorem Filter.condition_preserves {f : Filter} (hcheck : ∀ l ∈ f.leaves, l.check = .ok ())
    (htimes : ∀ l ∈ f.leaves, l.TimesKnown fns r) :
    ∃ c, f.condition = .ok c ∧ c.Says fns r (f.holds fns r) := by
  -- induction on the filter, whose leaves are all checked
  induction f with
  | leaf l => exact l.condition_preserves (hcheck l (by simp [leaves])) (htimes l (by simp [leaves]))
  | not f ih =>
    obtain ⟨c, hc, hsays⟩ := ih hcheck htimes
    refine ⟨.not c, ?_, says_not hsays⟩
    simp [condition, hc, bind, Except.bind, pure, Except.pure]
  | binary connective left right ihl ihr =>
    simp only [leaves, List.mem_append] at hcheck htimes
    obtain ⟨c, hc, hsays⟩ := ihl (fun l hl => hcheck l (.inl hl)) (fun l hl => htimes l (.inl hl))
    obtain ⟨d, hd, hsays'⟩ := ihr (fun l hl => hcheck l (.inr hl)) (fun l hl => htimes l (.inr hl))
    refine ⟨.binary connective c d, ?_, ?_⟩
    · simp [condition, hc, hd, bind, Except.bind, pure, Except.pure]
    · have hholds := says_binary connective hsays hsays'
      cases connective <;> exact hholds

/-- A checked order becomes an order of rows. -/
theorem exists_sortTerms {order : List OrderTerm} (h : ∀ t ∈ order, t.check = .ok ()) :
    ∃ terms, order.mapM OrderTerm.sortTerm = .ok terms := by
  induction order with
  | nil => exact ⟨[], rfl⟩
  | cons t order ih =>
    obtain ⟨terms, hterms⟩ := ih fun t' ht' => h t' (List.mem_cons_of_mem t ht')
    have ht := h t List.mem_cons_self
    cases hname : Field.ofName? t.field with
    | none => simp [OrderTerm.check, hname] at ht
    | some field =>
      have hterm := OrderTerm.sortTerm_eq_ok_iff.mpr ⟨field, hname, rfl⟩
      refine ⟨⟨field.sortKey, t.descending⟩ :: terms, ?_⟩
      simp [List.mapM_cons, hterm, hterms, bind, Except.bind, pure, Except.pure]

/-- A check accepts the leaves and the order terms of what it accepts. -/
theorem Query.of_check {q : Query} (h : q.check = .ok ()) :
    (∀ l ∈ q.leaves, l.check = .ok ()) ∧ ∀ t ∈ q.order, t.check = .ok () := by
  unfold check at h
  cases hleaves : q.leaves.forM Leaf.check with
  | error e => simp [hleaves, bind, Except.bind] at h
  | ok u =>
    rw [hleaves] at h
    exact ⟨forM_eq_ok.mp hleaves, forM_eq_ok.mp h⟩

/-- SQL keeps the meaning of a checked query: its condition, read as SQL text whose `?` take the
parameters from left to right, is true of an issue that the filter holds for, false of any other
one, and never unknown. -/
theorem Query.select_preserves {q : Query} (hcheck : q.check = .ok ()) {f : Filter}
    (hfilter : q.filter = some f) (htimes : ∀ l ∈ f.leaves, l.TimesKnown fns r) :
    ∃ s e, q.select = .ok s ∧ Sql.readText s.whereText s.params = some e ∧
      e.truth fns r.tables r.scope = some (f.holds fns r) := by
  obtain ⟨hleaves, horder⟩ := Query.of_check hcheck
  have hown : q.leaves = f.leaves := by simp [Query.leaves, hfilter]
  rw [hown] at hleaves
  obtain ⟨c, hc, e, hreads, htruth⟩ := f.condition_preserves hleaves htimes
  obtain ⟨terms, hterms⟩ := exists_sortTerms horder
  refine ⟨⟨some c, terms⟩, e, ?_, Sql.readText_of_reads hreads, htruth⟩
  simp [Query.select, hfilter, hc, hterms, bind, Except.bind, pure, Except.pure, Functor.map,
    Except.map]

end Preserved

/-- Functions that do as the database's on texts without wildcards and on days. -/
def plainFunctions : Functions where
  like t pattern := t.contains (pattern.drop 1).dropLast
  datetime
    | [.text day] => .text (day ++ " 00:00:00")
    | _ => .null
  date _ := .null

/-- An issue without assignee that has one label and is not blocked. -/
def plainRecords : Records where
  issue :=
    { id := "bd-1", title := "Fix log in", description := "", status := "open", issueType := "bug",
      priority := 1, assignee := none, pinned := none, createdAt := .text "2024-02-01",
      updatedAt := .text "2024-02-02" }
  labels := [("bd-1", "ui"), ("bd-2", "api")]
  blocked := ["bd-2"]
  ready := ["bd-1"]

/-- The filter `created >= 2024-01-15 AND title ~ log AND (label NOT IN (api, core) OR
blocked != false)`. -/
def plainFilter : Filter :=
  .binary .and
    (.binary .and
      (.leaf (.compare "created" .ge (.date "2024-01-15" "2024-01-15")))
      (.leaf (.compare "title" .contains (.string "log" "log"))))
    (.binary .or
      (.leaf (.oneOf "label" [.string "api" "api", .string "core" "core"] true))
      (.leaf (.compare "blocked" .ne (.bool "false" false))))

theorem select_preserves_plain :
    (∀ l ∈ plainFilter.leaves, l.TimesKnown plainFunctions plainRecords) ∧
      ∃ s e, Query.select ⟨some plainFilter, none, []⟩ = .ok s ∧
        Sql.readText s.whereText s.params = some e ∧
        e.truth plainFunctions plainRecords.tables plainRecords.scope = some true := by
  have htimes : ∀ l ∈ plainFilter.leaves, l.TimesKnown plainFunctions plainRecords := by
    intro l hl
    simp only [plainFilter, Filter.leaves, List.cons_append, List.nil_append, List.mem_cons,
      List.not_mem_nil, or_false] at hl
    have hcreated : Field.ofName? "created" = some .created := by decide +kernel
    have htitle : Field.ofName? "title" = some .title := by decide +kernel
    have hblocked : Field.ofName? "blocked" = some .blocked := by decide +kernel
    -- only the leaf of a date has a time to be known
    obtain rfl | rfl | rfl | rfl := hl
    · intro field column hfield hcolumn
      obtain rfl : .created = field := by simpa [hcreated] using hfield
      obtain rfl : .text "2024-02-01" = column := by
        simpa [Field.time?, plainRecords] using hcolumn
      decide +kernel
    · intro field column hfield hcolumn
      obtain rfl : .title = field := by simpa [htitle] using hfield
      cases hcolumn
    · trivial
    · intro field column hfield hcolumn
      obtain rfl : .blocked = field := by simpa [hblocked] using hfield
      cases hcolumn
  have hholds : plainFilter.holds plainFunctions plainRecords = true := by decide +kernel
  refine ⟨htimes, ?_⟩
  rw [← hholds]
  exact Query.select_preserves rfl rfl htimes

end IssueQuery
