import IssueQuery.Query.Selection

/-!
# The pieces of a text

The text of a condition is put together from pieces that are known beforehand: some that are always
the same, the symbols of operators, and the expressions that hold the fields. Which of the operators
and fields turn up is what `Condition.Uses` says.

* `MadeOf`          a text that is some of the given pieces, one behind the other;
* `Condition.Uses`  the fields and operators of a condition;
* `madeOf_render`   the text of a condition is made of fixed pieces and those.
-/

namespace IssueQuery.Sql

/-! ## Texts made of pieces -/

/-- The text is some of the pieces, one behind the other. -/
inductive MadeOf (pieces : List String) : String → Prop
  | nil : MadeOf pieces ""
  | piece (text : String) (h : text ∈ pieces) : MadeOf pieces text
  | append {a b : String} (ha : MadeOf pieces a) (hb : MadeOf pieces b) : MadeOf pieces (a ++ b)

namespace MadeOf

variable {pieces : List String} {text : String}

theorem intercalate {separator : String} {texts : List String} (hseparator : separator ∈ pieces)
    (h : ∀ t ∈ texts, MadeOf pieces t) : MadeOf pieces (separator.intercalate texts) := by
  induction texts with
  | nil =>
    rw [String.intercalate_nil]
    exact .nil
  | cons t texts ih =>
    have ht := h t List.mem_cons_self
    cases texts with
    | nil =>
      rw [String.intercalate_singleton]
      exact ht
    | cons u texts =>
      rw [String.intercalate_cons_cons]
      exact (ht.append (.piece separator hseparator)).append (ih fun t' ht' => h t' (.tail t ht'))

/-- A character of the text is one of a piece. -/
theorem exists_piece (h : MadeOf pieces text) {c : Char} (hc : c ∈ text.toList) :
    ∃ p ∈ pieces, c ∈ p.toList := by
  induction h with
  | nil => exact absurd hc List.not_mem_nil
  | piece text h => exact ⟨text, h, hc⟩
  | append ha hb iha ihb =>
    rw [String.toList_append, List.mem_append] at hc
    exact hc.elim iha ihb

end MadeOf

/-! ## Conditions -/

/-- The pieces that do not depend on the query. -/
def fixedPieces : List String :=
  ["(", ")", " ", ", ", "?", "AND", "OR", "NOT (", "NOT IN", "IN", " (", " ?", "= ?", "LIKE ?",
    " LIKE ?", " NOT LIKE ?", "IN (", "i.id ", "datetime(", ") ", "date('now', ?)",
    "datetime('now', ?)", " (SELECT issue_id FROM labels WHERE label ",
    "SELECT issue_id FROM blocked_issues_cache", "SELECT id FROM ready_issues", "(i.id IN (", "))",
    "(SELECT MIN(label) FROM labels WHERE issue_id = i.id)", " ASC", " DESC", "i.updated_at DESC"]

/-- The pieces of SQL about some fields with some operators. -/
def pieces (fields : List Field) (ops : List ComparisonOp) : List String :=
  fixedPieces ++ ops.map ComparisonOp.symbol ++ fields.map Field.column

/-- Each column of the condition holds one of the fields, and each comparison is by one of the
operators. -/
def Condition.Uses (fields : List Field) (ops : List ComparisonOp) : Condition → Prop
  | .compare column op _ | .compareTime column op _ =>
    (∃ field ∈ fields, column = field.column) ∧ op ∈ ops
  | .like column _ _ | .oneOf column _ _ => ∃ field ∈ fields, column = field.column
  | .member .. | .labelled .. => True
  | .not c => c.Uses fields ops
  | .binary _ left right => left.Uses fields ops ∧ right.Uses fields ops

section

variable {fields : List Field} {ops : List ComparisonOp}

theorem madeOf_fixed {text : String} (h : text ∈ fixedPieces) : MadeOf (pieces fields ops) text :=
  .piece text (List.mem_append_left _ (List.mem_append_left _ h))

theorem madeOf_symbol {op : ComparisonOp} (h : op ∈ ops) : MadeOf (pieces fields ops) op.symbol :=
  .piece _ (List.mem_append_left _ (List.mem_append_right _ (List.mem_map_of_mem h)))

theorem madeOf_column {field : Field} (h : field ∈ fields) :
    MadeOf (pieces fields ops) field.column :=
  .piece _ (List.mem_append_right _ (List.mem_map_of_mem h))

theorem madeOf_placeholders (count : Nat) : MadeOf (pieces fields ops) (placeholders count) := by
  have hcomma : ", " ∈ pieces fields ops := by simp [pieces, fixedPieces]
  refine MadeOf.intercalate hcomma fun t ht => ?_
  rw [List.eq_of_mem_replicate ht]
  exact madeOf_fixed (by decide)

theorem madeOf_membership (negated : Bool) : MadeOf (pieces fields ops) (membership negated) :=
  madeOf_fixed (by cases negated <;> decide)

theorem madeOf_set (set : IssueSet) : MadeOf (pieces fields ops) set.render :=
  madeOf_fixed (by cases set <;> decide)

theorem madeOf_connective (connective : Connective) :
    MadeOf (pieces fields ops) connective.word :=
  madeOf_fixed (by cases connective <;> decide)

theorem madeOf_moment (moment : Moment) : MadeOf (pieces fields ops) moment.render :=
  madeOf_fixed (by cases moment <;> simp [Moment.render, fixedPieces])

theorem madeOf_labelTest (test : LabelTest) : MadeOf (pieces fields ops) test.render := by
  cases test with
  | eq p | like p => exact madeOf_fixed (by simp [LabelTest.render, fixedPieces])
  | oneOf ps =>
    have hin : MadeOf (pieces fields ops) "IN (" := madeOf_fixed (by decide)
    exact (hin.append (madeOf_placeholders ps.length)).append (madeOf_fixed (by decide))

/-- The text of a condition is made of the fixed pieces, the symbols of its operators and the
columns of its fields. -/
theorem madeOf_render {c : Condition} (h : c.Uses fields ops) :
    MadeOf (pieces fields ops) c.render := by
  -- the fixed texts are concatenations of pieces, which deciding finds; the parts are put between
  -- them
  have hspace : MadeOf (pieces fields ops) " " := madeOf_fixed (by decide)
  have hopen : MadeOf (pieces fields ops) " (" := madeOf_fixed (by decide)
  have hclose : MadeOf (pieces fields ops) ")" := madeOf_fixed (by decide)
  have hid : MadeOf (pieces fields ops) "i.id " := madeOf_fixed (by decide)
  induction c with
  | compare column op p =>
    obtain ⟨⟨field, hfield, rfl⟩, hop⟩ := h
    have hcompared := ((madeOf_column hfield).append hspace).append (madeOf_symbol hop)
    exact hcompared.append (madeOf_fixed (by decide))
  | compareTime column op moment =>
    obtain ⟨⟨field, hfield, rfl⟩, hop⟩ := h
    have hcall : MadeOf (pieces fields ops) "datetime(" := madeOf_fixed (by decide)
    have hend : MadeOf (pieces fields ops) ") " := madeOf_fixed (by decide)
    have hcompared := ((hcall.append (madeOf_column hfield)).append hend).append (madeOf_symbol hop)
    exact (hcompared.append hspace).append (madeOf_moment moment)
  | like column negated p =>
    obtain ⟨field, hfield, rfl⟩ := h
    exact (madeOf_column hfield).append (madeOf_fixed (by cases negated <;> decide))
  | oneOf column negated ps =>
    obtain ⟨field, hfield, rfl⟩ := h
    have hin := ((madeOf_column hfield).append hspace).append (madeOf_membership negated)
    exact ((hin.append hopen).append (madeOf_placeholders ps.length)).append hclose
  | member negated set =>
    have hin := hid.append (madeOf_membership negated)
    exact ((hin.append hopen).append (madeOf_set set)).append hclose
  | labelled negated test =>
    have hin := hid.append (madeOf_membership negated)
    have hlabel : MadeOf (pieces fields ops) " (SELECT issue_id FROM labels WHERE label " :=
      madeOf_fixed (by decide)
    exact ((hin.append hlabel).append (madeOf_labelTest test)).append hclose
  | not c ih =>
    have hnot : MadeOf (pieces fields ops) "NOT (" := madeOf_fixed (by decide)
    exact (hnot.append (ih h)).append hclose
  | binary connective left right ihl ihr =>
    have hbegin : MadeOf (pieces fields ops) "(" := madeOf_fixed (by decide)
    have hword := ((hbegin.append (ihl h.1)).append hspace).append (madeOf_connective connective)
    exact ((hword.append hspace).append (ihr h.2)).append hclose

/-! ## Orders -/

theorem madeOf_sortTerm {field : Field} (hfield : field ∈ fields) (descending : Bool) :
    MadeOf (pieces fields ops) (SortTerm.mk field.sortKey descending).render := by
  have hword : MadeOf (pieces fields ops) (if descending then " DESC" else " ASC") :=
    madeOf_fixed (by cases descending <;> decide)
  refine MadeOf.append ?_ hword
  unfold Field.sortKey
  split
  · have hin : MadeOf (pieces fields ops) "(i.id IN (" := madeOf_fixed (by decide)
    exact (hin.append (madeOf_set _)).append (madeOf_fixed (by decide))
  · split
    · exact madeOf_fixed (by simp [SortKey.render, fixedPieces])
    · exact madeOf_column hfield

end

end IssueQuery.Sql
