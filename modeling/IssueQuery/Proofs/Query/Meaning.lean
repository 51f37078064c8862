import IssueQuery.Proofs.Sql.Truth
import IssueQuery.Query.Selection

/-!
# What filters mean

The meaning of a filter on an issue, said without SQL: connectives are those of logic, a negated
operator asks for the contrary of its positive one, a label or a set is a matter of membership, and
a missing assignee is nobody. Only pattern matching and the reading of the clock are left to the
database.

* `Filter.holds`     is the meaning of a filter;
* `Leaf.TimesKnown`  says that the database can make times of both sides of a comparison of dates.
-/

namespace IssueQuery

open Sql (Datum Functions)

/-- The row of an issue. -/
structure IssueRow where
  id : Text
  title : Text
  description : Text
  status : Text
  issueType : Text
  priority : Number
  assignee : Option Text
  pinned : Option Bool
  createdAt : Datum
  updatedAt : Datum

/-- An issue in its database. -/
structure Records where
  issue : IssueRow
  /-- The labels of all issues, each with the identifier of its issue. -/
  labels : List (Text × Text)
  /-- The identifiers of the blocked issues. -/
  blocked : List Text
  /-- The identifiers of the issues that are ready. -/
  ready : List Text

namespace Records

/-- The labels of the issue. -/
def ownLabels (r : Records) : List Text :=
  (r.labels.filter fun l => l.1 == r.issue.id).map Prod.snd

/-- The issue as SQL sees it. -/
def column (r : Records) (name : String) : Datum :=
  if name = "id" then .text r.issue.id
  else if name = "title" then .text r.issue.title
  else if name = "description" then .text r.issue.description
  else if name = "status" then .text r.issue.status
  else if name = "issue_type" then .text r.issue.issueType
  else if name = "priority" then .number r.issue.priority
  else if name = "assignee" then (r.issue.assignee.map Datum.text).getD .null
  else if name = "pinned" then
    (r.issue.pinned.map fun b => Datum.number (if b then 1 else 0)).getD .null
  else if name = "created_at" then r.issue.createdAt
  else if name = "updated_at" then r.issue.updatedAt
  else .null

/-- The scope of conditions on the issue, which has the alias `i`. -/
def scope (r : Records) : Sql.Scope := fun table name =>
  if table = "i" then r.column name else .null

/-- A row of the table of labels. -/
def labelRow (l : Text × Text) (name : String) : Datum :=
  if name = "issue_id" then .text l.1 else if name = "label" then .text l.2 else .null

/-- A row of a table with one column. -/
def idRow (column : String) (id : Text) (name : String) : Datum :=
  if name = column then .text id else .null

/-- The tables that conditions search. -/
def tables (r : Records) : Sql.Tables := fun table =>
  if table = "labels" then r.labels.map labelRow
  else if table = "blocked_issues_cache" then r.blocked.map (idRow "issue_id")
  else if table = "ready_issues" then r.ready.map (idRow "id")
  else []

end Records

/-! ## Times -/

/-- The point of time that a date of the language stands for. Hours count from the minute, days and
months from the day; what is no offset is a time as it is written. -/
def Sql.Functions.timeOf (fns : Functions) (date : Text) : Datum :=
  let fromDay (modifier : Text) := fns.date [.text "now", .text modifier]
  if date = Text.ofString "today" then fromDay "+0 days"
  else if date = Text.ofString "yesterday" then fromDay "-1 days"
  else
    match Offset.read? OffsetUnit.ofLetter? date with
    | some ⟨sign, digits, unit⟩ =>
      let number : Text := (if sign = .minus then "-" else "+" : String) ++ digits
      match unit with
      | .days => fromDay (number ++ " days")
      | .months => fromDay (number ++ " months")
      | .hours => fns.datetime [.text "now", .text (number ++ " hours")]
    | none => .text date

/-- The column of a field that holds a time. -/
def Field.time? (field : Field) (row : IssueRow) : Option Datum :=
  match field with
  | .created => some row.createdAt
  | .updated => some row.updatedAt
  | _ => none

/-- If the leaf compares dates, then the database makes times of both sides. It does unless a date
is out of its range or not written as one. -/
def Leaf.TimesKnown (fns : Functions) (r : Records) : Leaf → Prop
  | .compare name _ value =>
    ∀ field column, Field.ofName? name = some field → field.time? r.issue = some column →
      (fns.datetime [column]).isNull = false ∧ (fns.timeOf value.text).isNull = false
  | .oneOf .. => True

/-! ## Meaning -/

/-- The level of a priority. -/
def Value.level : Value → Number
  | .priority _ level => level
  | _ => 0

/-- Whether an operator asks for the contrary of another one. -/
def ComparisonOp.isNegative : ComparisonOp → Bool
  | .ne | .notContains => true
  | _ => false

/-- Whether a text is the text of a value, or for the operators of patterns has it as a part. -/
def Sql.Functions.textMatches (fns : Functions) (op : ComparisonOp) (value : Value) (t : Text) :
    Bool :=
  match op with
  | .contains | .notContains => fns.like t ("%" ++ value.text ++ "%")
  | _ => t == value.text

/-- What a comparison says of an issue. -/
def Field.holds (fns : Functions) (r : Records) (field : Field) (op : ComparisonOp)
    (value : Value) : Bool :=
  let text (t : Text) : Bool := fns.textMatches op value t != op.isNegative
  let time (column : Datum) : Bool :=
    (fns.datetime [column]).satisfies op (fns.timeOf value.text)
  match field with
  | .type => text r.issue.issueType
  | .status => text r.issue.status
  | .title => text r.issue.title
  | .description => text r.issue.description
  | .id => text r.issue.id
  | .assignee => text (r.issue.assignee.getD [])
  | .priority => (Datum.number r.issue.priority).satisfies op (.number value.level)
  | .pinned => (r.issue.pinned.getD false == value.isTrue) != op.isNegative
  | .created => time r.issue.createdAt
  | .updated => time r.issue.updatedAt
  | .label | .labels => r.ownLabels.any (fns.textMatches op value) != op.isNegative
  | .blocked => r.blocked.contains r.issue.id == (value.isTrue != op.isNegative)
  | .ready => r.ready.contains r.issue.id == (value.isTrue != op.isNegative)

/-- What a list of values says of an issue: that the field is one of them. -/
def Field.isAmong (r : Records) (field : Field) (values : List Value) : Bool :=
  let text (t : Text) : Bool := values.any fun v => t == v.text
  match field with
  | .type => text r.issue.issueType
  | .status => text r.issue.status
  | .title => text r.issue.title
  | .description => text r.issue.description
  | .id => text r.issue.id
  | .assignee => text (r.issue.assignee.getD [])
  | .priority => values.any fun v => (Datum.number r.issue.priority).same (.number v.level)
  | .label | .labels => r.ownLabels.any text
  | .pinned | .blocked | .ready | .created | .updated => false

/-- What a leaf says of an issue. -/
def Leaf.holds (fns : Functions) (r : Records) : Leaf → Bool
  | .compare name op value =>
    match Field.ofName? name with
    | some field => field.holds fns r op value
    | none => false
  | .oneOf name values negated =>
    match Field.ofName? name with
    | some field => field.isAmong r values != negated
    | none => false

/-- What a filter says of an issue. -/
def Filter.holds (fns : Functions) (r : Records) : Filter → Bool
  | .leaf l => l.holds fns r
  | .not f => !f.holds fns r
  | .binary .and left right => left.holds fns r && right.holds fns r
  | .binary .or left right => left.holds fns r || right.holds fns r

end IssueQuery
