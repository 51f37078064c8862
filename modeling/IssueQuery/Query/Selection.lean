import IssueQuery.DateText
import IssueQuery.Query.Check
import IssueQuery.Sql

/-!
# From queries to SQL

`Query.select` turns the filter and the order of a query into a condition and sort terms. Only the
registered columns reach the SQL text; what the user wrote travels as parameters. It does not look
at kinds of values, which is `Query.check`'s part: an unchecked query becomes whatever its operators
and values say, as long as its fields exist.
-/

namespace IssueQuery

/-- What a query asks of the store. -/
structure Selection where
  /-- Missing if every issue is asked for. -/
  condition : Option Sql.Condition
  /-- Empty for the default order. -/
  order : List Sql.SortTerm
deriving DecidableEq, Repr, Inhabited

namespace Selection

/-- The text of the condition, empty if there is none. -/
def whereText (s : Selection) : String := (s.condition.map Sql.Condition.render).getD ""

/-- The text of the order; by default the issues changed last come first. -/
def orderText (s : Selection) : String :=
  if s.order.isEmpty then "i.updated_at DESC"
  else ", ".intercalate (s.order.map Sql.SortTerm.render)

/-- The values to bind to the `?` of the condition. -/
def params (s : Selection) : List Sql.Param := (s.condition.map Sql.Condition.params).getD []

end Selection

/-- The SQL modifier of an offset. A missing sign means later. -/
def Offset.modifier (o : Offset) : Text :=
  (if o.sign = .minus then "-" else "+" : String) ++ o.digits ++ " " ++ Text.ofString o.unit.plural

/-- The point of time that a date writes. Hours count from the minute, days and months from the
day; a text that is no date of the language is left to SQL. -/
def moment (date : Text) : Sql.Moment :=
  if date = Text.ofString "today" then .dayFromNow (.text "+0 days")
  else if date = Text.ofString "yesterday" then .dayFromNow (.text "-1 days")
  else
    match Offset.read? OffsetUnit.ofLetter? date with
    | some o =>
      match o.unit with
      | .hours => .timeFromNow (.text o.modifier)
      | .days | .months => .dayFromNow (.text o.modifier)
    | none => .at (.text date)

/-- The pattern that matches every text with `part` in it. -/
def containsPattern (part : Text) : Sql.Param := .text ("%" ++ part ++ "%")

namespace Field

/-- The parameter that stands for a value: a level for a priority, else text. -/
def bind (field : Field) (value : Value) : Sql.Param :=
  match field.kind, value with
  | .priority, .priority _ level => .number level
  | _, _ => .text value.text

/-- The set that a field asks about. -/
def set? : Field → Option Sql.IssueSet
  | .blocked => some .blocked
  | .ready => some .ready
  | _ => none

/-- Whether the field asks about the labels of the issue. -/
def isLabel : Field → Bool
  | .label | .labels => true
  | _ => false

/-- A comparison of the field with a value. -/
def comparison (field : Field) (op : ComparisonOp) (value : Value) : Sql.Condition :=
  let isPattern := op = .contains || op = .notContains
  let isNegated := op = .ne || op = .notContains
  match field.set? with
  -- outside the set: either `= false` or `!= true`
  | some set => .member (value.isTrue == (op == .ne)) set
  | none =>
    if field.isLabel then
      .labelled isNegated
        (if isPattern then .like (containsPattern value.text) else .eq (.text value.text))
    else
      match field.kind with
      | .bool => .compare field.column op (.number (if value.isTrue then 1 else 0))
      | .date => .compareTime field.column op (moment value.text)
      | _ =>
        if isPattern then .like field.column isNegated (containsPattern value.text)
        else .compare field.column op (field.bind value)

/-- A test of the field against a list of values. -/
def listTest (field : Field) (values : List Value) (negated : Bool) : Sql.Condition :=
  if field.isLabel then .labelled negated (.oneOf (values.map fun v => .text v.text))
  else .oneOf field.column negated (values.map field.bind)

/-- What the field is ordered by. -/
def sortKey (field : Field) : Sql.SortKey :=
  match field.set? with
  | some set => .member set
  | none => if field.isLabel then .firstLabel else .column field.column

/-- The field of a name in a query that becomes SQL. -/
def named (name : Text) : Except CheckError Field :=
  match ofName? name with
  | some field => .ok field
  | none => .error (.unknownColumn name)

end Field

/-- The condition of a leaf. -/
def Leaf.condition : Leaf → Except CheckError Sql.Condition
  | .compare name op value => do return (← Field.named name).comparison op value
  | .oneOf name values negated => do return (← Field.named name).listTest values negated

/-- The condition of a filter, of the same shape. -/
def Filter.condition : Filter → Except CheckError Sql.Condition
  | .leaf l => l.condition
  | .not f => do return .not (← f.condition)
  | .binary connective left right => do
    let l ← left.condition
    let r ← right.condition
    return .binary connective l r

/-- The sort term of an order term. -/
def OrderTerm.sortTerm (term : OrderTerm) : Except CheckError Sql.SortTerm := do
  return ⟨(← Field.named term.field).sortKey, term.descending⟩

/-- The SQL of a query. Fails only if a name is no field. -/
def Query.select (q : Query) : Except CheckError Selection := do
  let condition ← q.filter.mapM Filter.condition
  let order ← q.order.mapM OrderTerm.sortTerm
  return ⟨condition, order⟩

end IssueQuery
