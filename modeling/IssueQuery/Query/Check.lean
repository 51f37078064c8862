import IssueQuery.Field
import IssueQuery.Query
import IssueQuery.Text.Quoted

/-!
# Which queries make sense

Every leaf of a filter has to name a field, to use an operator of the field's kind, and to compare
with values of that kind; every order term has to name a field. `Query.check` reports the first
fault, leaves before order terms, and within a leaf the name before the operator before the values.
-/

namespace IssueQuery

/-- A fault of a query. -/
inductive CheckError where
  | unknownField (name : Text)
  | unknownOrderField (name : Text)
  /-- A name without a field, met where a query that was not checked becomes SQL. -/
  | unknownColumn (name : Text)
  | badOperator (field : Field) (op : ComparisonOp)
  /-- A list of values for a field that takes none. -/
  | badList (field : Field) (negated : Bool)
  /-- A value of another kind than the field's. -/
  | badValue (field : Field) (given : Text)
deriving DecidableEq, Repr, Inhabited

namespace CheckError

/-- The name of the field at fault. -/
def field : CheckError → Text
  | .unknownField name | .unknownOrderField name | .unknownColumn name => name
  | .badOperator field _ | .badList field _ | .badValue field _ => field.name

/-- The part of the query at fault. -/
def input : CheckError → Text
  | .unknownField name | .unknownOrderField name | .unknownColumn name => name
  | .badOperator _ op => op.symbol
  | .badList _ negated => if negated then "not in" else "in"
  | .badValue _ given => given

/-- The kind of a field as messages about operators name it. -/
def kindWord : FieldKind → String
  | .oneOf _ => ""
  | .bool => "boolean "
  | kind => kind.name ++ " "

/-- What a value has to be, and what it is. -/
def valueMessage (field : Field) (given : Text) : Text :=
  let quotedName := Text.quoted field.name
  let requires (what : String) : Text :=
    "field " ++ quotedName ++ " requires a " ++ Text.ofString what ++ ", got " ++ given.quoted
  match field.kind with
  | .bool => requires "boolean value (true or false)"
  | .priority => requires "priority value (P0-P4)"
  | .date => requires "date value (today, yesterday, -Nd, -Nh, -Nm, or ISO date)"
  | .oneOf words =>
    "invalid value " ++ given.quoted ++ " for field " ++ quotedName ++ " (valid: "
      ++ Text.ofString (", ".intercalate words) ++ ")"
  | .string => requires "string value"

/-- The message about the fault. -/
def message : CheckError → Text
  | .unknownField name =>
    "unknown field: " ++ name.quoted ++ " (valid: " ++ Text.ofString Field.nameList ++ ")"
  | .unknownOrderField name =>
    "unknown field in ORDER BY: " ++ name.quoted ++ " (valid: " ++ Text.ofString Field.nameList
      ++ ")"
  | .unknownColumn name => "unknown field: " ++ name.quoted
  | .badOperator field op =>
    "operator " ++ Text.quoted op.symbol ++ " is not valid for "
      ++ Text.ofString (kindWord field.kind) ++ "field " ++ Text.quoted field.name ++ " (use "
      ++ Text.ofString (", ".intercalate (field.kind.operators.map ComparisonOp.symbol)) ++ ")"
  | .badList field negated =>
    "operator " ++ Text.ofString (if negated then "NOT IN" else "IN") ++ " is not valid for field "
      ++ Text.quoted field.name
  | .badValue field given => valueMessage field given

end CheckError

/-- What of a value a field of the kind looks at. A closed list of words is compared with the text
of a string and with the source of any other value; all other kinds are reported by the source. -/
def FieldKind.given (kind : FieldKind) (value : Value) : Text :=
  match kind, value with
  | .oneOf _, .string _ t => t
  | _, v => v.raw

/-- Whether a value is of a field's kind. -/
def Value.suits : FieldKind → Value → Bool
  | .string, _ => true
  | .oneOf words, v => words.any fun w => Text.ofString w == (FieldKind.oneOf words).given v
  | .priority, .priority .. => true
  | .bool, .bool .. => true
  | .date, .date .. => true
  | _, _ => false

/-- Accepts a value of the field's kind. -/
def Field.checkValue (field : Field) (value : Value) : Except CheckError Unit :=
  if value.suits field.kind then .ok ()
  else .error (.badValue field (field.kind.given value))

/-- The field of a name in a filter. -/
def Field.require (name : Text) : Except CheckError Field :=
  match Field.ofName? name with
  | some field => .ok field
  | none => .error (.unknownField name)

/-- Accepts a leaf that makes sense, or reports its first fault. -/
def Leaf.check : Leaf → Except CheckError Unit
  | .compare name op value => do
    let field ← Field.require name
    if field.kind.operators.contains op then field.checkValue value
    else .error (.badOperator field op)
  | .oneOf name values negated => do
    let field ← Field.require name
    if field.kind.allowsList then values.forM field.checkValue
    else .error (.badList field negated)

/-- Accepts an order term that names a field. -/
def OrderTerm.check (term : OrderTerm) : Except CheckError Unit :=
  match Field.ofName? term.field with
  | some _ => .ok ()
  | none => .error (.unknownOrderField term.field)

/-- Accepts a query that makes sense, or reports its first fault. -/
def Query.check (q : Query) : Except CheckError Unit := do
  q.leaves.forM Leaf.check
  q.order.forM OrderTerm.check

end IssueQuery
