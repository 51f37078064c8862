import IssueQuery.Comparison
import IssueQuery.Query

/-!
# SQL conditions

The conditions and orders that a query becomes, as data. A condition holds its parameters where its
text has a `?`, so that

* `Condition.render` gives the text, made of fixed pieces alone;
* `Condition.params` gives the values to bind, in the order of the `?`.

The issue under test is the row `i`.
-/

namespace IssueQuery.Sql

/-- A value that is bound to a `?`. -/
inductive Param where
  | text (t : Text)
  | number (n : Number)
deriving DecidableEq, Repr, Inhabited

/-- A list of `?`. -/
def placeholders (count : Nat) : String := ", ".intercalate (List.replicate count "?")

/-- The right side of a comparison of times. -/
inductive Moment where
  /-- A day counted from now. -/
  | dayFromNow (p : Param)
  /-- A point of time counted from now. -/
  | timeFromNow (p : Param)
  | at (p : Param)
deriving DecidableEq, Repr, Inhabited

namespace Moment

/-- The text of the moment. -/
def render : Moment → String
  | .dayFromNow _ => "date('now', ?)"
  | .timeFromNow _ => "datetime('now', ?)"
  | .at _ => "?"

/-- The value to bind to its `?`. -/
def param : Moment → Param
  | .dayFromNow p | .timeFromNow p | .at p => p

end Moment

/-- A set of issues that a table or view lists. -/
inductive IssueSet where
  | blocked
  | ready
deriving DecidableEq, Repr, Inhabited

/-- The query for the identifiers of the set. -/
def IssueSet.render : IssueSet → String
  | .blocked => "SELECT issue_id FROM blocked_issues_cache"
  | .ready => "SELECT id FROM ready_issues"

/-- A test on one label. -/
inductive LabelTest where
  | eq (p : Param)
  | like (p : Param)
  | oneOf (ps : List Param)
deriving DecidableEq, Repr, Inhabited

namespace LabelTest

/-- The text of the test, behind the label. -/
def render : LabelTest → String
  | .eq _ => "= ?"
  | .like _ => "LIKE ?"
  | .oneOf ps => "IN (" ++ placeholders ps.length ++ ")"

/-- The values to bind, in order. -/
def params : LabelTest → List Param
  | .eq p | .like p => [p]
  | .oneOf ps => ps

end LabelTest

/-- A condition on the issue `i`. A negated membership is written with `NOT IN`. -/
inductive Condition where
  | compare (column : String) (op : ComparisonOp) (p : Param)
  | compareTime (column : String) (op : ComparisonOp) (moment : Moment)
  | like (column : String) (negated : Bool) (p : Param)
  | oneOf (column : String) (negated : Bool) (ps : List Param)
  | member (negated : Bool) (set : IssueSet)
  | labelled (negated : Bool) (test : LabelTest)
  | not (condition : Condition)
  | binary (connective : Connective) (left right : Condition)
deriving DecidableEq, Repr, Inhabited

/-- `IN` or `NOT IN`. -/
def membership (negated : Bool) : String := if negated then "NOT IN" else "IN"

namespace Condition

/-- The text of the condition. -/
def render : Condition → String
  | .compare column op _ => column ++ " " ++ op.symbol ++ " ?"
  | .compareTime column op moment =>
    "datetime(" ++ column ++ ") " ++ op.symbol ++ " " ++ moment.render
  | .like column negated _ => column ++ (if negated then " NOT LIKE ?" else " LIKE ?")
  | .oneOf column negated ps =>
    column ++ " " ++ membership negated ++ " (" ++ placeholders ps.length ++ ")"
  | .member negated set => "i.id " ++ membership negated ++ " (" ++ set.render ++ ")"
  | .labelled negated test =>
    "i.id " ++ membership negated ++ " (SELECT issue_id FROM labels WHERE label " ++ test.render
      ++ ")"
  | .not condition => "NOT (" ++ condition.render ++ ")"
  | .binary connective left right =>
    "(" ++ left.render ++ " " ++ connective.word ++ " " ++ right.render ++ ")"

/-- The values to bind, in the order of the `?` in the text. -/
def params : Condition → List Param
  | .compare _ _ p | .like _ _ p => [p]
  | .compareTime _ _ moment => [moment.param]
  | .oneOf _ _ ps => ps
  | .member .. => []
  | .labelled _ test => test.params
  | .not condition => condition.params
  | .binary _ left right => left.params ++ right.params

end Condition

/-- What issues are ordered by. -/
inductive SortKey where
  | column (column : String)
  | member (set : IssueSet)
  | firstLabel
deriving DecidableEq, Repr, Inhabited

/-- The text of the key. -/
def SortKey.render : SortKey → String
  | .column text => text
  | .member set => "(i.id IN (" ++ set.render ++ "))"
  | .firstLabel => "(SELECT MIN(label) FROM labels WHERE issue_id = i.id)"

/-- One term of an order. -/
structure SortTerm where
  key : SortKey
  descending : Bool
deriving DecidableEq, Repr, Inhabited

/-- The text of the term. -/
def SortTerm.render (term : SortTerm) : String :=
  term.key.render ++ (if term.descending then " DESC" else " ASC")

end IssueQuery.Sql
