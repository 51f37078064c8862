import IssueQuery.Comparison
import IssueQuery.Number

/-!
# Queries

A query filters issues, may expand the result along dependencies, and orders it. Field names are
kept as written: whether a name is a field, and whether the operator and the value suit it, is for
`Query.check` to say.

* `Filter.leaves` lists the comparisons of a filter in source order;
* `Value.text`    is what a value compares as against a column of strings.
-/

namespace IssueQuery

/-- The level of a priority word, `P0` to `P4`. -/
def Text.priorityLevel? (word : Text) : Option Nat :=
  match word with
  | [p, d] =>
    if (p.toChar == 'p' || p.toChar == 'P') && d.isDigit && d.digitValue ≤ 4 then some d.digitValue
    else none
  | _ => none

/-- The right side of a comparison. Every value keeps its source in `raw`. -/
inductive Value where
  | string (raw text : Text)
  | int (raw : Text) (value : Number)
  | bool (raw : Text) (value : Bool)
  /-- A priority; the language writes the levels 0 to 4. -/
  | priority (raw : Text) (level : Number)
  /-- `today`, `yesterday`, an offset with a small unit letter, or an ISO date as written. -/
  | date (raw date : Text)
deriving DecidableEq, Repr, Inhabited

namespace Value

/-- The source of a value. -/
def raw : Value → Text
  | .string raw _ | .int raw _ | .bool raw _ | .priority raw _ | .date raw _ => raw

/-- What a value compares as against a column of strings. -/
def text : Value → Text
  | .string _ t => t
  | .date _ d => d
  | .int raw _ | .bool raw _ | .priority raw _ => raw

/-- Whether the value is the boolean `true`. -/
def isTrue : Value → Bool
  | .bool _ b => b
  | _ => false

end Value

/-- What joins two conditions. -/
inductive Connective where
  | and
  | or
deriving DecidableEq, Repr, Inhabited

/-- How SQL and answers write the connective. -/
def Connective.word : Connective → String
  | .and => "AND"
  | .or => "OR"

/-- A single condition on a field. -/
inductive Leaf where
  | compare (field : Text) (op : ComparisonOp) (value : Value)
  /-- The field has one of the values, or if `negated` none of them. -/
  | oneOf (field : Text) (values : List Value) (negated : Bool)
deriving DecidableEq, Repr, Inhabited

/-- A condition on issues. -/
inductive Filter where
  | leaf (leaf : Leaf)
  | not (filter : Filter)
  | binary (connective : Connective) (left right : Filter)
deriving DecidableEq, Repr, Inhabited

/-- The leaves of a filter in source order. -/
def Filter.leaves : Filter → List Leaf
  | .leaf l => [l]
  | .not filter => filter.leaves
  | .binary _ left right => left.leaves ++ right.leaves

/-- The way along dependencies: up to what an issue depends on, down to what depends on it, or
both. -/
inductive Direction where
  | up
  | down
  | both
deriving DecidableEq, Repr, Inhabited

/-- The name of the direction in answers. -/
def Direction.name : Direction → String
  | .up => "UP"
  | .down => "DOWN"
  | .both => "ALL"

/-- How many dependencies an expansion follows from the base. -/
inductive Depth where
  | levels (count : Int)
  | unlimited
deriving DecidableEq, Repr, Inhabited

/-- The clause that widens a result along dependencies. -/
structure Expansion where
  direction : Direction
  depth : Depth
deriving DecidableEq, Repr, Inhabited

/-- A field to order by. -/
structure OrderTerm where
  field : Text
  descending : Bool
deriving DecidableEq, Repr, Inhabited

/-- What a query text asks for. -/
structure Query where
  filter : Option Filter
  expansion : Option Expansion
  order : List OrderTerm
deriving DecidableEq, Repr, Inhabited

/-- The leaves of a query's filter. -/
def Query.leaves (q : Query) : List Leaf := (q.filter.map Filter.leaves).getD []

end IssueQuery
