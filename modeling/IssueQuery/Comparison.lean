import IssueQuery.Text

/-!
# Comparison operators

The eight operators that a comparison may use, with the symbol each is written by.
-/

namespace IssueQuery

/-- An operator between a field and a value. -/
inductive ComparisonOp where
  | eq
  | ne
  | lt
  | gt
  | le
  | ge
  | contains
  | notContains
deriving DecidableEq, Repr, Inhabited

namespace ComparisonOp

/-- How the operator is written, in queries and in SQL. -/
def symbol : ComparisonOp → String
  | .eq => "="
  | .ne => "!="
  | .lt => "<"
  | .gt => ">"
  | .le => "<="
  | .ge => ">="
  | .contains => "~"
  | .notContains => "!~"

/-- The eight operators. -/
def all : List ComparisonOp := [eq, ne, lt, gt, le, ge, contains, notContains]

/-- The operator that a symbol writes. -/
def ofSymbol? (symbol : Text) : Option ComparisonOp :=
  all.find? fun op => Text.ofString op.symbol == symbol

end ComparisonOp

end IssueQuery
