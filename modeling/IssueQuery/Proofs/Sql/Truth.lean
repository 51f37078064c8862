import IssueQuery.Number.Arithmetic
import IssueQuery.Proofs.Sql.Reader

/-!
# What SQL conditions mean

The three-valued meaning of conditions on a row: a condition is true, false, or unknown where a
missing datum takes part. What the database computes by functions of its own is left open.

* `Datum.compare`, `Datum.among` compare data;
* `Expr.truth`                   is the meaning of a condition.
-/

namespace IssueQuery.Sql

/-- True, false, or unknown. -/
abbrev Truth := Option Bool

namespace Truth

/-- Negation leaves what is unknown. -/
def not (t : Truth) : Truth := t.map (! ·)

/-- A conjunction is false if one side is, whatever the other one. -/
def and : Truth → Truth → Truth
  | some false, _ | _, some false => some false
  | some true, some true => some true
  | _, _ => none

/-- A disjunction is true if one side is, whatever the other one. -/
def or : Truth → Truth → Truth
  | some true, _ | _, some true => some true
  | some false, some false => some false
  | _, _ => none

@[simp] theorem not_some (a : Bool) : not (some a) = some (!a) := rfl

@[simp] theorem and_some (a b : Bool) : and (some a) (some b) = some (a && b) := by
  cases a <;> cases b <;> rfl

@[simp] theorem or_some (a b : Bool) : or (some a) (some b) = some (a || b) := by
  cases a <;> cases b <;> rfl

/-- Negates if asked to. -/
def negateIf (negated : Bool) (t : Truth) : Truth := if negated then t.not else t

@[simp] theorem negateIf_some (negated a : Bool) :
    negateIf negated (some a) = some (a != negated) := by
  cases negated <;> cases a <;> rfl

end Truth

/-! ## Data -/

/-- Whether one text comes before another one, by code points. -/
def textBefore (a b : Text) : Bool := a.codePoints < b.codePoints

namespace Datum

/-- Whether the datum is missing. -/
def isNull : Datum → Bool
  | .null => true
  | _ => false

/-- Whether two data are the same. -/
def same : Datum → Datum → Bool
  | .number x, .number y => x ≤ y && y ≤ x
  | .text a, .text b => a == b
  | .null, .null => true
  | _, _ => false

/-- Whether one datum comes before another one. Numbers come before texts. -/
def before : Datum → Datum → Bool
  | .number x, .number y => !(y ≤ x)
  | .text a, .text b => textBefore a b
  | .null, .number _ | .null, .text _ | .number _, .text _ => true
  | _, _ => false

/-- Whether the order of two data is as the operator says. The operators of patterns ask for no
order. -/
def satisfies (op : ComparisonOp) (a b : Datum) : Bool :=
  match op with
  | .eq => same a b
  | .ne => !same a b
  | .lt => before a b
  | .gt => before b a
  | .le => !before b a
  | .ge => !before a b
  | .contains | .notContains => false

/-- A comparison, unknown if a side is missing. -/
def compare (op : ComparisonOp) (a b : Datum) : Truth :=
  if a.isNull || b.isNull then none else some (satisfies op a b)

/-- Membership in a list: true if an item is the same, else unknown if some item may be the same
for all that is known. -/
def among (a : Datum) (items : List Datum) : Truth :=
  if items.any fun d => compare .eq a d == some true then some true
  else if items.any fun d => compare .eq a d == none then none
  else some false

theorem compare_of_not_null {op : ComparisonOp} {a b : Datum} (ha : a.isNull = false)
    (hb : b.isNull = false) : compare op a b = some (satisfies op a b) := by
  simp [compare, ha, hb]

@[simp] theorem isNull_text (t : Text) : (text t).isNull = false := rfl

@[simp] theorem isNull_number (n : Number) : (number n).isNull = false := rfl

@[simp] theorem isNull_param (p : Param) : p.datum.isNull = false := by cases p <;> rfl

@[simp] theorem same_text (a b : Text) : same (.text a) (.text b) = (a == b) := rfl

/-- Membership among data none of which is missing is never unknown. -/
theorem among_of_not_null {a : Datum} {items : List Datum} (ha : a.isNull = false)
    (hitems : ∀ d ∈ items, d.isNull = false) : among a items = some (items.any (same a)) := by
  have hcompare : ∀ d ∈ items, compare .eq a d = some (same a d) := fun d hd =>
    compare_of_not_null ha (hitems d hd)
  have htrue : (items.any fun d => compare .eq a d == some true) = items.any (same a) := by
    rw [Bool.eq_iff_iff, List.any_eq_true, List.any_eq_true]
    constructor
    · rintro ⟨d, hd, h⟩
      exact ⟨d, hd, by simpa [hcompare d hd] using h⟩
    · rintro ⟨d, hd, h⟩
      exact ⟨d, hd, by simp [hcompare d hd, h]⟩
  have hnone : (items.any fun d => compare .eq a d == none) = false := by
    rw [List.any_eq_false]
    intro d hd
    simp [hcompare d hd]
  rw [among, htrue, hnone]
  cases items.any (same a) <;> rfl

end Datum

/-! ## Conditions -/

/-- What the database computes by functions of its own. -/
structure Functions where
  /-- Whether a text matches a pattern. -/
  like : (text pattern : Text) → Bool
  /-- The point of time that the arguments of `datetime` give, missing if there is none. -/
  datetime : List Datum → Datum
  /-- The day that the arguments of `date` give, missing if there is none. -/
  date : List Datum → Datum

/-- The datum of a column, by the alias of its table and its name. -/
abbrev Scope := (table name : String) → Datum

/-- The rows of a table by its name, each of which gives a datum for the name of a column. -/
abbrev Tables := String → List (String → Datum)

/-- The scope inside a query that searches a table, at one of its rows. -/
def Scope.within (scope : Scope) (row : String → Datum) : Scope := fun table name =>
  if table = "" then row name else scope table name

/-- The value of an atom. -/
def Atom.value (scope : Scope) : Atom → Datum
  | .datum d => d
  | .column table name => scope table name

/-- The value of a function, missing for a function that no condition uses. -/
def Functions.call (fns : Functions) (function : String) (args : List Datum) : Datum :=
  if function = "COALESCE" then (args.find? (! ·.isNull)).getD .null
  else if function = "datetime" then fns.datetime args
  else if function = "date" then fns.date args
  else .null

/-- The value of an operand. -/
def Operand.value (fns : Functions) (scope : Scope) : Operand → Datum
  | .atom a => a.value scope
  | .call function args => fns.call function (args.map (Atom.value scope))

@[simp] theorem Atom.value_datum (scope : Scope) (d : Datum) : (Atom.datum d).value scope = d := rfl

@[simp] theorem Operand.value_datum (fns : Functions) (scope : Scope) (d : Datum) :
    (Operand.atom (.datum d)).value fns scope = d := rfl

/-- A match with a pattern, unknown if a side is missing. Numbers are not matched. -/
def Functions.matchPattern (fns : Functions) : Datum → Datum → Truth
  | .text t, .text pattern => some (fns.like t pattern)
  | .null, _ | _, .null => none
  | _, _ => some false

/-- The truth of a condition in a scope. -/
def Expr.truth (fns : Functions) (tables : Tables) (scope : Scope) : Expr → Truth
  | .compare op left right => (left.value fns scope).compare op (right.value fns scope)
  | .like negated left right =>
    (fns.matchPattern (left.value fns scope) (right.value fns scope)).negateIf negated
  | .oneOf negated left items =>
    ((left.value fns scope).among (items.map (Atom.value scope))).negateIf negated
  | .listed negated left column table =>
    ((left.value fns scope).among ((tables table).map fun row => row column)).negateIf negated
  | .listedWhere negated left column table condition =>
    let rows := (tables table).filter fun row =>
      condition.truth fns tables (scope.within row) == some true
    ((left.value fns scope).among (rows.map fun row => row column)).negateIf negated
  | .not e => (e.truth fns tables scope).not
  | .and left right => (left.truth fns tables scope).and (right.truth fns tables scope)
  | .or left right => (left.truth fns tables scope).or (right.truth fns tables scope)

variable {fns : Functions} {tables : Tables} {scope : Scope} {left right : Operand}

theorem truth_compare {op : ComparisonOp} {a b : Datum} (ha : left.value fns scope = a)
    (hb : right.value fns scope = b) (hknown : a.isNull = false) (hknown' : b.isNull = false) :
    (Expr.compare op left right).truth fns tables scope = some (a.satisfies op b) := by
  rw [Expr.truth, ha, hb, Datum.compare_of_not_null hknown hknown']

theorem truth_compareParam {op : ComparisonOp} {a : Datum} {p : Param}
    (ha : left.value fns scope = a) (hknown : a.isNull = false) :
    (Expr.compare op left (.atom (.datum p.datum))).truth fns tables scope =
      some (a.satisfies op p.datum) :=
  truth_compare ha (Operand.value_datum fns scope _) hknown (Datum.isNull_param p)

theorem truth_like {negated : Bool} {t pattern : Text} (ht : left.value fns scope = .text t) :
    (Expr.like negated left (.atom (.datum (.text pattern)))).truth fns tables scope =
      some (fns.like t pattern != negated) := by
  rw [Expr.truth, ht, Operand.value_datum, Functions.matchPattern, Truth.negateIf_some]

theorem truth_oneOf {negated : Bool} {a : Datum} {data : List Datum}
    (ha : left.value fns scope = a) (hknown : a.isNull = false)
    (hdata : ∀ d ∈ data, d.isNull = false) :
    (Expr.oneOf negated left (data.map .datum)).truth fns tables scope =
      some (data.any a.same != negated) := by
  have hvalues : (data.map Atom.datum).map (Atom.value scope) = data := by simp [Function.comp_def]
  rw [Expr.truth, ha, hvalues, Datum.among_of_not_null hknown hdata, Truth.negateIf_some]

end IssueQuery.Sql
