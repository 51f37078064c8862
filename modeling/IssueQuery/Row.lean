import IssueQuery.Json

/-!
# Reading rows of the store

A row is a JSON object that has to have certain columns of certain types. All columns are looked at,
so an unfit row is reported with every fault at once, in the order of the columns. Columns that
nobody asked for are dropped.

* `RowReading` collects what was read or the faults;
* `Row.text`, `Row.optionalText`, `Row.integer`, `Row.optionalInteger` read one column.
-/

namespace IssueQuery

/-- What is wrong with a row or with one of its columns. -/
inductive RowFault where
  /-- The row is no object. Missing if there is no value at all. -/
  | notAnObject (received : Option Json)
  /-- The column has a value of another type than `expected`, or none. -/
  | wrongType (column : String) (expected : String) (received : Option Json)
  /-- The column has a number with a fraction, or one without bounds. -/
  | notInteger (column : String)

/-- The name of the type of a value as faults report it. -/
def Json.typeName : Option Json → String
  | none => "undefined"
  | some .null => "null"
  | some (.bool _) => "boolean"
  | some (.num _) => "number"
  | some (.str _) => "string"
  | some (.arr _) => "array"
  | some (.obj _) => "object"

namespace RowFault

/-- The sentence for a value of the wrong type. -/
def typeMessage (expected : String) (received : Option Json) : String :=
  match received with
  | none => "Required"
  | some _ => "Expected " ++ expected ++ ", received " ++ Json.typeName received

/-- The report of a value of the wrong type. -/
def typeReport (expected : String) (received : Option Json) (path : List Json) : Json :=
  .obj [
    ("code", .ofString "invalid_type"),
    ("expected", .ofString expected),
    ("received", .ofString (Json.typeName received)),
    ("path", .arr path),
    ("message", .ofString (typeMessage expected received))]

/-- The fault as messages report it. -/
def report : RowFault → Json
  | .notAnObject received => typeReport "object" received []
  | .wrongType column expected received => typeReport expected received [.ofString column]
  | .notInteger column =>
    -- here the message stands before the path
    .obj [
      ("code", .ofString "invalid_type"),
      ("expected", .ofString "integer"),
      ("received", .ofString "float"),
      ("message", .ofString "Expected integer, received float"),
      ("path", .arr [.ofString column])]

/-- The message about a row with these faults. -/
def message (faults : List RowFault) : Text := (Json.arr (faults.map report)).pretty

end RowFault

/-- What was read of a row, or all of its faults. -/
abbrev RowReading (α : Type) := Except (List RowFault) α

namespace RowReading

/-- Reads one more part, with the faults of both. -/
def and {α β : Type} (f : RowReading (α → β)) (a : RowReading α) : RowReading β :=
  match f, a with
  | .ok f, .ok a => .ok (f a)
  | .ok _, .error faults => .error faults
  | .error faults, .ok _ => .error faults
  | .error first, .error second => .error (first ++ second)

end RowReading

/-- The columns of a row. -/
abbrev Row := List (Text × Json)

namespace Row

/-- The columns of a value, which has to be an object. -/
def ofJson (value : Option Json) : RowReading Row :=
  match value with
  | some (.obj members) => .ok members
  | _ => .error [.notAnObject value]

/-- The value in a column. -/
def column? (row : Row) (name : String) : Option Json := Json.member? name row

/-- A column of text. -/
def text (row : Row) (name : String) : RowReading Text :=
  match row.column? name with
  | some (.str s) => .ok s
  | value => .error [.wrongType name "string" value]

/-- A column of text or NULL. -/
def optionalText (row : Row) (name : String) : RowReading (Option Text) :=
  match row.column? name with
  | some (.str s) => .ok (some s)
  | some .null => .ok none
  | value => .error [.wrongType name "string" value]

/-- A column of whole numbers. -/
def integer (row : Row) (name : String) : RowReading Int :=
  match row.column? name with
  | some (.num n) =>
    match n.toInt? with
    | some i => .ok i
    | none => .error [.notInteger name]
  | value => .error [.wrongType name "number" value]

/-- A column of whole numbers or NULL. -/
def optionalInteger (row : Row) (name : String) : RowReading (Option Int) :=
  match row.column? name with
  | some .null => .ok none
  | _ => (row.integer name).map some

end Row

end IssueQuery
