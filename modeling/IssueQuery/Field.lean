import IssueQuery.Comparison

/-!
# Fields of an issue

The closed list of fields that a query may name, with the kind of value each takes and the SQL
expression that holds it. Four fields have no expression of their own: `blocked` and `ready` ask
whether the issue is in a set, `label` and its second name `labels` ask about the issue's labels.
-/

namespace IssueQuery

/-- A field that a query may name. -/
inductive Field where
  | type
  | status
  | priority
  | blocked
  | ready
  | pinned
  | label
  | labels
  | title
  | description
  | id
  | assignee
  | created
  | updated
deriving DecidableEq, Repr, Inhabited

/-- The kind of value that a field takes. -/
inductive FieldKind where
  | string
  /-- One of a closed list of words. -/
  | oneOf (words : List String)
  | priority
  | bool
  | date
deriving DecidableEq, Repr, Inhabited

/-- The types of issue. -/
def issueTypes : List String := ["bug", "feature", "task", "epic", "chore"]

/-- The states of an issue. -/
def issueStates : List String := ["open", "in_progress", "closed", "blocked"]

namespace FieldKind

/-- The name of the kind. -/
def name : FieldKind → String
  | .string => "string"
  | .oneOf _ => "enum"
  | .priority => "priority"
  | .bool => "bool"
  | .date => "date"

/-- The operators that a field of the kind can be compared by, in the order in which messages list
them. -/
def operators : FieldKind → List ComparisonOp
  | .bool | .oneOf _ => [.eq, .ne]
  | .string => [.eq, .ne, .contains, .notContains]
  | .priority | .date => [.eq, .ne, .lt, .gt, .le, .ge]

/-- Whether a field of the kind can be tested against a list of values. -/
def allowsList : FieldKind → Bool
  | .bool | .date => false
  | .string | .oneOf _ | .priority => true

end FieldKind

namespace Field

/-- The fields in the order in which messages list them. -/
def all : List Field :=
  [type, status, priority, blocked, ready, pinned, label, labels, title, description, id, assignee,
    created, updated]

/-- How queries name the field. -/
def name : Field → String
  | .type => "type"
  | .status => "status"
  | .priority => "priority"
  | .blocked => "blocked"
  | .ready => "ready"
  | .pinned => "pinned"
  | .label => "label"
  | .labels => "labels"
  | .title => "title"
  | .description => "description"
  | .id => "id"
  | .assignee => "assignee"
  | .created => "created"
  | .updated => "updated"

/-- The kind of value that the field takes. -/
def kind : Field → FieldKind
  | .type => .oneOf issueTypes
  | .status => .oneOf issueStates
  | .priority => .priority
  | .blocked | .ready | .pinned => .bool
  | .label | .labels | .title | .description | .id | .assignee => .string
  | .created | .updated => .date

/-- The SQL expression that holds the field, empty for a field without one. -/
def column : Field → String
  | .type => "i.issue_type"
  | .status => "i.status"
  | .priority => "i.priority"
  | .blocked | .ready | .label | .labels => ""
  | .pinned => "COALESCE(i.pinned, 0)"
  | .title => "i.title"
  | .description => "i.description"
  | .id => "i.id"
  | .assignee => "COALESCE(i.assignee, '')"
  | .created => "i.created_at"
  | .updated => "i.updated_at"

/-- Whether the field has no SQL expression of its own. -/
def isPseudo : Field → Bool
  | .blocked | .ready | .label | .labels => true
  | _ => false

/-- The field of a name. Case matters. -/
def ofName? (name : Text) : Option Field := all.find? fun f => Text.ofString f.name == name

/-- The names of the fields as messages list them. -/
def nameList : String := ", ".intercalate (all.map name)

end Field

end IssueQuery
