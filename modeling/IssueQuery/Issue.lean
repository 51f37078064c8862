import IssueQuery.Row

/-!
# Issues

An issue as queries return it: the columns of its row, and what other tables say about it. Missing
texts are empty. This module also reads the rows of the four tables.
-/

namespace IssueQuery

/-- An issue with what belongs to it. -/
structure Issue where
  id : Text
  title : Text
  description : Text
  design : Text
  acceptanceCriteria : Text
  notes : Text
  status : Text
  priority : Int
  issueType : Text
  assignee : Text
  pinned : Option Bool
  createdAt : Text
  updatedAt : Text
  closedAt : Option Text
  labels : List Text
  /-- The issue that this one is a part of. -/
  parentId : Option Text
  blockedBy : List Text
  blocks : List Text
  children : List Text
  /-- The issues in whose course this one was found. -/
  discoveredFrom : List Text
  discovered : List Text
  commentCount : Int
deriving DecidableEq, Repr, Inhabited

namespace Issue

/-- The columns that make up an issue, in the order in which they are selected. -/
def columns : List String :=
  ["id", "title", "description", "design", "acceptance_criteria", "notes", "status", "priority",
    "issue_type", "assignee", "pinned", "created_at", "updated_at", "closed_at"]

/-- An issue of its columns, with nothing known from other tables. -/
def ofColumns (id title : Text) (description design acceptanceCriteria notes : Option Text)
    (status : Text) (priority : Int) (issueType : Text) (assignee : Option Text)
    (pinned : Option Int) (createdAt updatedAt : Text) (closedAt : Option Text) : Issue where
  id := id
  title := title
  description := description.getD []
  design := design.getD []
  acceptanceCriteria := acceptanceCriteria.getD []
  notes := notes.getD []
  status := status
  priority := priority
  issueType := issueType
  assignee := assignee.getD []
  pinned := pinned.map (· != 0)
  createdAt := createdAt
  updatedAt := updatedAt
  closedAt := closedAt
  labels := []
  parentId := none
  blockedBy := []
  blocks := []
  children := []
  discoveredFrom := []
  discovered := []
  commentCount := 0

/-- Reads a row of the table of issues. -/
def ofRow (value : Option Json) : RowReading Issue := do
  let row ← Row.ofJson value
  RowReading.and (.ok ofColumns) (row.text "id")
    |>.and (row.text "title")
    |>.and (row.optionalText "description")
    |>.and (row.optionalText "design")
    |>.and (row.optionalText "acceptance_criteria")
    |>.and (row.optionalText "notes")
    |>.and (row.text "status")
    |>.and (row.integer "priority")
    |>.and (row.text "issue_type")
    |>.and (row.optionalText "assignee")
    |>.and (row.optionalInteger "pinned")
    |>.and (row.text "created_at")
    |>.and (row.text "updated_at")
    |>.and (row.optionalText "closed_at")

/-- A whole number as a JSON value. -/
def jsonInt (n : Int) : Json := .num (Number.ofInt n)

/-- Texts as a JSON array. -/
def jsonTexts (texts : List Text) : Json := .arr (texts.map .str)

/-- The issue as the command prints it. -/
def toJson (issue : Issue) : Json :=
  .obj [
    ("id", .str issue.id),
    ("title", .str issue.title),
    ("description", .str issue.description),
    ("design", .str issue.design),
    ("acceptance_criteria", .str issue.acceptanceCriteria),
    ("notes", .str issue.notes),
    ("status", .str issue.status),
    ("priority", jsonInt issue.priority),
    ("issue_type", .str issue.issueType),
    ("assignee", .str issue.assignee),
    ("pinned", (issue.pinned.map Json.bool).getD .null),
    ("created_at", .str issue.createdAt),
    ("updated_at", .str issue.updatedAt),
    ("closed_at", (issue.closedAt.map Json.str).getD .null),
    ("labels", jsonTexts issue.labels),
    ("parent_id", (issue.parentId.map Json.str).getD .null),
    ("blocked_by", jsonTexts issue.blockedBy),
    ("blocks", jsonTexts issue.blocks),
    ("children", jsonTexts issue.children),
    ("discovered_from", jsonTexts issue.discoveredFrom),
    ("discovered", jsonTexts issue.discovered),
    ("comment_count", jsonInt issue.commentCount)]

end Issue

/-- One relationship between two issues. The issue depends on the other one: it is the child, the
blocked issue or the discovery. -/
structure Dependency where
  issueId : Text
  dependsOnId : Text
  /-- `blocks`, `parent-child`, `discovered-from`, or any other word. -/
  type : Text
deriving DecidableEq, Repr, Inhabited

/-- Reads a row of the table of dependencies. -/
def Dependency.ofRow (value : Option Json) : RowReading Dependency := do
  let row ← Row.ofJson value
  RowReading.and (.ok Dependency.mk) (row.text "issue_id")
    |>.and (row.text "depends_on_id")
    |>.and (row.text "type")

/-- A label of an issue. -/
structure Labelling where
  issueId : Text
  label : Text
deriving DecidableEq, Repr, Inhabited

/-- Reads a row of the table of labels. -/
def Labelling.ofRow (value : Option Json) : RowReading Labelling := do
  let row ← Row.ofJson value
  RowReading.and (.ok Labelling.mk) (row.text "issue_id") |>.and (row.text "label")

/-- The number of comments on an issue. -/
structure CommentCount where
  issueId : Text
  count : Int
deriving DecidableEq, Repr, Inhabited

/-- Reads a row of a count of comments. -/
def CommentCount.ofRow (value : Option Json) : RowReading CommentCount := do
  let row ← Row.ofJson value
  RowReading.and (.ok CommentCount.mk) (row.text "issue_id") |>.and (row.integer "count")

end IssueQuery
