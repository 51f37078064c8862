import IssueQuery.Issue
import IssueQuery.Query.Selection
import IssueQuery.Store

/-!
# Statements for the store

The statements that fetch issues and what belongs to them. Issues that were deleted are left out
everywhere: `liveIssue` is a condition of every statement over issues, and conditions of a query
come behind it.
-/

namespace IssueQuery.Statement

/-- The condition that the issue of a row alias was not deleted. -/
def live (row : String) : String :=
  row ++ ".status NOT IN ('deleted', 'tombstone') AND " ++ row ++ ".deleted_at IS NULL"

/-- The condition that the issue under test was not deleted. -/
def liveIssue : String := live "i"

/-- All issues that were not deleted. -/
def allIssues : String :=
  "SELECT " ++ ", ".intercalate (Issue.columns.map fun c => "i." ++ c) ++ " FROM issues i WHERE "
    ++ liveIssue

/-- The issues that meet a condition, in an order; an empty text stands for none. -/
def issues (condition order : String) (params : List Sql.Param) : Statement :=
  ⟨allIssues ++ (if condition = "" then "" else " AND " ++ condition)
    ++ (if order = "" then "" else " ORDER BY " ++ order), params⟩

/-- The issues that a query selects. -/
def selected (s : Selection) : Statement := issues s.whereText s.orderText s.params

/-- Identifiers as values to bind. -/
def idParams (ids : List Text) : List Sql.Param := ids.map .text

/-- The issues of some identifiers, in no order. -/
def withIds (ids : List Text) : Statement :=
  issues ("i.id IN (" ++ Sql.placeholders ids.length ++ ")") "" (idParams ids)

/-- The dependencies of some issues in both directions, as far as the other end was not deleted. -/
def dependencies (ids : List Text) : Statement :=
  let marks := Sql.placeholders ids.length
  ⟨"SELECT d.issue_id, d.depends_on_id, d.type"
    ++ " FROM dependencies d JOIN issues o ON o.id = d.depends_on_id"
    ++ " WHERE d.issue_id IN (" ++ marks ++ ") AND " ++ live "o"
    ++ " UNION SELECT d.issue_id, d.depends_on_id, d.type"
    ++ " FROM dependencies d JOIN issues o ON o.id = d.issue_id"
    ++ " WHERE d.depends_on_id IN (" ++ marks ++ ") AND " ++ live "o"
    ++ " ORDER BY issue_id, depends_on_id", idParams ids ++ idParams ids⟩

/-- The labels of some issues. -/
def labels (ids : List Text) : Statement :=
  ⟨"SELECT issue_id, label FROM labels WHERE issue_id IN (" ++ Sql.placeholders ids.length
    ++ ") ORDER BY issue_id, label", idParams ids⟩

/-- The numbers of comments on some issues. -/
def commentCounts (ids : List Text) : Statement :=
  ⟨"SELECT issue_id, COUNT(*) AS count FROM comments WHERE issue_id IN ("
    ++ Sql.placeholders ids.length ++ ") GROUP BY issue_id", idParams ids⟩

/-- Every dependency between issues that were not deleted. -/
def allDependencies : Statement :=
  ⟨"SELECT d.issue_id, d.depends_on_id, d.type FROM dependencies d"
    ++ " JOIN issues a ON a.id = d.issue_id JOIN issues b ON b.id = d.depends_on_id"
    ++ " WHERE " ++ live "a" ++ " AND " ++ live "b", []⟩

end IssueQuery.Statement
