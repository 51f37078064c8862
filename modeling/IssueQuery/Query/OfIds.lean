import IssueQuery.Text.Quoted

/-!
# Queries for given issues

The query text that selects the issues of given identifiers.
-/

namespace IssueQuery

/-- `id = "x"` for one identifier, `id in ("x", "y")` for several, nothing for none. -/
def idQuery (ids : List Text) : Text :=
  match ids with
  | [] => []
  | [id] => "id = " ++ id.quoted
  | _ => "id in (" ++ Text.join ", " (ids.map Text.quoted) ++ ")"

end IssueQuery
