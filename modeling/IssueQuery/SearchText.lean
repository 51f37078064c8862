import IssueQuery.Text.Blank
import IssueQuery.Text.LowerCase

/-!
# Telling queries from free text

A search box takes both. Text reads as a query if it has a comparison operator between spaces, a
keyword between spaces, an order clause, or an expand clause at its beginning.
-/

namespace IssueQuery

/-- Operators that mark a query. -/
def queryOperators : List String := [" = ", " != ", " < ", " > ", " <= ", " >= ", " ~ ", " !~ "]

/-- Words that mark a query, whatever their case. -/
def queryWords : List String :=
  [" and ", " or ", " in ", " not ", " expand ", " depth ", "order by"]

/-- Whether the text reads as a query. -/
def Text.looksLikeQuery (text : Text) : Bool :=
  let small := text.toLower
  queryOperators.any (fun op => text.contains (op : String)) ||
    queryWords.any (fun word => small.contains (word : String)) ||
    (Text.ofString "expand ").isPrefixOf small.trim

end IssueQuery
