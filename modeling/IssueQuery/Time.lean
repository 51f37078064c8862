import IssueQuery.Number.Arithmetic

/-!
# Times

Points of time and spans of time, both in milliseconds. A point is counted from an origin of the
clock's own. Times are numbers in double precision, so a sum of times is rounded like any other.
-/

namespace IssueQuery

/-- A point of time or a span of time, in milliseconds. -/
abbrev Time := Number

end IssueQuery
