import IssueQuery.Issue
import IssueQuery.OrderedMap

/-!
# The graph of dependencies

Every dependency is an edge from the issue to the one it depends on, kept in both directions:
`forward` leads up to what an issue depends on, `reverse` down to what depends on it. Edges of one
issue keep the order of the rows.
-/

namespace IssueQuery

/-- The end of a dependency as seen from its other end. -/
structure Edge where
  target : Text
  type : Text
deriving DecidableEq, Repr, Inhabited

/-- Edges by the issue that they start from. -/
abbrev Adjacency := OrderedMap Text (List Edge)

namespace Adjacency

/-- The edges of an issue. -/
def edges (a : Adjacency) (id : Text) : List Edge := (a.get? id).getD []

/-- Adds an edge behind the others of its issue. -/
def add (a : Adjacency) (id : Text) (edge : Edge) : Adjacency := a.insert id (a.edges id ++ [edge])

end Adjacency

/-- The dependencies between issues, seen from both ends. -/
structure Graph where
  forward : Adjacency
  reverse : Adjacency

namespace Graph

instance : Inhabited Graph := ⟨⟨OrderedMap.empty, OrderedMap.empty⟩⟩

/-- The graph without edges. -/
def empty : Graph := ⟨OrderedMap.empty, OrderedMap.empty⟩

/-- Adds a dependency in both directions. -/
def add (g : Graph) (d : Dependency) : Graph :=
  ⟨Adjacency.add g.forward d.issueId ⟨d.dependsOnId, d.type⟩,
    Adjacency.add g.reverse d.dependsOnId ⟨d.issueId, d.type⟩⟩

/-- The graph of a list of dependencies. -/
def ofDependencies (ds : List Dependency) : Graph := ds.foldl add empty

end Graph

end IssueQuery
