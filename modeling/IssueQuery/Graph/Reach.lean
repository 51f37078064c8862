import IssueQuery.Graph
import IssueQuery.Number.Arithmetic
import IssueQuery.Query

/-!
# Expanding along dependencies

Starting from base issues, each round adds the neighbours of the issues that the round before
added, until the depth is reached or a round adds nothing. Depth without limit stops all the same
after `Graph.roundLimit` rounds, and says whether there was more to find.
-/

namespace IssueQuery

/-- What an expansion found. -/
structure Reach where
  /-- The base without repetitions, then the others in the order in which they were found. -/
  ids : List Text
  /-- An expansion without limit left something out. -/
  truncated : Bool
  /-- The rounds that added an issue. -/
  levels : Nat
  /-- The rounds begun, of which the last may have added nothing. -/
  rounds : Nat
deriving DecidableEq, Repr, Inhabited

/-- The depth that a number asks for: a part of a level is a level. -/
def Depth.ofNumber (x : Number) : Depth := .levels x.ceil

namespace Graph

/-- The greatest number of rounds of an expansion without limit. -/
def roundLimit : Nat := 100

/-- The greatest number of rounds for a depth; a negative depth allows none. -/
def allowedRounds : Depth → Nat
  | .levels count => count.toNat
  | .unlimited => roundLimit

/-- The issues next to an issue in a direction. -/
def neighbours (g : Graph) (direction : Direction) (id : Text) : List Text :=
  match direction with
  | .up => (Adjacency.edges g.forward id).map Edge.target
  | .down => (Adjacency.edges g.reverse id).map Edge.target
  | .both => (Adjacency.edges g.forward id ++ Adjacency.edges g.reverse id).map Edge.target

/-- The neighbours of `frontier` that are not yet `seen`, in the order in which they are found. -/
def discover (g : Graph) (direction : Direction) (seen frontier : List Text) : List Text :=
  firstOccurrences ((frontier.flatMap (g.neighbours direction)).filter fun id => !seen.contains id)

/-- Expands by at most `allowed` rounds from the issues seen so far, of which `frontier` was found
last. Gives all issues, the last ones found, and the numbers of rounds that found something and of
rounds begun. -/
def rounds (g : Graph) (direction : Direction) :
    (allowed : Nat) → (seen frontier : List Text) → List Text × List Text × Nat × Nat
  | 0, seen, frontier => (seen, frontier, 0, 0)
  | allowed + 1, seen, frontier =>
    if frontier.isEmpty then (seen, [], 0, 0)
    else
      let next := g.discover direction seen frontier
      if next.isEmpty then (seen, [], 0, 1)
      else
        let (all, last, levels, begun) := rounds g direction allowed (seen ++ next) next
        (all, last, levels + 1, begun + 1)

/-- Expands base issues in a direction. -/
def expand (g : Graph) (base : List Text) (direction : Direction) (depth : Depth) : Reach :=
  let start := firstOccurrences base
  let (ids, last, levels, begun) := g.rounds direction (allowedRounds depth) start start
  let truncated := depth = .unlimited && !(g.discover direction ids last).isEmpty
  ⟨ids, truncated, levels, begun⟩

/-- Expands base issues unless a round is called off: before each round, counted from 0, it is
asked whether to give up. -/
def expandUnless (g : Graph) (giveUp : Nat → Bool) (base : List Text) (direction : Direction)
    (depth : Depth) : Option Reach :=
  let reach := g.expand base direction depth
  if (List.range reach.rounds).any giveUp then none else some reach

end Graph

end IssueQuery
