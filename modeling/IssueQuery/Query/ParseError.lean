import IssueQuery.Number.Decimal
import IssueQuery.Query
import IssueQuery.Text.Quoted
import IssueQuery.Token

/-!
# Parse errors

A parse error is a cause and the token at which it was found. Its message names the token's place,
and says `end of input` where there is no token left.
-/

namespace IssueQuery

namespace Direction

/-- The words for the directions, in the order in which messages list them. -/
def words : List (String × Direction) := [
  ("up", .up), ("upstream", .up), ("blockers", .up), ("parent", .up), ("parents", .up),
  ("down", .down), ("downstream", .down), ("children", .down), ("blocks", .down),
  ("all", .both), ("deps", .both)]

/-- The direction that a word names, whatever its case. -/
def ofWord? (word : Text) : Option Direction :=
  let small := word.toLower
  (words.find? fun entry => Text.ofString entry.1 == small).map Prod.snd

/-- The direction words as messages list them. -/
def wordList : String := ", ".intercalate (words.map Prod.fst)

end Direction

/-- What the grammar asks for at some place. -/
inductive Expectation where
  | fieldName
  | comparisonOperator
  | openParen
  | closeParen
  | value
  | byWord
  | direction
  | depth
deriving DecidableEq, Repr, Inhabited

/-- How messages name what is asked for. -/
def Expectation.phrase : Expectation → String
  | .fieldName => "field name"
  | .comparisonOperator => "operator"
  | .openParen => "'('"
  | .closeParen => "')'"
  | .value => "value"
  | .byWord => "'by'"
  | .direction => "expansion type (valid: " ++ Direction.wordList ++ ")"
  | .depth => "depth value (number or *)"

namespace ParseError

/-- Why a text is no query. -/
inductive Cause where
  | illegal
  | expected (what : Expectation)
  /-- The query is complete and something follows it. -/
  | trailing
  | unknownDirection
  /-- The depth is a number with a unit. -/
  | malformedDepth
  | depthBelowOne (depth : Int)
  | depthAboveLimit (depth : Int)
deriving DecidableEq, Repr, Inhabited

end ParseError

/-- A text that is no query. -/
structure ParseError where
  cause : ParseError.Cause
  /-- The first token that cannot be part of the query. -/
  token : Token
deriving DecidableEq, Repr, Inhabited

/-- The greatest depth that a query may ask for by number. -/
def Depth.limit : Int := 10

namespace ParseError

/-- How messages name a token. -/
def describe (token : Token) : Text :=
  if token.kind = .endOfInput then "end of input" else token.literal.quoted

/-- A number as messages write it. -/
def numeral (n : Int) : Text := (Number.ofInt n).toText

/-- The message about the error. -/
def message (e : ParseError) : Text :=
  let place : Text := " at position " ++ numeral e.token.pos
  match e.cause with
  | .illegal => "illegal character " ++ describe e.token ++ place
  | .expected what =>
    "expected " ++ Text.ofString what.phrase ++ place ++ ", got " ++ describe e.token
  | .trailing => "unexpected token " ++ describe e.token ++ place
  | .unknownDirection =>
    "unknown expansion type " ++ e.token.literal.quoted ++ place ++ " (valid: "
      ++ Text.ofString Direction.wordList ++ ")"
  | .malformedDepth => "invalid depth value " ++ e.token.literal.quoted ++ place
  | .depthBelowOne n => "depth must be at least 1, got " ++ numeral n ++ place
  | .depthAboveLimit n =>
    "depth cannot exceed " ++ numeral Depth.limit ++ ", got " ++ numeral n ++ place

end ParseError

end IssueQuery
