import IssueQuery.Comparison
import IssueQuery.Text.LowerCase

/-!
# Tokens of the query language

A token is a piece of query text with its kind, the text it stands for and its position. Words are
classified without regard to case: `TokenKind.ofWord` finds the twelve keywords, takes two reserved
words out of use, and makes every other word an identifier.
-/

namespace IssueQuery

/-- A word with a meaning of its own. -/
inductive Keyword where
  | and
  | or
  | not
  | inList
  | order
  | byWord
  | asc
  | desc
  | trueWord
  | falseWord
  | expand
  | depth
deriving DecidableEq, Repr, Inhabited

/-- Words that are neither keywords nor identifiers, so no query can use them. -/
inductive ReservedWord where
  | constructorWord
  | protoWord
deriving DecidableEq, Repr, Inhabited

/-- What a token is. -/
inductive TokenKind where
  | endOfInput
  /-- A character or signed word that is part of no other token. -/
  | illegal
  | identifier
  | string
  | number
  | leftParen
  | rightParen
  | comma
  | star
  | comparison (op : ComparisonOp)
  | keyword (word : Keyword)
  | reserved (word : ReservedWord)
deriving DecidableEq, Repr, Inhabited

/-- A piece of query text. -/
structure Token where
  kind : TokenKind
  /-- The source of the token, or for a string the text between its quotes with escapes resolved. -/
  literal : Text
  /-- The place of the first code unit, counted from 1. -/
  pos : Nat
deriving DecidableEq, Repr, Inhabited

namespace Keyword

/-- The twelve keywords. -/
def all : List Keyword :=
  [and, or, not, inList, order, byWord, asc, desc, trueWord, falseWord, expand, depth]

/-- How the keyword is written, in lower case. -/
def spelling : Keyword → String
  | .and => "and"
  | .or => "or"
  | .not => "not"
  | .inList => "in"
  | .order => "order"
  | .byWord => "by"
  | .asc => "asc"
  | .desc => "desc"
  | .trueWord => "true"
  | .falseWord => "false"
  | .expand => "expand"
  | .depth => "depth"

/-- The name under which token listings show the keyword. -/
def name : Keyword → String
  | .and => "AND"
  | .or => "OR"
  | .not => "NOT"
  | .inList => "IN"
  | .order => "ORDER"
  | .byWord => "BY"
  | .asc => "ASC"
  | .desc => "DESC"
  | .trueWord => "TRUE"
  | .falseWord => "FALSE"
  | .expand => "EXPAND"
  | .depth => "DEPTH"

end Keyword

namespace ReservedWord

/-- The reserved words. -/
def all : List ReservedWord := [constructorWord, protoWord]

/-- How the word is written, in lower case. -/
def spelling : ReservedWord → String
  | .constructorWord => "constructor"
  | .protoWord => "__proto__"

/-- What token listings show in place of a kind. -/
def name : ReservedWord → String
  | .constructorWord => "function Object() \x7b [native code] \x7d"
  | .protoWord => "[object Object]"

end ReservedWord

namespace TokenKind

/-- The name under which token listings show a comparison operator. -/
def comparisonName : ComparisonOp → String
  | .eq => "EQ"
  | .ne => "NEQ"
  | .lt => "LT"
  | .gt => "GT"
  | .le => "LTE"
  | .ge => "GTE"
  | .contains => "CONTAINS"
  | .notContains => "NOT_CONTAINS"

/-- The name under which token listings show the kind. -/
def name : TokenKind → String
  | .endOfInput => "EOF"
  | .illegal => "ILLEGAL"
  | .identifier => "IDENT"
  | .string => "STRING"
  | .number => "NUMBER"
  | .leftParen => "LPAREN"
  | .rightParen => "RPAREN"
  | .comma => "COMMA"
  | .star => "STAR"
  | .comparison op => comparisonName op
  | .keyword word => word.name
  | .reserved word => word.name

/-- Every kind, reserved words apart. -/
def all : List TokenKind :=
  [endOfInput, illegal, identifier, string, number, leftParen, rightParen, comma, star]
    ++ ComparisonOp.all.map comparison ++ Keyword.all.map keyword

/-- The kind that a name shows. -/
def ofName? (name : Text) : Option TokenKind :=
  all.find? fun kind => Text.ofString kind.name == name

/-- The operator of a comparison token. -/
def comparisonOp? : TokenKind → Option ComparisonOp
  | .comparison op => some op
  | _ => none

/-- Whether the token is a comparison operator. -/
def isComparison (kind : TokenKind) : Bool := kind.comparisonOp?.isSome

/-- The kind of a word, whatever its case. -/
def ofWord (word : Text) : TokenKind :=
  let small := word.toLower
  match Keyword.all.find? fun k => Text.ofString k.spelling == small with
  | some k => .keyword k
  | none =>
    match ReservedWord.all.find? fun r => Text.ofString r.spelling == small with
    | some r => .reserved r
    | none => .identifier

end TokenKind

end IssueQuery
