import IssueQuery.Field
import IssueQuery.Query
import IssueQuery.Token.Lexer

/-!
# Highlighting a line

`Text.highlight` gives the parts of a line that an editor colours. An identifier is a field unless
it stands where a value stands: after a comparison operator, or in the parentheses after `in`. Such
an identifier is coloured only if it is a value that the language knows.
-/

namespace IssueQuery

/-- What a coloured part of a line is. -/
inductive SyntaxKind where
  | keyword
  | operator
  | paren
  | comma
  | string
  | literal
  | field
  | value
deriving DecidableEq, Repr, Inhabited

/-- The name of the colour. -/
def SyntaxKind.name : SyntaxKind → String
  | .keyword => "keyword"
  | .operator => "operator"
  | .paren => "paren"
  | .comma => "comma"
  | .string => "string"
  | .literal => "literal"
  | .field => "field"
  | .value => "value"

/-- A coloured part of a line: the offsets of its first unit and of the unit after its last. -/
structure Span where
  start : Nat
  stop : Nat
  kind : SyntaxKind
deriving DecidableEq, Repr, Inhabited

/-- The colour of a token that does not stand for a value. -/
def TokenKind.syntaxKind? : TokenKind → Option SyntaxKind
  | .keyword .trueWord | .keyword .falseWord | .number => some .literal
  | .keyword _ => some .keyword
  | .comparison _ | .star => some .operator
  | .leftParen | .rightParen => some .paren
  | .comma => some .comma
  | .string => some .string
  | .identifier => some .field
  | .endOfInput | .illegal | .reserved _ => none

/-- Values that the language knows by name, priorities apart. -/
def knownWords : List String := issueTypes ++ issueStates ++ ["today", "yesterday"]

/-- Whether a word is a value that the language knows. -/
def isKnownValue (word : Text) : Bool :=
  word.priorityLevel?.isSome || knownWords.any fun known => Text.ofString known == word.toLower

namespace Highlight

/-- The number of units up to and including the closing quote, or to the end of the line. A unit
after a backslash closes nothing. -/
def throughQuote (quote : CodeUnit) : Text → Nat
  | [] => 0
  | [_] => 1
  | u :: v :: rest =>
    if u.toChar == '\\' then throughQuote quote rest + 2
    else if u = quote then 1
    else throughQuote quote (v :: rest) + 1

/-- The number of units that a quoted string takes, its quotes included. -/
def stringLength : Text → Nat
  | [] => 0
  | quote :: rest => throughQuote quote rest + 1

/-- Where in a line the next token stands. -/
structure State where
  /-- In the parentheses after `in`. -/
  inList : Bool
  /-- After a comparison operator, before its value. -/
  afterOperator : Bool
  previous : TokenKind
deriving DecidableEq, Repr, Inhabited

/-- At the beginning of a line. -/
def State.initial : State := ⟨false, false, .endOfInput⟩

/-- Whether the token opens or leaves a value list, given the token before it. -/
def State.listAfter (s : State) (kind : TokenKind) : Bool :=
  if kind = .leftParen && s.previous = .keyword .inList then true
  else if kind = .rightParen then false
  else s.inList

/-- Whether an operator waits for its value once the token is seen. -/
def State.operatorAfter (s : State) (kind : TokenKind) : Bool :=
  match kind with
  | .comparison _ => true
  | .keyword .and | .keyword .or | .keyword .not | .keyword .order => false
  | _ => s.afterOperator

/-- The colour of a token in its place, and the state behind it. -/
def State.next (s : State) (token : Token) : Option SyntaxKind × State :=
  let inList := s.listAfter token.kind
  let afterOperator := s.operatorAfter token.kind
  if token.kind = .identifier && (inList || afterOperator) then
    (if isKnownValue token.literal then some .value else none, ⟨inList, false, token.kind⟩)
  else
    let kind := token.kind.syntaxKind?
    -- a string or a literal is the value that the operator waited for
    let answered := kind = some .string || kind = some .literal
    (kind, ⟨inList, afterOperator && !answered, token.kind⟩)

/-- The coloured part that a token is. -/
def span (line : Text) (token : Token) (kind : SyntaxKind) : Span :=
  let start := token.pos - 1
  let length :=
    if token.kind = .string then stringLength (line.drop start) else token.literal.length
  ⟨start, start + length, kind⟩

/-- The coloured parts of the tokens left. -/
def spans (line : Text) (s : State) : List Token → List Span
  | [] => []
  | token :: rest =>
    let (kind?, s) := s.next token
    (kind?.map (span line token)).toList ++ spans line s rest

end Highlight

/-- The coloured parts of a line. -/
def Text.highlight (line : Text) : List Span := Highlight.spans line .initial line.properTokens

end IssueQuery
