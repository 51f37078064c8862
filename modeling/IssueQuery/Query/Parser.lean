import IssueQuery.Query.ParseError
import IssueQuery.Token.Lexer

/-!
# From tokens to queries

The grammar, over the tokens of `Text.properTokens`:

```
query      := [expression] [expand] [orderBy]
expression := term (OR term)*
term       := factor (AND factor)*
factor     := NOT factor | '(' expression ')' | comparison
comparison := IDENT (op value | [NOT] IN '(' value (',' value)* ')')
expand     := EXPAND IDENT [DEPTH (NUMBER | '*')]
orderBy    := ORDER BY IDENT [ASC | DESC] (',' IDENT [ASC | DESC])*
```

A part of the grammar is a function from the tokens left to a value and the tokens after it. A
failure keeps the tokens that were left where it was found. The recursive parts count down a bound
on their calls; every call takes a token or goes one step down the grammar, so `Query.parse` starts
them with a bound that is never used up.
-/

namespace IssueQuery

namespace Parser

/-- Where a part of the grammar does not match: the cause, and the tokens left at that place. -/
structure Failure where
  cause : ParseError.Cause
  left : List Token
deriving DecidableEq, Repr

/-- A value and the tokens after it. -/
abbrev Parsed (α : Type) := α × List Token

/-- Refuses the next token in favour of what the grammar asks for. An illegal token is always
refused as such. -/
def refuse {α : Type} (what : Expectation) (tokens : List Token) : Except Failure (Parsed α) :=
  match tokens with
  | token :: _ =>
    if token.kind = .illegal then .error ⟨.illegal, tokens⟩ else .error ⟨.expected what, tokens⟩
  | [] => .error ⟨.expected what, tokens⟩

/-! ## Values -/

/-- The value of a number token: a date if it has a unit. -/
def numberValue (literal : Text) : Value :=
  match Offset.read? OffsetUnit.ofAnyLetter? literal with
  | some offset => .date literal offset.toText
  | none => .int literal (Number.ofInt (wholeNumberValue literal))

/-- The value of a word: a priority, a date, or else the word itself. -/
def wordValue (literal : Text) : Value :=
  match literal.priorityLevel? with
  | some level => .priority literal (Number.ofInt level)
  | none =>
    let small := literal.toLower
    if small = Text.ofString "today" || small = Text.ofString "yesterday" then .date literal small
    else if isIsoDate literal then .date literal literal
    else .string literal literal

/-- The value of a quoted text: a date if it has the form of one. -/
def stringValue (literal : Text) : Value :=
  if isIsoDate literal then .date literal literal else .string literal literal

/-- The value that a token is, if it is one. -/
def valueOf? (token : Token) : Option Value :=
  match token.kind with
  | .string => some (stringValue token.literal)
  | .number => some (numberValue token.literal)
  | .keyword .trueWord => some (.bool token.literal true)
  | .keyword .falseWord => some (.bool token.literal false)
  | .identifier => some (wordValue token.literal)
  | _ => none

/-- A value. -/
def value (tokens : List Token) : Except Failure (Parsed Value) :=
  match tokens with
  | token :: rest =>
    match valueOf? token with
    | some v => .ok (v, rest)
    | none => refuse .value tokens
  | [] => refuse .value tokens

/-- The values after the first one of a list, up to the closing parenthesis. -/
def moreValues : (tokens : List Token) → Except Failure (Parsed (List Value))
  | ⟨.comma, _, _⟩ :: token :: rest =>
    match valueOf? token with
    | some v => do
      let (values, rest) ← moreValues rest
      return (v :: values, rest)
    | none => refuse .value (token :: rest)
  | [⟨.comma, _, _⟩] => refuse .value []
  | ⟨.rightParen, _, _⟩ :: rest => .ok ([], rest)
  | tokens => refuse .closeParen tokens

/-- A parenthesised list of one or more values. -/
def valueList (tokens : List Token) : Except Failure (Parsed (List Value)) :=
  match tokens with
  | ⟨.leftParen, _, _⟩ :: rest => do
    let (first, rest) ← value rest
    let (values, rest) ← moreValues rest
    return (first :: values, rest)
  | _ => refuse .openParen tokens

/-! ## Conditions -/

/-- What follows the field of a comparison. -/
def condition (field : Text) (tokens : List Token) : Except Failure (Parsed Leaf) :=
  match tokens with
  | ⟨.keyword .not, _, _⟩ :: ⟨.keyword .inList, _, _⟩ :: rest => do
    let (values, rest) ← valueList rest
    return (.oneOf field values true, rest)
  | ⟨.keyword .inList, _, _⟩ :: rest => do
    let (values, rest) ← valueList rest
    return (.oneOf field values false, rest)
  | ⟨.comparison op, _, _⟩ :: rest => do
    let (v, rest) ← value rest
    return (.compare field op v, rest)
  | _ => refuse .comparisonOperator tokens

/-- A field and its condition. -/
def comparison (tokens : List Token) : Except Failure (Parsed Filter) :=
  match tokens with
  | ⟨.identifier, field, _⟩ :: rest => do
    let (leaf, rest) ← condition field rest
    return (.leaf leaf, rest)
  | _ => refuse .fieldName tokens

mutual

/-- Terms joined by OR, to the left. -/
def expression : (bound : Nat) → List Token → Except Failure (Parsed Filter)
  | 0, tokens => refuse .fieldName tokens
  | bound + 1, tokens => do
    let (left, rest) ← term bound tokens
    disjunction bound left rest

/-- Goes on with an expression whose terms so far are `left`. -/
def disjunction : (bound : Nat) → Filter → List Token → Except Failure (Parsed Filter)
  | 0, _, tokens => refuse .fieldName tokens
  | bound + 1, left, tokens =>
    match tokens with
    | ⟨.keyword .or, _, _⟩ :: rest => do
      let (right, rest) ← term bound rest
      disjunction bound (.binary .or left right) rest
    | _ => .ok (left, tokens)

/-- Factors joined by AND, to the left. -/
def term : (bound : Nat) → List Token → Except Failure (Parsed Filter)
  | 0, tokens => refuse .fieldName tokens
  | bound + 1, tokens => do
    let (left, rest) ← factor bound tokens
    conjunction bound left rest

/-- Goes on with a term whose factors so far are `left`. -/
def conjunction : (bound : Nat) → Filter → List Token → Except Failure (Parsed Filter)
  | 0, _, tokens => refuse .fieldName tokens
  | bound + 1, left, tokens =>
    match tokens with
    | ⟨.keyword .and, _, _⟩ :: rest => do
      let (right, rest) ← factor bound rest
      conjunction bound (.binary .and left right) rest
    | _ => .ok (left, tokens)

/-- A negated factor, an expression in parentheses, or a comparison. -/
def factor : (bound : Nat) → List Token → Except Failure (Parsed Filter)
  | 0, tokens => refuse .fieldName tokens
  | bound + 1, tokens =>
    match tokens with
    | ⟨.keyword .not, _, _⟩ :: rest => do
      let (inner, rest) ← factor bound rest
      return (.not inner, rest)
    | ⟨.leftParen, _, _⟩ :: rest => do
      let (inner, rest) ← expression bound rest
      match rest with
      | ⟨.rightParen, _, _⟩ :: rest => .ok (inner, rest)
      | _ => refuse .closeParen rest
    | _ => comparison tokens

end

/-! ## Clauses -/

/-- The depth after `depth`: a whole number from 1 to the limit, or `*`. -/
def depth (tokens : List Token) : Except Failure (Parsed Depth) :=
  match tokens with
  | ⟨.star, _, _⟩ :: rest => .ok (.unlimited, rest)
  | ⟨.number, literal, _⟩ :: rest =>
    let n := wholeNumberValue literal
    if !isWholeNumber literal then .error ⟨.malformedDepth, tokens⟩
    else if n < 1 then .error ⟨.depthBelowOne n, tokens⟩
    else if Depth.limit < n then .error ⟨.depthAboveLimit n, tokens⟩
    else .ok (.levels n, rest)
  | _ => refuse .depth tokens

/-- What follows `expand`. Without a depth one level is meant. -/
def expansion (tokens : List Token) : Except Failure (Parsed Expansion) :=
  match tokens with
  | ⟨.identifier, word, _⟩ :: rest =>
    match Direction.ofWord? word with
    | none => .error ⟨.unknownDirection, tokens⟩
    | some direction =>
      match rest with
      | ⟨.keyword .depth, _, _⟩ :: rest => do
        let (d, rest) ← depth rest
        return (⟨direction, d⟩, rest)
      | _ => .ok (⟨direction, .levels 1⟩, rest)
  | _ => refuse .direction tokens

/-- The optional `asc` or `desc` after a field. -/
def descending (tokens : List Token) : Bool × List Token :=
  match tokens with
  | ⟨.keyword .asc, _, _⟩ :: rest => (false, rest)
  | ⟨.keyword .desc, _, _⟩ :: rest => (true, rest)
  | _ => (false, tokens)

/-- One or more fields to order by, separated by commas. -/
def orderTerms : (bound : Nat) → List Token → Except Failure (Parsed (List OrderTerm))
  | 0, tokens => refuse .fieldName tokens
  | bound + 1, tokens =>
    match tokens with
    | ⟨.identifier, field, _⟩ :: rest =>
      let (down, rest) := descending rest
      match rest with
      | ⟨.comma, _, _⟩ :: rest => do
        let (terms, rest) ← orderTerms bound rest
        return (⟨field, down⟩ :: terms, rest)
      | _ => .ok ([⟨field, down⟩], rest)
    | _ => refuse .fieldName tokens

/-- What follows `order`. -/
def order (tokens : List Token) : Except Failure (Parsed (List OrderTerm)) :=
  match tokens with
  | ⟨.keyword .byWord, _, _⟩ :: rest => orderTerms (rest.length + 1) rest
  | _ => refuse .byWord tokens

/-- The filter of a query, which is missing if a clause or nothing follows. -/
def filter (tokens : List Token) : Except Failure (Parsed (Option Filter)) :=
  match tokens with
  | [] | ⟨.keyword .expand, _, _⟩ :: _ | ⟨.keyword .order, _, _⟩ :: _ => .ok (none, tokens)
  | _ => do
    -- three steps down the grammar (expression, term, factor) for each token, and for none
    let (f, rest) ← expression (3 * tokens.length + 3) tokens
    return (some f, rest)

/-- The expand clause of a query, if there is one. -/
def expandClause (tokens : List Token) : Except Failure (Parsed (Option Expansion)) :=
  match tokens with
  | ⟨.keyword .expand, _, _⟩ :: rest => do
    let (e, rest) ← expansion rest
    return (some e, rest)
  | _ => .ok (none, tokens)

/-- The order clause of a query, empty if there is none. -/
def orderClause (tokens : List Token) : Except Failure (Parsed (List OrderTerm)) :=
  match tokens with
  | ⟨.keyword .order, _, _⟩ :: rest => order rest
  | _ => .ok ([], tokens)

/-- A whole query: nothing may follow it. -/
def query (tokens : List Token) : Except Failure Query := do
  let (f, rest) ← filter tokens
  let (e, rest) ← expandClause rest
  let (terms, rest) ← orderClause rest
  match rest with
  | [] => return ⟨f, e, terms⟩
  | token :: _ => .error ⟨if token.kind = .illegal then .illegal else .trailing, rest⟩

end Parser

/-- The query that a text writes, or the error at the first token that is wrong. -/
def Query.parse (text : Text) : Except ParseError Query :=
  (Parser.query text.properTokens).mapError fun failure =>
    ⟨failure.cause, failure.left.headD text.endToken⟩

end IssueQuery
