import IssueQuery.DateText
import IssueQuery.Text.Letter
import IssueQuery.Token

/-!
# From text to tokens

`Text.lexemes` walks over the text once. A code unit either belongs to the token before it, or is a
space, or starts a token, which `Lexeme.scan` reads; every token has at least one unit, so the walk
is a recursion on the text. Nothing is refused: what is part of no other token is an illegal token.

* `Text.lexemes` the tokens with their extents in the source;
* `Text.tokens`  the tokens, closed by the end of the input.
-/

namespace IssueQuery

namespace CodeUnit

/-- The characters between tokens: space, tab, line feed and carriage return. -/
def isSpace (u : CodeUnit) : Bool :=
  match u.toChar with
  | ' ' | '\t' | '\n' | '\r' => true
  | _ => false

/-- The characters that go on with a word. -/
def isWordUnit (u : CodeUnit) : Bool :=
  u.toChar == '_' || u.toChar == '-' || u.isDigit || u.isLetter

/-- The characters that start a word, digits apart. -/
def startsWord (u : CodeUnit) : Bool := u.isLetter || u.toChar == '_'

/-- What a backslash in a string makes of the unit after it. -/
def unescaped (u : CodeUnit) : CodeUnit :=
  match u.toChar with
  | 'n' => 0x0A
  | 't' => 0x09
  | 'r' => 0x0D
  | _ => u

end CodeUnit

/-- Whether a word that starts with a digit or a signed digit is a number: a whole number, with an
optional unit of time. -/
def isNumberWord (word : Text) : Bool :=
  isWholeNumber word || (Offset.read? OffsetUnit.ofAnyLetter? word).isSome

/-- A token as it is read off the front of a text. -/
structure Lexeme where
  kind : TokenKind
  literal : Text
  /-- How many code units the token has after its first. -/
  further : Nat
deriving DecidableEq, Repr, Inhabited

namespace Lexeme

/-- The text of a string after its opening quote, and the number of units that it takes, closing
quote included. A string that is not closed runs to the end; a backslash at the end stands for
itself. -/
def stringBody (quote : CodeUnit) : Text → Text × Nat
  | [] => ([], 0)
  | [u] => if u = quote then ([], 1) else ([u], 1)
  | u :: v :: rest =>
    if u = quote then ([], 1)
    else if u.toChar == '\\' then
      -- the unit after a backslash closes nothing, even if it is a quote
      let (body, count) := stringBody quote rest
      (v.unescaped :: body, count + 2)
    else
      let (body, count) := stringBody quote (v :: rest)
      (u :: body, count + 1)

/-- A token that is its own source. -/
def verbatim (kind : TokenKind) (source : Text) : Lexeme := ⟨kind, source, source.length - 1⟩

/-- An operator of one or two units: `long` if `second` follows, else `short`. -/
def operator (u : CodeUnit) (rest : Text) (second : Char) (long short : TokenKind) : Lexeme :=
  match rest with
  | v :: _ => if v.toChar == second then verbatim long [u, v] else verbatim short [u]
  | [] => verbatim short [u]

/-- A token that starts with a digit, or with a sign and a digit: a number if it has the form of
one, else an identifier, or illegal after a sign. -/
def numeric (signed : Bool) (source : Text) : Lexeme :=
  if isNumberWord source then verbatim .number source
  else verbatim (if signed then .illegal else .identifier) source

/-- Whether the text goes on with a digit. -/
def startsWithDigit (text : Text) : Bool := (text.head?.map CodeUnit.isDigit).getD false

/-- A token that is no sign of the language: a number, a word, or an illegal character. -/
def wordLike (u : CodeUnit) (rest : Text) : Lexeme :=
  let source := u :: rest.takeWhile CodeUnit.isWordUnit
  if u.isDigit then numeric false source
  else if (u.toChar == '-' || u.toChar == '+') && startsWithDigit rest then numeric true source
  else if u.startsWord then verbatim (TokenKind.ofWord source) source
  else verbatim .illegal [u]

/-- The token that starts with `u` and may go on into `rest`. -/
def scan (u : CodeUnit) (rest : Text) : Lexeme :=
  match u.toChar with
  | '(' => verbatim .leftParen [u]
  | ')' => verbatim .rightParen [u]
  | ',' => verbatim .comma [u]
  | '*' => verbatim .star [u]
  | '=' => verbatim (.comparison .eq) [u]
  | '~' => verbatim (.comparison .contains) [u]
  | '!' =>
    match rest with
    | v :: _ =>
      match v.toChar with
      | '=' => verbatim (.comparison .ne) [u, v]
      | '~' => verbatim (.comparison .notContains) [u, v]
      | _ => verbatim .illegal [u]
    | [] => verbatim .illegal [u]
  | '<' => operator u rest '=' (.comparison .le) (.comparison .lt)
  | '>' => operator u rest '=' (.comparison .ge) (.comparison .gt)
  | '"' | '\'' =>
    let (body, count) := stringBody u rest
    ⟨.string, body, count⟩
  | _ => wordLike u rest

end Lexeme

namespace Text

/-- The tokens of a text with the number of units that each has after its first. The first `skip`
units belong to the token before; `pos` is the place of the first unit. -/
def lexemesFrom : Text → (skip : Nat) → (pos : Nat) → List (Token × Nat)
  | [], _, _ => []
  | _ :: rest, skip + 1, pos => lexemesFrom rest skip (pos + 1)
  | u :: rest, 0, pos =>
    if u.isSpace then lexemesFrom rest 0 (pos + 1)
    else
      let lexeme := Lexeme.scan u rest
      (⟨lexeme.kind, lexeme.literal, pos⟩, lexeme.further) ::
        lexemesFrom rest lexeme.further (pos + 1)

/-- Units of the token before are passed over. -/
theorem lexemesFrom_skip (skipped rest : Text) (pos : Nat) :
    lexemesFrom (skipped ++ rest) skipped.length pos =
      lexemesFrom rest 0 (pos + skipped.length) := by
  induction skipped generalizing pos with
  | nil => rfl
  | cons u tail ih =>
    rw [List.cons_append, List.length_cons, lexemesFrom, ih]
    congr 1
    omega

/-- The tokens of a text, each with the number of units that it has after its first. -/
def lexemes (text : Text) : List (Token × Nat) := text.lexemesFrom 0 1

/-- The token that stands behind the last one. -/
def endToken (text : Text) : Token := ⟨.endOfInput, [], text.length + 1⟩

/-- The tokens of a text without the end of the input. -/
def properTokens (text : Text) : List Token := text.lexemes.map Prod.fst

/-- The tokens of a text, the end of the input included. -/
def tokens (text : Text) : List Token := text.properTokens ++ [text.endToken]

end Text

end IssueQuery
