import IssueQuery.Sql

/-!
# Reading SQL conditions

A reader for the part of SQL that conditions are written in. It takes a text and the values to bind
to its `?`, knows nothing of how the text came about, and refuses whatever it cannot read.

* `symbols`    cuts a text into symbols;
* `bindMarks`  puts values in the place of the `?`, from left to right;
* `Expr.read`  reads the symbols by the usual precedence: `NOT` before `AND` before `OR`;
* `readText`   is all of this together.
-/

namespace IssueQuery.Sql

/-- A value of a column or a parameter. -/
inductive Datum where
  | null
  | number (n : Number)
  | text (t : Text)
deriving DecidableEq, Repr, Inhabited

/-- The datum that a parameter is bound as. -/
def Param.datum : Param → Datum
  | .text t => .text t
  | .number n => .number n

/-! ## Symbols -/

/-- A word of SQL with a meaning of its own. -/
inductive Word where
  | and
  | or
  | not
  | inList
  | like
  | select
  | fromTable
  | whereRow
deriving DecidableEq, Repr

/-- A symbol of SQL text. -/
inductive Symbol where
  | word (w : Word)
  | name (n : String)
  | number (n : Nat)
  | quoted (t : String)
  | comparison (op : ComparisonOp)
  /-- A `?` that has no value yet. -/
  | mark
  /-- A `?` with the value that is bound to it. -/
  | bound (d : Datum)
  | leftParen
  | rightParen
  | comma
  | dot
  /-- Anything else, which no condition can have. -/
  | other
deriving DecidableEq, Repr

namespace Symbol

/-- The symbol of a run of letters, digits and underscores. -/
def ofRun (run : List Char) : Symbol :=
  if run = ['A', 'N', 'D'] then .word .and
  else if run = ['O', 'R'] then .word .or
  else if run = ['N', 'O', 'T'] then .word .not
  else if run = ['I', 'N'] then .word .inList
  else if run = ['L', 'I', 'K', 'E'] then .word .like
  else if run = ['S', 'E', 'L', 'E', 'C', 'T'] then .word .select
  else if run = ['F', 'R', 'O', 'M'] then .word .fromTable
  else if run = ['W', 'H', 'E', 'R', 'E'] then .word .whereRow
  else if run.all Char.isDigit then .number (run.foldl (fun n c => 10 * n + (c.toNat - 0x30)) 0)
  else .name (String.ofList run)

/-- The symbol of a run of operator signs. -/
def ofSigns (signs : List Char) : Symbol :=
  match signs with
  | ['='] => .comparison .eq
  | ['!', '='] => .comparison .ne
  | ['<'] => .comparison .lt
  | ['>'] => .comparison .gt
  | ['<', '='] => .comparison .le
  | ['>', '='] => .comparison .ge
  | _ => .other

/-- The symbol of a character that stands for itself. -/
def ofChar : Char → Symbol
  | '?' => .mark
  | '(' => .leftParen
  | ')' => .rightParen
  | ',' => .comma
  | '.' => .dot
  | _ => .other

end Symbol

/-- What the characters read last belong to, with those characters, the last one first. -/
inductive Unfinished where
  | nothing
  | run (chars : List Char)
  | signs (chars : List Char)
  /-- A quoted text that is still open. -/
  | quoted (chars : List Char)
deriving DecidableEq, Repr

namespace Unfinished

/-- The characters of names, numbers and words. -/
def isRunChar (c : Char) : Bool := c.isAlphanum || c == '_'

/-- The characters of comparison operators. -/
def isSign (c : Char) : Bool := c == '=' || c == '!' || c == '<' || c == '>' || c == '~'

/-- A character that goes on with nothing: the symbol that it is, and what it begins. -/
def begin (c : Char) : List Symbol × Unfinished :=
  if isRunChar c then ([], .run [c])
  else if isSign c then ([], .signs [c])
  else if c = '\'' then ([], .quoted [])
  else if c = ' ' then ([], .nothing)
  else ([Symbol.ofChar c], .nothing)

/-- The symbol that ends where nothing goes on with it. -/
def finish : Unfinished → List Symbol
  | .nothing => []
  | .run chars => [.ofRun chars.reverse]
  | .signs chars => [.ofSigns chars.reverse]
  | .quoted _ => [.other]

/-- Takes one character: the symbols that end by it, and what is unfinished behind it. -/
def next (u : Unfinished) (c : Char) : List Symbol × Unfinished :=
  match u with
  | .quoted chars =>
    if c = '\'' then ([.quoted (String.ofList chars.reverse)], .nothing)
    else ([], .quoted (c :: chars))
  | .run chars =>
    if isRunChar c then ([], .run (c :: chars))
    else (.ofRun chars.reverse :: (begin c).1, (begin c).2)
  | .signs chars =>
    if isSign c then ([], .signs (c :: chars))
    else (.ofSigns chars.reverse :: (begin c).1, (begin c).2)
  | .nothing => begin c

/-- Takes characters one after the other. -/
def feed (u : Unfinished) : List Char → List Symbol × Unfinished
  | [] => ([], u)
  | c :: rest =>
    let (ended, u) := u.next c
    let (more, u) := feed u rest
    (ended ++ more, u)

/-- What is read first does not depend on what comes behind it. -/
theorem feed_append {u v : Unfinished} {first : List Char} {ended : List Symbol}
    (h : u.feed first = (ended, v)) (second : List Char) :
    u.feed (first ++ second) = (ended ++ (v.feed second).1, (v.feed second).2) := by
  induction first generalizing u ended with
  | nil =>
    simp only [feed, Prod.mk.injEq] at h
    obtain ⟨rfl, rfl⟩ := h
    rfl
  | cons c rest ih =>
    simp only [feed, Prod.mk.injEq] at h
    obtain ⟨rfl, rfl⟩ := h
    simp only [List.cons_append, feed, ih rfl, List.append_assoc]

end Unfinished

/-- The symbols of a text. -/
def symbols (text : String) : List Symbol :=
  let (ended, u) := Unfinished.nothing.feed text.toList
  ended ++ u.finish

/-- Puts data in the place of the `?`, from left to right, and gives the data that are left over.
Fails if there are too few. -/
def bindMarks : List Symbol → List Datum → Option (List Symbol × List Datum)
  | [], data => some ([], data)
  | .mark :: _, [] => none
  | .mark :: rest, d :: data => (bindMarks rest data).map fun r => (.bound d :: r.1, r.2)
  | symbol :: rest, data => (bindMarks rest data).map fun r => (symbol :: r.1, r.2)

theorem bindMarks_append {first second first' second' : List Symbol}
    {data data' left : List Datum} (h₁ : bindMarks first data = some (first', data'))
    (h₂ : bindMarks second data' = some (second', left)) :
    bindMarks (first ++ second) data = some (first' ++ second', left) := by
  induction first generalizing data first' with
  | nil =>
    simp only [bindMarks, Option.some.injEq, Prod.mk.injEq] at h₁
    obtain ⟨rfl, rfl⟩ := h₁
    exact h₂
  | cons symbol rest ih =>
    cases symbol with
    -- only a mark takes one of the data
    | mark =>
      cases data with
      | nil => simp [bindMarks] at h₁
      | cons d data =>
        simp only [bindMarks, Option.map_eq_some_iff, Prod.mk.injEq] at h₁
        obtain ⟨⟨rest', data''⟩, hrest, rfl, rfl⟩ := h₁
        simp [bindMarks, ih hrest]
    | _ =>
      simp only [bindMarks, Option.map_eq_some_iff, Prod.mk.injEq] at h₁
      obtain ⟨⟨rest', data''⟩, hrest, rfl, rfl⟩ := h₁
      simp [bindMarks, ih hrest]

/-! ## Expressions -/

/-- A datum, or a column. -/
inductive Atom where
  | datum (d : Datum)
  /-- A column of a table by its alias; the alias is empty for the table that is searched. -/
  | column (table name : String)
deriving DecidableEq, Repr

/-- What can be compared. -/
inductive Operand where
  | atom (a : Atom)
  | call (function : String) (args : List Atom)
deriving DecidableEq, Repr

/-- A condition as SQL understands it. -/
inductive Expr where
  | compare (op : ComparisonOp) (left right : Operand)
  | like (negated : Bool) (left right : Operand)
  | oneOf (negated : Bool) (left : Operand) (items : List Atom)
  /-- Membership in a column of a table. -/
  | listed (negated : Bool) (left : Operand) (column table : String)
  /-- Membership in a column of those rows of a table that meet a condition. -/
  | listedWhere (negated : Bool) (left : Operand) (column table : String) (condition : Expr)
  | not (e : Expr)
  | and (left right : Expr)
  | or (left right : Expr)
deriving Repr

/-- Reads an atom. -/
def Atom.read : List Symbol → Option (Atom × List Symbol)
  | .bound d :: rest => some (.datum d, rest)
  | .quoted t :: rest => some (.datum (.text t), rest)
  | .number n :: rest => some (.datum (.number (.ofInt n)), rest)
  | .name table :: .dot :: .name name :: rest => some (.column table name, rest)
  | .name name :: rest => some (.column "" name, rest)
  | _ => none

/-- Reads atoms separated by commas, of which at least one is there, up to a closing
parenthesis. -/
def Atom.readSome : (bound : Nat) → List Symbol → Option (List Atom × List Symbol)
  | 0, _ => none
  | bound + 1, symbols =>
    match Atom.read symbols with
    | some (a, .rightParen :: rest) => some ([a], rest)
    | some (a, .comma :: rest) => (readSome bound rest).map fun r => (a :: r.1, r.2)
    | _ => none

/-- Reads atoms up to a closing parenthesis. -/
def Atom.readAll (symbols : List Symbol) : Option (List Atom × List Symbol) :=
  match symbols with
  | .rightParen :: rest => some ([], rest)
  | _ => readSome symbols.length symbols

/-- Reads an operand. -/
def Operand.read : List Symbol → Option (Operand × List Symbol)
  | .name function :: .leftParen :: rest =>
    (Atom.readAll rest).map fun r => (.call function r.1, r.2)
  | symbols => (Atom.read symbols).map fun r => (.atom r.1, r.2)

namespace Expr

mutual

/-- Reads conjunctions joined by `OR`. -/
def disjunction : (bound : Nat) → List Symbol → Option (Expr × List Symbol)
  | 0, _ => none
  | bound + 1, symbols =>
    match conjunction bound symbols with
    | some (left, rest) => moreDisjuncts bound left rest
    | none => none

/-- Goes on with a disjunction that has been `left` so far. -/
def moreDisjuncts : (bound : Nat) → Expr → List Symbol → Option (Expr × List Symbol)
  | 0, _, _ => none
  | bound + 1, left, symbols =>
    match symbols with
    | .word .or :: rest =>
      match conjunction bound rest with
      | some (right, rest) => moreDisjuncts bound (.or left right) rest
      | none => none
    | _ => some (left, symbols)

/-- Reads negations joined by `AND`. -/
def conjunction : (bound : Nat) → List Symbol → Option (Expr × List Symbol)
  | 0, _ => none
  | bound + 1, symbols =>
    match negation bound symbols with
    | some (left, rest) => moreConjuncts bound left rest
    | none => none

/-- Goes on with a conjunction that has been `left` so far. -/
def moreConjuncts : (bound : Nat) → Expr → List Symbol → Option (Expr × List Symbol)
  | 0, _, _ => none
  | bound + 1, left, symbols =>
    match symbols with
    | .word .and :: rest =>
      match negation bound rest with
      | some (right, rest) => moreConjuncts bound (.and left right) rest
      | none => none
    | _ => some (left, symbols)

/-- Reads any number of `NOT` before a condition in parentheses or a predicate. -/
def negation : (bound : Nat) → List Symbol → Option (Expr × List Symbol)
  | 0, _ => none
  | bound + 1, symbols =>
    match symbols with
    | .word .not :: rest => (negation bound rest).map fun r => (.not r.1, r.2)
    | .leftParen :: rest =>
      match disjunction bound rest with
      | some (e, .rightParen :: rest) => some (e, rest)
      | _ => none
    | _ =>
      match Operand.read symbols with
      | some (left, rest) => predicate bound left rest
      | none => none

/-- Reads what a predicate says of its left side. -/
def predicate : (bound : Nat) → Operand → List Symbol → Option (Expr × List Symbol)
  | 0, _, _ => none
  | bound + 1, left, symbols =>
    match symbols with
    | .comparison op :: rest => (Operand.read rest).map fun r => (.compare op left r.1, r.2)
    | .word .like :: rest => (Operand.read rest).map fun r => (.like false left r.1, r.2)
    | .word .not :: .word .like :: rest =>
      (Operand.read rest).map fun r => (.like true left r.1, r.2)
    | .word .inList :: .leftParen :: rest => membership bound false left rest
    | .word .not :: .word .inList :: .leftParen :: rest => membership bound true left rest
    | _ => none

/-- Reads the set behind `IN (`, the closing parenthesis included. -/
def membership : (bound : Nat) → Bool → Operand → List Symbol → Option (Expr × List Symbol)
  | 0, _, _, _ => none
  | bound + 1, negated, left, symbols =>
    match symbols with
    | .word .select :: .name column :: .word .fromTable :: .name table :: .rightParen :: rest =>
      some (.listed negated left column table, rest)
    | .word .select :: .name column :: .word .fromTable :: .name table :: .word .whereRow :: rest =>
      match disjunction bound rest with
      | some (e, .rightParen :: rest) => some (.listedWhere negated left column table e, rest)
      | _ => none
    | _ => (Atom.readAll symbols).map fun r => (.oneOf negated left r.1, r.2)

end

/-- Reads a condition that takes all of the symbols. -/
def read (symbols : List Symbol) : Option Expr :=
  -- at most six of these functions call each other before a symbol is taken
  match disjunction (6 * symbols.length + 6) symbols with
  | some (e, []) => some e
  | _ => none

end Expr

/-- Reads a text with parameters bound to all of its `?`. -/
def readText (text : String) (params : List Param) : Option Expr :=
  match bindMarks (symbols text) (params.map Param.datum) with
  | some (symbols, []) => Expr.read symbols
  | _ => none

end IssueQuery.Sql
