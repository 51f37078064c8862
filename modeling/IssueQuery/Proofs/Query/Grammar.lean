import IssueQuery.Query.Parser

/-!
# The grammar of queries

The grammar as a relation between the tokens that a part of a query takes, all of them and no
others, and what the part stands for. It says nothing of looking ahead or of what follows.

* `Many`, `Opt`   are repetition and option;
* `Expression`    is the grammar of filters, with the tree that each derivation has;
* `Compositional` is what a property of filters has to fulfil so that all derivations have it;
* `Derives`       is the grammar of whole queries.
-/

namespace IssueQuery.Grammar

/-- A part of the grammar: which tokens derive from it, and what they stand for. -/
abbrev Rule (α : Type) := List Token → α → Prop

/-- Any number of items, each behind a separator. -/
inductive Many {α : Type} (separator : TokenKind) (item : Rule α) : Rule (List α)
  | nil : Many separator item [] []
  | cons {t : Token} {ts us : List Token} {a : α} {as : List α} (ht : t.kind = separator)
      (first : item ts a) (more : Many separator item us as) :
      Many separator item (t :: (ts ++ us)) (a :: as)

theorem Many.imp {α : Type} {separator : TokenKind} {item item' : Rule α} {ts : List Token}
    {as : List α} (h : Many separator item ts as) (himp : ∀ us a, item us a → item' us a) :
    Many separator item' ts as := by
  induction h with
  | nil => exact .nil
  | cons ht first more ih => exact .cons ht (himp _ _ first) ih

/-- An item that may be missing. -/
inductive Opt {α : Type} (item : Rule α) : Rule (Option α)
  | missing : Opt item [] none
  | present {ts : List Token} {a : α} (h : item ts a) : Opt item ts (some a)

/-- One or more items with separators between them. -/
inductive Separated {α : Type} (separator : TokenKind) (item : Rule α) : Rule (List α)
  | intro {ts us : List Token} {a : α} {as : List α} (first : item ts a)
      (more : Many separator item us as) : Separated separator item (ts ++ us) (a :: as)

/-! ## Comparisons -/

/-- `value`: a quoted text, a number, a truth value, or a word. -/
inductive IsValue : Rule Value
  | string {t : Token} (ht : t.kind = .string) : IsValue [t] (Parser.stringValue t.literal)
  | number {t : Token} (ht : t.kind = .number) : IsValue [t] (Parser.numberValue t.literal)
  | true {t : Token} (ht : t.kind = .keyword .trueWord) : IsValue [t] (.bool t.literal true)
  | false {t : Token} (ht : t.kind = .keyword .falseWord) : IsValue [t] (.bool t.literal false)
  | word {t : Token} (ht : t.kind = .identifier) : IsValue [t] (Parser.wordValue t.literal)

/-- `'(' value (',' value)* ')'` -/
inductive ValueList : Rule (List Value)
  | intro {open' close : Token} {ts : List Token} {values : List Value}
      (hopen : open'.kind = .leftParen) (hvalues : Separated .comma IsValue ts values)
      (hclose : close.kind = .rightParen) : ValueList (open' :: (ts ++ [close])) values

/-- `IDENT (op value | [NOT] IN '(' value (',' value)* ')')` -/
inductive Comparison : Rule Leaf
  | compare {field operator : Token} {op : ComparisonOp} {ts : List Token} {value : Value}
      (hfield : field.kind = .identifier) (hoperator : operator.kind = .comparison op)
      (hvalue : IsValue ts value) :
      Comparison (field :: operator :: ts) (.compare field.literal op value)
  | oneOf {field inWord : Token} {ts : List Token} {values : List Value}
      (hfield : field.kind = .identifier) (hin : inWord.kind = .keyword .inList)
      (hvalues : ValueList ts values) :
      Comparison (field :: inWord :: ts) (.oneOf field.literal values false)
  | noneOf {field notWord inWord : Token} {ts : List Token} {values : List Value}
      (hfield : field.kind = .identifier) (hnot : notWord.kind = .keyword .not)
      (hin : inWord.kind = .keyword .inList) (hvalues : ValueList ts values) :
      Comparison (field :: notWord :: inWord :: ts) (.oneOf field.literal values true)

/-! ## Expressions -/

mutual

/-- `term (OR term)*`, a tree that goes down on the left. -/
inductive Expression : Rule Filter
  | intro {ts us : List Token} {f : Filter} {more : List Filter} (first : Term ts f)
      (rest : Many (.keyword .or) Term us more) :
      Expression (ts ++ us) (more.foldl (.binary .or) f)

/-- `factor (AND factor)*`, a tree that goes down on the left. -/
inductive Term : Rule Filter
  | intro {ts us : List Token} {f : Filter} {more : List Filter} (first : Factor ts f)
      (rest : Many (.keyword .and) Factor us more) :
      Term (ts ++ us) (more.foldl (.binary .and) f)

/-- `NOT factor | '(' expression ')' | comparison` -/
inductive Factor : Rule Filter
  | not {t : Token} {ts : List Token} {f : Filter} (ht : t.kind = .keyword .not)
      (h : Factor ts f) : Factor (t :: ts) (.not f)
  | parens {open' close : Token} {ts : List Token} {f : Filter} (hopen : open'.kind = .leftParen)
      (h : Expression ts f) (hclose : close.kind = .rightParen) :
      Factor (open' :: (ts ++ [close])) f
  | comparison {ts : List Token} {leaf : Leaf} (h : Comparison ts leaf) : Factor ts (.leaf leaf)

end

/-! ## Induction over derivations -/

/-- Three properties, of expressions, terms and factors, that each production hands on from its parts
to the whole. -/
structure Compositional (E T F : Rule Filter) : Prop where
  expression {ts us : List Token} {f : Filter} {more : List Filter} (first : T ts f)
    (rest : Many (.keyword .or) T us more) : E (ts ++ us) (more.foldl (.binary .or) f)
  term {ts us : List Token} {f : Filter} {more : List Filter} (first : F ts f)
    (rest : Many (.keyword .and) F us more) : T (ts ++ us) (more.foldl (.binary .and) f)
  not {t : Token} {ts : List Token} {f : Filter} (ht : t.kind = .keyword .not) (h : F ts f) :
    F (t :: ts) (.not f)
  parens {open' close : Token} {ts : List Token} {f : Filter} (hopen : open'.kind = .leftParen)
    (h : E ts f) (hclose : close.kind = .rightParen) : F (open' :: (ts ++ [close])) f
  comparison {ts : List Token} {leaf : Leaf} (h : Comparison ts leaf) : F ts (.leaf leaf)

section Compositional

variable {E T F : Rule Filter}

-- Repetition is a relation of its own inside the three, so the induction goes through it as well.
mutual

/-- Every expression has a property that the productions hand on. -/
theorem Compositional.of_expression (h : Compositional E T F) {ts : List Token} {f : Filter} :
    Expression ts f → E ts f
  | .intro first rest => h.expression (h.of_term first) (h.of_terms rest)

theorem Compositional.of_terms (h : Compositional E T F) {ts : List Token} {more : List Filter} :
    Many (.keyword .or) Term ts more → Many (.keyword .or) T ts more
  | .nil => .nil
  | .cons ht first more => .cons ht (h.of_term first) (h.of_terms more)

theorem Compositional.of_term (h : Compositional E T F) {ts : List Token} {f : Filter} :
    Term ts f → T ts f
  | .intro first rest => h.term (h.of_factor first) (h.of_factors rest)

theorem Compositional.of_factors (h : Compositional E T F) {ts : List Token} {more : List Filter} :
    Many (.keyword .and) Factor ts more → Many (.keyword .and) F ts more
  | .nil => .nil
  | .cons ht first more => .cons ht (h.of_factor first) (h.of_factors more)

theorem Compositional.of_factor (h : Compositional E T F) {ts : List Token} {f : Filter} :
    Factor ts f → F ts f
  | .not ht hfactor => h.not ht (h.of_factor hfactor)
  | .parens hopen hexpression hclose => h.parens hopen (h.of_expression hexpression) hclose
  | .comparison hcomparison => h.comparison hcomparison

end

end Compositional

/-- Filters joined to the left have the leaves of the filters, one after the other. -/
theorem leaves_foldl (c : Connective) (more : List Filter) (f : Filter) :
    (more.foldl (.binary c) f).leaves = f.leaves ++ more.flatMap Filter.leaves := by
  induction more generalizing f with
  | nil => simp
  | cons g more ih => simp [ih, Filter.leaves]

/-! ## Clauses -/

/-- `NUMBER | '*'`, where the number has no unit and is from 1 to 10. -/
inductive IsDepth : Rule Depth
  | star {t : Token} (ht : t.kind = .star) : IsDepth [t] .unlimited
  | number {t : Token} (ht : t.kind = .number) (hwhole : isWholeNumber t.literal = true)
      (hleast : 1 ≤ wholeNumberValue t.literal) (hgreatest : wholeNumberValue t.literal ≤ 10) :
      IsDepth [t] (.levels (wholeNumberValue t.literal))

/-- `DEPTH (NUMBER | '*')` -/
inductive DepthClause : Rule Depth
  | intro {t : Token} {ts : List Token} {d : Depth} (ht : t.kind = .keyword .depth)
      (h : IsDepth ts d) : DepthClause (t :: ts) d

/-- `EXPAND IDENT [DEPTH (NUMBER | '*')]`, where the word is one of the words for directions,
whatever its case. One level is meant if no depth is given. -/
inductive Expand : Rule Expansion
  | intro {t word : Token} {ts : List Token} {name : String} {direction : Direction}
      {d : Option Depth} (ht : t.kind = .keyword .expand) (hword : word.kind = .identifier)
      (hname : word.literal.toLower = Text.ofString name)
      (hdirection : (name, direction) ∈ Direction.words) (hdepth : Opt DepthClause ts d) :
      Expand (t :: word :: ts) ⟨direction, d.getD (.levels 1)⟩

/-- `IDENT [ASC | DESC]` -/
inductive IsOrderTerm : Rule OrderTerm
  | plain {field : Token} (hfield : field.kind = .identifier) :
      IsOrderTerm [field] ⟨field.literal, false⟩
  | asc {field word : Token} (hfield : field.kind = .identifier)
      (hword : word.kind = .keyword .asc) : IsOrderTerm [field, word] ⟨field.literal, false⟩
  | desc {field word : Token} (hfield : field.kind = .identifier)
      (hword : word.kind = .keyword .desc) : IsOrderTerm [field, word] ⟨field.literal, true⟩

/-- `ORDER BY IDENT [ASC | DESC] (',' IDENT [ASC | DESC])*` -/
inductive OrderBy : Rule (List OrderTerm)
  | intro {t byWord : Token} {ts : List Token} {terms : List OrderTerm}
      (ht : t.kind = .keyword .order) (hby : byWord.kind = .keyword .byWord)
      (hterms : Separated .comma IsOrderTerm ts terms) : OrderBy (t :: byWord :: ts) terms

/-- `[expression] [expand] [orderBy]` -/
inductive Derives : Rule Query
  | intro {ts us vs : List Token} {f : Option Filter} {e : Option Expansion}
      {terms : Option (List OrderTerm)} (hfilter : Opt Expression ts f) (hexpand : Opt Expand us e)
      (horder : Opt OrderBy vs terms) : Derives (ts ++ (us ++ vs)) ⟨f, e, terms.getD []⟩

end IssueQuery.Grammar
