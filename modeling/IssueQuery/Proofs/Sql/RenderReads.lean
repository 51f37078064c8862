import IssueQuery.Proofs.Sql.Reader
import IssueQuery.Query.Selection

/-!
# The text of a condition reads back

The text of a condition, with its parameters bound to the `?` from left to right, is read as the
expression that was meant. Each kind of condition has a lemma of its own; `Condition.Reads` is what
they have in common, and says so for any text behind the condition.

* `feed_not`, `feed_binary`, … the symbols of a text that is put together from others;
* `reads_not`, `reads_binary` the connectives, where parentheses have to be in place;
* `readText_of_reads`         the reading of a whole text.
-/

namespace IssueQuery.Sql

/-- The text of a condition with its parameters reads as an expression, and whatever stands behind
it is left. -/
def Condition.Reads (c : Condition) (e : Expr) : Prop :=
  ∃ raw bound : List Symbol,
    Unfinished.nothing.feed c.render.toList = (raw, .nothing) ∧
    (∀ left, bindMarks raw (c.params.map Param.datum ++ left) = some (bound, left)) ∧
    ∀ n rest, 6 * bound.length ≤ n → Expr.negation n (bound ++ rest) = some (e, rest)

/-! ## Columns -/

/-- The symbols of the expression that holds a field. -/
def columnSymbols (field : Field) : List Symbol :=
  let plain (name : String) : List Symbol := [.name "i", .dot, .name name]
  let orElse (name : String) (instead : Symbol) : List Symbol :=
    [.name "COALESCE", .leftParen] ++ plain name ++ [.comma, instead, .rightParen]
  match field with
  | .type => plain "issue_type"
  | .status => plain "status"
  | .priority => plain "priority"
  | .title => plain "title"
  | .description => plain "description"
  | .id => plain "id"
  | .created => plain "created_at"
  | .updated => plain "updated_at"
  | .pinned => orElse "pinned" (.number 0)
  | .assignee => orElse "assignee" (.quoted "")
  | .blocked | .ready | .label | .labels => []

/-- The operand that the expression of a field is read as. -/
def columnOperand (field : Field) : Operand :=
  let plain (name : String) : Operand := .atom (.column "i" name)
  match field with
  | .type => plain "issue_type"
  | .status => plain "status"
  | .priority => plain "priority"
  | .title => plain "title"
  | .description => plain "description"
  | .id => plain "id"
  | .created => plain "created_at"
  | .updated => plain "updated_at"
  | .pinned => .call "COALESCE" [.column "i" "pinned", .datum (.number (.ofInt 0))]
  | .assignee => .call "COALESCE" [.column "i" "assignee", .datum (.text "")]
  | .blocked | .ready | .label | .labels => .atom (.datum .null)

theorem read_columnSymbols {field : Field} (hfield : field.isPseudo = false)
    (rest : List Symbol) :
    Operand.read (columnSymbols field ++ rest) = some (columnOperand field, rest) := by
  cases field with
  | blocked | ready | label | labels => exact absurd hfield (by decide)
  | _ => rfl

theorem feed_column {field : Field} (hfield : field.isPseudo = false) :
    Unfinished.nothing.feed (field.column.toList ++ [' ']) = (columnSymbols field, .nothing) := by
  cases field with
  | blocked | ready | label | labels => exact absurd hfield (by decide)
  | _ => rfl

/-- No symbol of a column is a `?`. -/
theorem bindMarks_columnSymbols (field : Field) (data : List Datum) :
    bindMarks (columnSymbols field) data = some (columnSymbols field, data) := by
  cases field <;> rfl

/-! ## Reading predicates -/

/-- What begins with an operand is a predicate. -/
theorem negation_of_operand {symbols rest : List Symbol} {left : Operand}
    (h : Operand.read symbols = some (left, rest)) (n : Nat) :
    Expr.negation (n + 1) symbols = Expr.predicate n left rest := by
  cases symbols with
  | nil => simp [Operand.read, Atom.read] at h
  | cons s tail =>
    cases s with
    | word w => cases w <;> simp [Operand.read, Atom.read] at h
    | leftParen => simp [Operand.read, Atom.read] at h
    | _ => simp only [Expr.negation, h]

/-! ## Lists of values -/

/-- The symbols of a list of `?`. -/
def markSymbols (count : Nat) : List Symbol := (List.replicate count .mark).intersperse .comma

/-- The symbols of a list of `?` that have values. -/
def boundSymbols (data : List Datum) : List Symbol := (data.map .bound).intersperse .comma

theorem feed_placeholders (count : Nat) :
    Unfinished.nothing.feed (placeholders count).toList = (markSymbols count, .nothing) := by
  rw [placeholders, String.toList_intercalate, List.map_replicate]
  -- induction on the count; the first mark has no comma before it, so two cases are split off
  induction count with
  | zero => rfl
  | succ n ih =>
    cases n with
    | zero => rfl
    | succ m =>
      have hstep : ", ".toList.intercalate (List.replicate (m + 1 + 1) "?".toList) =
          ['?', ',', ' '] ++ ", ".toList.intercalate (List.replicate (m + 1) "?".toList) := rfl
      have hfirst : Unfinished.nothing.feed ['?', ',', ' '] = ([.mark, .comma], .nothing) := rfl
      rw [hstep, Unfinished.feed_append hfirst, ih]
      rfl

theorem bindMarks_markSymbols (data left : List Datum) :
    bindMarks (markSymbols data.length) (data ++ left) = some (boundSymbols data, left) := by
  induction data with
  | nil => rfl
  | cons d rest ih =>
    cases rest with
    | nil => rfl
    | cons d' rest =>
      have hmarks : markSymbols (d :: d' :: rest).length =
          .mark :: .comma :: markSymbols (d' :: rest).length := rfl
      have hbound : boundSymbols (d :: d' :: rest) =
          .bound d :: .comma :: boundSymbols (d' :: rest) := rfl
      rw [hmarks, hbound]
      simp only [List.cons_append, bindMarks]
      rw [← List.cons_append, ih]
      rfl

theorem readSome_boundSymbols (d : Datum) (data : List Datum) (rest : List Symbol) (n : Nat)
    (hn : data.length < n) :
    Atom.readSome n (boundSymbols (d :: data) ++ .rightParen :: rest) =
      some ((d :: data).map .datum, rest) := by
  -- induction on the values behind the first one; each takes a step of the bound
  induction data generalizing d n with
  | nil =>
    obtain ⟨m, rfl⟩ : ∃ m, n = m + 1 := ⟨n - 1, by simp at hn; omega⟩
    rfl
  | cons d' data ih =>
    simp only [List.length_cons] at hn
    obtain ⟨m, rfl⟩ : ∃ m, n = m + 1 := ⟨n - 1, by omega⟩
    have hbound : boundSymbols (d :: d' :: data) =
        .bound d :: .comma :: boundSymbols (d' :: data) := rfl
    rw [hbound]
    simp only [List.cons_append, Atom.readSome, Atom.read]
    rw [ih d' m (by omega)]
    rfl

theorem readAll_boundSymbols (data : List Datum) (rest : List Symbol) :
    Atom.readAll (boundSymbols data ++ .rightParen :: rest) = some (data.map .datum, rest) := by
  cases data with
  | nil => rfl
  | cons d data =>
    have hlength : data.length < (boundSymbols (d :: data) ++ .rightParen :: rest).length := by
      rw [List.length_append, boundSymbols, List.length_intersperse]
      simp
      omega
    have hread := readSome_boundSymbols d data rest _ hlength
    cases data with
    | nil => exact hread
    | cons d' data => exact hread

/-! ## Leaves -/

/-- The symbol of `NOT`, if there is one. -/
def notSymbol (negated : Bool) : List Symbol := if negated then [.word .not] else []

/-- A condition that begins with an operand reads as what its predicate does. -/
theorem reads_of_predicate {c : Condition} {e : Expr} (left : Operand)
    (operand raw bound : List Symbol)
    (hfeed : Unfinished.nothing.feed c.render.toList = (operand ++ raw, .nothing))
    (hoperand : ∀ data, bindMarks operand data = some (operand, data))
    (hbind : ∀ data, bindMarks raw (c.params.map Param.datum ++ data) = some (bound, data))
    (hread : ∀ rest, Operand.read (operand ++ rest) = some (left, rest))
    (hpredicate : ∀ n rest, 6 * bound.length ≤ n →
      Expr.predicate n left (bound ++ rest) = some (e, rest)) :
    c.Reads e := by
  refine ⟨_, operand ++ bound, hfeed, fun data => bindMarks_append (hoperand _) (hbind data), ?_⟩
  intro n rest hn
  -- the operand takes at least one symbol, which pays for one step of the bound
  have hne : operand ≠ [] := by
    rintro rfl
    have h := hread [.word .and]
    simp [Operand.read, Atom.read] at h
  have hpos := List.length_pos_iff.mpr hne
  rw [List.length_append] at hn
  obtain ⟨m, rfl⟩ : ∃ m, n = m + 1 := ⟨n - 1, by omega⟩
  rw [List.append_assoc, negation_of_operand (hread _)]
  exact hpredicate m rest (by omega)

/-- Whether SQL has the operator; the operators of patterns are no operators of SQL. -/
def isSqlOperator : ComparisonOp → Bool
  | .contains | .notContains => false
  | _ => true

theorem feed_operator {op : ComparisonOp} (hop : isSqlOperator op = true) :
    Unfinished.nothing.feed (op.symbol.toList ++ [' ']) = ([.comparison op], .nothing) := by
  cases op with
  | contains | notContains => exact absurd hop (by decide)
  | _ => rfl

theorem feed_compare {field : Field} (hfield : field.isPseudo = false) {op : ComparisonOp}
    (hop : isSqlOperator op = true) (p : Param) :
    Unfinished.nothing.feed (Condition.compare field.column op p).render.toList =
      (columnSymbols field ++ [.comparison op, .mark], .nothing) := by
  have htext : (Condition.compare field.column op p).render.toList =
      (field.column.toList ++ [' ']) ++ ((op.symbol.toList ++ [' ']) ++ ['?']) := by
    simp [Condition.render]
  rw [htext, Unfinished.feed_append (feed_column hfield),
    Unfinished.feed_append (feed_operator hop)]
  rfl

theorem reads_compare {field : Field} (hfield : field.isPseudo = false) {op : ComparisonOp}
    (hop : isSqlOperator op = true) (p : Param) :
    (Condition.compare field.column op p).Reads
      (.compare op (columnOperand field) (.atom (.datum p.datum))) := by
  apply reads_of_predicate (columnOperand field) (columnSymbols field) [.comparison op, .mark]
    [.comparison op, .bound p.datum]
  · exact feed_compare hfield hop p
  · -- the parameters take the place of the marks
    exact bindMarks_columnSymbols field
  · exact fun _ => rfl
  · -- the symbols read as the predicate
    exact read_columnSymbols hfield
  · intro n rest hn
    obtain ⟨m, rfl⟩ : ∃ m, n = m + 1 := ⟨n - 1, by simp at hn; omega⟩
    rfl

theorem feed_like {field : Field} (hfield : field.isPseudo = false) (negated : Bool) (p : Param) :
    Unfinished.nothing.feed (Condition.like field.column negated p).render.toList =
      (columnSymbols field ++ (notSymbol negated ++ [.word .like, .mark]), .nothing) := by
  have htext : (Condition.like field.column negated p).render.toList =
      (field.column.toList ++ [' ']) ++ (if negated then "NOT LIKE ?" else "LIKE ?").toList := by
    cases negated <;> simp [Condition.render]
  rw [htext, Unfinished.feed_append (feed_column hfield)]
  cases negated <;> rfl

theorem reads_like {field : Field} (hfield : field.isPseudo = false) (negated : Bool) (p : Param) :
    (Condition.like field.column negated p).Reads
      (.like negated (columnOperand field) (.atom (.datum p.datum))) := by
  apply reads_of_predicate (columnOperand field) (columnSymbols field)
    (notSymbol negated ++ [.word .like, .mark]) (notSymbol negated ++ [.word .like, .bound p.datum])
  · exact feed_like hfield negated p
  · exact bindMarks_columnSymbols field
  · exact fun _ => by cases negated <;> rfl
  · exact read_columnSymbols hfield
  · intro n rest hn
    obtain ⟨m, rfl⟩ : ∃ m, n = m + 1 := ⟨n - 1, by simp at hn; omega⟩
    cases negated <;> rfl

/-- The operand that a moment is read as. -/
def Moment.operand : Moment → Operand
  | .dayFromNow p => .call "date" [.datum (.text "now"), .datum p.datum]
  | .timeFromNow p => .call "datetime" [.datum (.text "now"), .datum p.datum]
  | .at p => .atom (.datum p.datum)

/-- The symbols of a moment, given the symbol of its parameter. -/
def momentSymbols (moment : Moment) (parameter : Symbol) : List Symbol :=
  let call (name : String) : List Symbol :=
    [.name name, .leftParen, .quoted "now", .comma, parameter, .rightParen]
  match moment with
  | .dayFromNow _ => call "date"
  | .timeFromNow _ => call "datetime"
  | .at _ => [parameter]

theorem feed_moment (moment : Moment) :
    Unfinished.nothing.feed moment.render.toList = (momentSymbols moment .mark, .nothing) := by
  cases moment <;> simp only [Moment.render] <;> rfl

theorem bindMarks_moment (moment : Moment) (data : List Datum) :
    bindMarks (momentSymbols moment .mark) (moment.param.datum :: data) =
      some (momentSymbols moment (.bound moment.param.datum), data) := by
  cases moment <;> rfl

theorem read_moment (moment : Moment) (rest : List Symbol) :
    Operand.read (momentSymbols moment (.bound moment.param.datum) ++ rest) =
      some (moment.operand, rest) := by
  cases moment <;> rfl

theorem feed_compareTime {field : Field} (hfield : field.isPseudo = false) {op : ComparisonOp}
    (hop : isSqlOperator op = true) (moment : Moment) :
    Unfinished.nothing.feed (Condition.compareTime field.column op moment).render.toList =
      ([.name "datetime", .leftParen] ++ columnSymbols field ++ [.rightParen] ++
        .comparison op :: momentSymbols moment .mark, .nothing) := by
  -- the column stands inside of a call
  have htext : (Condition.compareTime field.column op moment).render.toList =
      ("datetime(".toList ++ field.column.toList ++ [')', ' ']) ++
        ((op.symbol.toList ++ [' ']) ++ moment.render.toList) := by
    simp [Condition.render]
  have hcolumn : Unfinished.nothing.feed ("datetime(".toList ++ field.column.toList ++ [')', ' '])
      = ([.name "datetime", .leftParen] ++ columnSymbols field ++ [.rightParen], .nothing) := by
    cases field with
    | blocked | ready | label | labels => exact absurd hfield (by decide)
    | _ => rfl
  rw [htext, Unfinished.feed_append hcolumn, Unfinished.feed_append (feed_operator hop),
    feed_moment]
  rfl

theorem reads_compareTime {field : Field} (hfield : field.kind = .date) {op : ComparisonOp}
    (hop : isSqlOperator op = true) (moment : Moment) :
    (Condition.compareTime field.column op moment).Reads
      (.compare op
        (.call "datetime" [.column "i" (if field = .created then "created_at" else "updated_at")])
        moment.operand) := by
  have hpseudo : field.isPseudo = false := by
    cases field with
    | created | updated => rfl
    | _ => exact absurd hfield (by decide)
  apply reads_of_predicate
    (.call "datetime" [.column "i" (if field = .created then "created_at" else "updated_at")])
    ([.name "datetime", .leftParen] ++ columnSymbols field ++ [.rightParen])
    (.comparison op :: momentSymbols moment .mark)
    (.comparison op :: momentSymbols moment (.bound moment.param.datum))
  · exact feed_compareTime hpseudo hop moment
  · -- the column has no mark, the moment has one
    intro data
    cases field <;> rfl
  · intro data
    have hmoment := bindMarks_moment moment data
    simp only [Condition.params, List.map_cons, List.map_nil, List.cons_append, List.nil_append,
      bindMarks, hmoment, Option.map_some]
  · intro rest
    cases field with
    | created | updated => rfl
    | _ => exact absurd hfield (by decide)
  · intro n rest hn
    obtain ⟨m, rfl⟩ : ∃ m, n = m + 1 := ⟨n - 1, by simp at hn; omega⟩
    simp only [List.cons_append, Expr.predicate, read_moment, Option.map_some]

/-- The symbols of `IN (` or `NOT IN (`. -/
def inSymbols (negated : Bool) : List Symbol := notSymbol negated ++ [.word .inList, .leftParen]

theorem feed_membership (negated : Bool) :
    Unfinished.nothing.feed ((membership negated).toList ++ [' ', '(']) =
      (inSymbols negated, .nothing) := by
  cases negated <;> rfl

/-- Reading `IN (` or `NOT IN (` leads to the set behind it. -/
theorem predicate_inSymbols (n : Nat) (negated : Bool) (left : Operand) (rest : List Symbol) :
    Expr.predicate (n + 1) left (inSymbols negated ++ rest) =
      Expr.membership n negated left rest := by
  cases negated <;> rfl

/-- What does not begin with a query is a list. -/
theorem membership_boundSymbols (n : Nat) (negated : Bool) (left : Operand) (data : List Datum)
    (rest : List Symbol) :
    Expr.membership (n + 1) negated left (boundSymbols data ++ .rightParen :: rest) =
      some (.oneOf negated left (data.map .datum), rest) := by
  have hread := readAll_boundSymbols data rest
  -- a list of one value, or of none, begins differently
  cases data with
  | nil => rfl
  | cons d data =>
    cases data with
    | nil => rfl
    | cons d' data =>
      have hbound : boundSymbols (d :: d' :: data) =
          .bound d :: .comma :: boundSymbols (d' :: data) := rfl
      rw [hbound] at hread ⊢
      simp only [List.cons_append, Expr.membership] at hread ⊢
      rw [hread]
      rfl

theorem feed_oneOf {field : Field} (hfield : field.isPseudo = false) (negated : Bool)
    (ps : List Param) :
    Unfinished.nothing.feed (Condition.oneOf field.column negated ps).render.toList =
      (columnSymbols field ++ (inSymbols negated ++ (markSymbols ps.length ++ [.rightParen])),
        .nothing) := by
  have htext : (Condition.oneOf field.column negated ps).render.toList =
      (field.column.toList ++ [' ']) ++ (((membership negated).toList ++ [' ', '(']) ++
        ((placeholders ps.length).toList ++ [')'])) := by
    simp [Condition.render]
  rw [htext, Unfinished.feed_append (feed_column hfield),
    Unfinished.feed_append (feed_membership negated),
    Unfinished.feed_append (feed_placeholders ps.length)]
  rfl

theorem reads_oneOf {field : Field} (hfield : field.isPseudo = false) (negated : Bool)
    (ps : List Param) :
    (Condition.oneOf field.column negated ps).Reads
      (.oneOf negated (columnOperand field) ((ps.map Param.datum).map .datum)) := by
  apply reads_of_predicate (columnOperand field) (columnSymbols field)
    (inSymbols negated ++ (markSymbols ps.length ++ [.rightParen]))
    (inSymbols negated ++ (boundSymbols (ps.map Param.datum) ++ [.rightParen]))
  · exact feed_oneOf hfield negated ps
  · exact bindMarks_columnSymbols field
  · -- as many marks as there are values
    intro data
    have hin : bindMarks (inSymbols negated) (ps.map Param.datum ++ data) =
        some (inSymbols negated, ps.map Param.datum ++ data) := by cases negated <;> rfl
    have hmarks := bindMarks_markSymbols (ps.map Param.datum) data
    rw [List.length_map] at hmarks
    exact bindMarks_append hin (bindMarks_append hmarks rfl)
  · exact read_columnSymbols hfield
  · -- no value is the word `SELECT`, so the set is read as a list
    intro n rest hn
    obtain ⟨m, rfl⟩ : ∃ m, n = m + 2 := ⟨n - 2, by simp at hn; omega⟩
    rw [List.append_assoc, predicate_inSymbols, List.append_assoc]
    exact membership_boundSymbols m negated _ _ rest

/-! ## Labels and sets -/

/-- The operand for the identifier of the issue. -/
def idOperand : Operand := .atom (.column "i" "id")

/-- The column and the table of a set. -/
def IssueSet.source : IssueSet → String × String
  | .blocked => ("issue_id", "blocked_issues_cache")
  | .ready => ("id", "ready_issues")

/-- The symbols of the identifier of the issue. -/
def idSymbols : List Symbol := [.name "i", .dot, .name "id"]

theorem feed_id : Unfinished.nothing.feed "i.id ".toList = (idSymbols, .nothing) := rfl

/-- The symbols of the query for a set. -/
def IssueSet.symbols (set : IssueSet) : List Symbol :=
  [.word .select, .name set.source.1, .word .fromTable, .name set.source.2]

theorem feed_member (negated : Bool) (set : IssueSet) :
    Unfinished.nothing.feed (Condition.member negated set).render.toList =
      (idSymbols ++ (inSymbols negated ++ (set.symbols ++ [.rightParen])), .nothing) := by
  have htext : (Condition.member negated set).render.toList =
      "i.id ".toList ++ (((membership negated).toList ++ [' ', '(']) ++
        (set.render.toList ++ [')'])) := by
    simp [Condition.render]
  rw [htext, Unfinished.feed_append feed_id, Unfinished.feed_append (feed_membership negated)]
  cases set <;> rfl

theorem reads_member (negated : Bool) (set : IssueSet) :
    (Condition.member negated set).Reads
      (.listed negated idOperand set.source.1 set.source.2) := by
  apply reads_of_predicate idOperand idSymbols
    (inSymbols negated ++ (set.symbols ++ [.rightParen]))
    (inSymbols negated ++ (set.symbols ++ [.rightParen]))
  · exact feed_member negated set
  · exact fun _ => rfl
  · exact fun _ => by cases negated <;> rfl
  · exact fun _ => rfl
  · intro n rest hn
    obtain ⟨m, rfl⟩ : ∃ m, n = m + 2 := ⟨n - 2, by simp at hn; omega⟩
    rw [List.append_assoc, predicate_inSymbols]
    rfl

/-- The operand for the label that is tested. -/
def labelOperand : Operand := .atom (.column "" "label")

namespace LabelTest

/-- The symbols of the test before its parameters are bound. -/
def rawSymbols : LabelTest → List Symbol
  | .eq _ => [.comparison .eq, .mark]
  | .like _ => [.word .like, .mark]
  | .oneOf ps => inSymbols false ++ (markSymbols ps.length ++ [.rightParen])

/-- The symbols of the test with its parameters. -/
def symbols : LabelTest → List Symbol
  | .eq p => [.comparison .eq, .bound p.datum]
  | .like p => [.word .like, .bound p.datum]
  | .oneOf ps => inSymbols false ++ (boundSymbols (ps.map Param.datum) ++ [.rightParen])

/-- What the test is read as. -/
def expr : LabelTest → Expr
  | .eq p => .compare .eq labelOperand (.atom (.datum p.datum))
  | .like p => .like false labelOperand (.atom (.datum p.datum))
  | .oneOf ps => .oneOf false labelOperand ((ps.map Param.datum).map .datum)

theorem feed_render (test : LabelTest) :
    Unfinished.nothing.feed test.render.toList = (test.rawSymbols, .nothing) := by
  cases test with
  | eq p | like p => simp only [LabelTest.render]; rfl
  | oneOf ps =>
    have htext : (LabelTest.oneOf ps).render.toList =
        ['I', 'N', ' ', '('] ++ ((placeholders ps.length).toList ++ [')']) := by
      simp [LabelTest.render]
    have hin : Unfinished.nothing.feed ['I', 'N', ' ', '('] = (inSymbols false, .nothing) := rfl
    rw [htext, Unfinished.feed_append hin, Unfinished.feed_append (feed_placeholders ps.length)]
    rfl

theorem bindMarks_rawSymbols (test : LabelTest) (data : List Datum) :
    bindMarks test.rawSymbols (test.params.map Param.datum ++ data) =
      some (test.symbols, data) := by
  cases test with
  | eq p | like p => rfl
  | oneOf ps =>
    have hin : bindMarks (inSymbols false) (ps.map Param.datum ++ data) =
        some (inSymbols false, ps.map Param.datum ++ data) := rfl
    have hmarks := bindMarks_markSymbols (ps.map Param.datum) data
    rw [List.length_map] at hmarks
    exact bindMarks_append hin (bindMarks_append hmarks rfl)

theorem predicate_symbols (test : LabelTest) (n : Nat) (rest : List Symbol) :
    Expr.predicate (n + 2) labelOperand (test.symbols ++ rest) = some (test.expr, rest) := by
  cases test with
  | eq p | like p => rfl
  | oneOf ps =>
    rw [symbols, List.append_assoc, predicate_inSymbols, List.append_assoc]
    exact membership_boundSymbols n false _ _ rest

end LabelTest

/-! ## Connectives -/

/-- A negation that no connective follows is a disjunction by itself. -/
theorem disjunction_of_negation {n : Nat} {symbols rest : List Symbol} {e : Expr}
    (h : Expr.negation (n + 1) symbols = some (e, .rightParen :: rest)) :
    Expr.disjunction (n + 3) symbols = some (e, .rightParen :: rest) := by
  simp only [Expr.disjunction, Expr.conjunction, h, Expr.moreConjuncts, Expr.moreDisjuncts]

/-- The symbols of the search for issues by label, as far as the test. -/
def searchSymbols : List Symbol :=
  [.word .select, .name "issue_id", .word .fromTable, .name "labels", .word .whereRow,
    .name "label"]

theorem feed_labelled (negated : Bool) (test : LabelTest) :
    Unfinished.nothing.feed (Condition.labelled negated test).render.toList =
      (idSymbols ++ (inSymbols negated ++ (searchSymbols ++ (test.rawSymbols ++ [.rightParen]))),
        .nothing) := by
  have htext : (Condition.labelled negated test).render.toList =
      "i.id ".toList ++ (((membership negated).toList ++ [' ', '(']) ++
        ("SELECT issue_id FROM labels WHERE label ".toList ++
          (test.render.toList ++ [')']))) := by
    simp [Condition.render]
  have hsearch : Unfinished.nothing.feed "SELECT issue_id FROM labels WHERE label ".toList =
      (searchSymbols, .nothing) := rfl
  rw [htext, Unfinished.feed_append feed_id, Unfinished.feed_append (feed_membership negated),
    Unfinished.feed_append hsearch, Unfinished.feed_append test.feed_render]
  rfl

theorem reads_labelled (negated : Bool) (test : LabelTest) :
    (Condition.labelled negated test).Reads
      (.listedWhere negated idOperand "issue_id" "labels" test.expr) := by
  apply reads_of_predicate idOperand idSymbols
    (inSymbols negated ++ (searchSymbols ++ (test.rawSymbols ++ [.rightParen])))
    (inSymbols negated ++ (searchSymbols ++ (test.symbols ++ [.rightParen])))
  · exact feed_labelled negated test
  · exact fun _ => rfl
  · intro data
    have hin (data : List Datum) : bindMarks (inSymbols negated) data =
        some (inSymbols negated, data) := by cases negated <;> rfl
    exact bindMarks_append (hin _)
      (bindMarks_append rfl (bindMarks_append (test.bindMarks_rawSymbols data) rfl))
  · exact fun _ => rfl
  · intro n rest hn
    obtain ⟨m, rfl⟩ : ∃ m, n = m + 8 := ⟨n - 8, by simp [searchSymbols] at hn; omega⟩
    -- the test stands behind `WHERE`, and the closing parenthesis ends it
    have htest : Expr.disjunction (m + 6) (.name "label" :: (test.symbols ++ .rightParen :: rest)) =
        some (test.expr, .rightParen :: rest) := by
      apply disjunction_of_negation
      have hlabel : Operand.read (.name "label" :: (test.symbols ++ .rightParen :: rest)) =
          some (labelOperand, test.symbols ++ .rightParen :: rest) := by
        cases test <;> rfl
      rw [negation_of_operand hlabel]
      exact test.predicate_symbols _ _
    have hsplit : inSymbols negated ++ (searchSymbols ++ (test.symbols ++ [.rightParen])) ++ rest =
        inSymbols negated ++ ([.word .select, .name "issue_id", .word .fromTable, .name "labels",
          .word .whereRow] ++ .name "label" :: (test.symbols ++ .rightParen :: rest)) := by
      simp [searchSymbols]
    rw [hsplit, predicate_inSymbols]
    simp only [List.cons_append, List.nil_append, Expr.membership, htest]

theorem feed_not {c : Condition} {raw : List Symbol}
    (h : Unfinished.nothing.feed c.render.toList = (raw, .nothing)) :
    Unfinished.nothing.feed (Condition.not c).render.toList =
      ([.word .not, .leftParen] ++ (raw ++ [.rightParen]), .nothing) := by
  have htext : (Condition.not c).render.toList =
      "NOT (".toList ++ (c.render.toList ++ [')']) := by
    simp [Condition.render]
  have hnot : Unfinished.nothing.feed "NOT (".toList = ([.word .not, .leftParen], .nothing) := rfl
  rw [htext, Unfinished.feed_append hnot, Unfinished.feed_append h]
  rfl

theorem reads_not {c : Condition} {e : Expr} (h : c.Reads e) : (Condition.not c).Reads (.not e) := by
  obtain ⟨raw, bound, hfeed, hbind, hread⟩ := h
  refine ⟨[.word .not, .leftParen] ++ (raw ++ [.rightParen]),
    [.word .not, .leftParen] ++ (bound ++ [.rightParen]), feed_not hfeed, ?_, ?_⟩
  · intro data
    exact bindMarks_append rfl (bindMarks_append (hbind data) rfl)
  · -- what is in parentheses reads as a whole
    intro n rest hn
    simp only [List.cons_append, List.nil_append, List.length_cons, List.length_append,
      List.length_nil] at hn
    obtain ⟨m, rfl⟩ : ∃ m, n = m + 5 := ⟨n - 5, by omega⟩
    have hinner := hread (m + 1) (.rightParen :: rest) (by omega)
    simp only [List.cons_append, List.nil_append, List.append_assoc, Expr.negation,
      disjunction_of_negation hinner, Option.map_some]

/-- The expression for two conditions and what joins them. -/
def Expr.join : Connective → Expr → Expr → Expr
  | .and => .and
  | .or => .or

/-- The symbol of a connective. -/
def connectiveSymbol : Connective → Symbol
  | .and => .word .and
  | .or => .word .or

theorem feed_binary (connective : Connective) {l r : Condition} {rawL rawR : List Symbol}
    (hl : Unfinished.nothing.feed l.render.toList = (rawL, .nothing))
    (hr : Unfinished.nothing.feed r.render.toList = (rawR, .nothing)) :
    Unfinished.nothing.feed (Condition.binary connective l r).render.toList =
      ([.leftParen] ++ (rawL ++ ([connectiveSymbol connective] ++ (rawR ++ [.rightParen]))),
        .nothing) := by
  have htext : (Condition.binary connective l r).render.toList =
      ['('] ++ (l.render.toList ++ (([' '] ++ connective.word.toList ++ [' ']) ++
        (r.render.toList ++ [')']))) := by
    simp [Condition.render]
  have hopen : Unfinished.nothing.feed ['('] = ([.leftParen], .nothing) := rfl
  have hword : Unfinished.nothing.feed ([' '] ++ connective.word.toList ++ [' ']) =
      ([connectiveSymbol connective], .nothing) := by cases connective <;> rfl
  rw [htext, Unfinished.feed_append hopen, Unfinished.feed_append hl,
    Unfinished.feed_append hword, Unfinished.feed_append hr]
  rfl

theorem reads_binary (connective : Connective) {l r : Condition} {a b : Expr} (hl : l.Reads a)
    (hr : r.Reads b) : (Condition.binary connective l r).Reads (.join connective a b) := by
  obtain ⟨rawL, boundL, hfeedL, hbindL, hreadL⟩ := hl
  obtain ⟨rawR, boundR, hfeedR, hbindR, hreadR⟩ := hr
  refine ⟨[.leftParen] ++ (rawL ++ ([connectiveSymbol connective] ++ (rawR ++ [.rightParen]))),
    [.leftParen] ++ (boundL ++ ([connectiveSymbol connective] ++ (boundR ++ [.rightParen]))),
    feed_binary connective hfeedL hfeedR, ?_, ?_⟩
  · -- the parameters of the left side come first
    intro data
    have hword (data : List Datum) : bindMarks [connectiveSymbol connective] data =
        some ([connectiveSymbol connective], data) := by cases connective <;> rfl
    simp only [Condition.params, List.map_append, List.append_assoc]
    exact bindMarks_append rfl (bindMarks_append (hbindL _)
      (bindMarks_append (hword _) (bindMarks_append (hbindR data) rfl)))
  · -- the connective ends the left side and the parenthesis the right one
    intro n rest hn
    simp only [List.cons_append, List.nil_append, List.length_cons, List.length_append,
      List.length_nil] at hn
    obtain ⟨m, rfl⟩ : ∃ m, n = m + 6 := ⟨n - 6, by omega⟩
    have hb := hreadR (m + 2) (.rightParen :: rest) (by omega)
    have hinner : Expr.disjunction (m + 5)
        (boundL ++ connectiveSymbol connective :: (boundR ++ .rightParen :: rest)) =
        some (.join connective a b, .rightParen :: rest) := by
      have ha := hreadL (m + 3) (connectiveSymbol connective :: (boundR ++ .rightParen :: rest))
        (by omega)
      simp only [Expr.disjunction, Expr.conjunction, ha]
      cases connective with
      | and => simp only [connectiveSymbol, Expr.moreConjuncts, hb, Expr.moreDisjuncts, Expr.join]
      | or =>
        simp only [connectiveSymbol, Expr.moreConjuncts, Expr.moreDisjuncts, Expr.conjunction, hb,
          Expr.join]
    simp only [List.cons_append, List.nil_append, List.append_assoc]
    rw [Expr.negation, hinner]

/-- The text of a condition, with its parameters, is read as the condition's expression. -/
theorem readText_of_reads {c : Condition} {e : Expr} (h : c.Reads e) :
    readText c.render c.params = some e := by
  obtain ⟨raw, bound, hfeed, hbind, hread⟩ := h
  have hsymbols : symbols c.render = raw := by simp [symbols, hfeed, Unfinished.finish]
  have hbound : bindMarks raw (c.params.map Param.datum) = some (bound, []) := by
    simpa using hbind []
  have hall : Expr.negation (6 * bound.length + 4) bound = some (e, []) := by
    simpa using hread (6 * bound.length + 4) [] (by omega)
  rw [readText, hsymbols, hbound]
  simp only [Expr.read, Expr.disjunction, Expr.conjunction, hall, Expr.moreConjuncts,
    Expr.moreDisjuncts]

end IssueQuery.Sql
