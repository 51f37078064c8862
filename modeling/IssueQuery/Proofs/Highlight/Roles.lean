import IssueQuery.Proofs.Highlight.Extents
import IssueQuery.Proofs.Query.Parameters
import IssueQuery.Proofs.Query.ParserCorrect

/-!
# The colours of a query that parses

The grammar takes each identifier of a query for something: the field of a comparison, a value, the
direction of an expansion, or a field to order by. What is kept while a line is coloured knows
nothing of the grammar, and still gives each identifier the colour of what it is taken for.

* `Role`, `Reading`         tokens with what they are taken for;
* `Reads`                   the readings of a query;
* `Named`                   the names that a reading has are those of the query;
* `Coloured`                what colours do from one state of the line to another;
* `Query.parse_highlight`   the colours of all the identifiers of a query.
-/

namespace IssueQuery

/-- The field of a leaf, as written. -/
def Leaf.field : Leaf → Text
  | .compare field _ _ => field
  | .oneOf field _ _ => field

namespace Grammar

/-! ## What tokens are taken for -/

/-- What a token is taken for. -/
inductive Role where
  | field
  | value
  | direction
  | orderField
  /-- No name and no value: keywords, operators, parentheses, commas, and the depth. -/
  | sign
deriving DecidableEq

/-- Tokens with what they are taken for. -/
abbrev Reading := List (Token × Role)

/-- The tokens that are taken for one thing. -/
def takenAs (role : Role) (r : Reading) : List Token := (r.filter (·.2 = role)).map Prod.fst

/-- Any number of items, each behind a comma. -/
inductive ReadMore {α : Type} (item : Reading → α → Prop) : Reading → List α → Prop
  | nil : ReadMore item [] []
  | cons {comma : Token} {first more : Reading} {a : α} {as : List α} (hcomma : comma.kind = .comma)
      (hfirst : item first a) (hmore : ReadMore item more as) :
      ReadMore item ((comma, .sign) :: (first ++ more)) (a :: as)

/-- One or more items with commas between them. -/
inductive ReadSeparated {α : Type} (item : Reading → α → Prop) : Reading → List α → Prop
  | intro {first more : Reading} {a : α} {as : List α} (hfirst : item first a)
      (hmore : ReadMore item more as) : ReadSeparated item (first ++ more) (a :: as)

/-- An item that may be missing. -/
inductive ReadOpt {α : Type} (item : Reading → α → Prop) : Reading → Option α → Prop
  | missing : ReadOpt item [] none
  | present {r : Reading} {a : α} (h : item r a) : ReadOpt item r (some a)

inductive ReadValue : Reading → Value → Prop
  | intro {t : Token} {v : Value} (h : IsValue [t] v) : ReadValue [(t, .value)] v

inductive ReadList : Reading → List Value → Prop
  | intro {open' close : Token} {r : Reading} {values : List Value}
    (hopen : open'.kind = .leftParen)
      (hvalues : ReadSeparated ReadValue r values) (hclose : close.kind = .rightParen) :
      ReadList ((open', .sign) :: (r ++ [(close, .sign)])) values

/-- The identifier that a comparison begins with is its field. -/
inductive ReadComparison : Reading → Leaf → Prop
  | compare {field operator : Token} {op : ComparisonOp} {r : Reading} {value : Value}
      (hfield : field.kind = .identifier) (hoperator : operator.kind = .comparison op)
      (hvalue : ReadValue r value) :
      ReadComparison ((field, .field) :: (operator, .sign) :: r) (.compare field.literal op value)
  | oneOf {field inWord : Token} {r : Reading} {values : List Value}
      (hfield : field.kind = .identifier) (hin : inWord.kind = .keyword .inList)
      (hvalues : ReadList r values) :
      ReadComparison ((field, .field) :: (inWord, .sign) :: r) (.oneOf field.literal values false)
  | noneOf {field notWord inWord : Token} {r : Reading} {values : List Value}
      (hfield : field.kind = .identifier) (hnot : notWord.kind = .keyword .not)
      (hin : inWord.kind = .keyword .inList) (hvalues : ReadList r values) :
      ReadComparison ((field, .field) :: (notWord, .sign) :: (inWord, .sign) :: r)
        (.oneOf field.literal values true)

/-- The tokens that join comparisons to a filter. -/
def joints : List TokenKind := [.keyword .and, .keyword .or, .keyword .not, .leftParen, .rightParen]

/-- The comparisons of a filter in source order, with what joins them. -/
inductive ReadFilter : Reading → List Leaf → Prop
  | nil : ReadFilter [] []
  | joint {t : Token} {r : Reading} {leaves : List Leaf} (ht : t.kind ∈ joints)
      (hrest : ReadFilter r leaves) : ReadFilter ((t, .sign) :: r) leaves
  | comparison {first rest : Reading} {leaf : Leaf} {leaves : List Leaf}
      (hfirst : ReadComparison first leaf) (hrest : ReadFilter rest leaves) :
      ReadFilter (first ++ rest) (leaf :: leaves)

inductive ReadDepth : Reading → Depth → Prop
  | intro {t depth : Token} {d : Depth} (ht : t.kind = .keyword .depth) (h : IsDepth [depth] d) :
      ReadDepth [(t, .sign), (depth, .sign)] d

inductive ReadExpand : Reading → Expansion → Prop
  | intro {t word : Token} {r : Reading} {name : String} {direction : Direction} {d : Option Depth}
      (ht : t.kind = .keyword .expand) (hword : word.kind = .identifier)
      (hname : word.literal.toLower = Text.ofString name)
      (hdirection : (name, direction) ∈ Direction.words) (hdepth : ReadOpt ReadDepth r d) :
      ReadExpand ((t, .sign) :: (word, .direction) :: r) ⟨direction, d.getD (.levels 1)⟩

inductive ReadOrderTerm : Reading → OrderTerm → Prop
  | plain {field : Token} (hfield : field.kind = .identifier) :
      ReadOrderTerm [(field, .orderField)] ⟨field.literal, false⟩
  | asc {field word : Token} (hfield : field.kind = .identifier)
      (hword : word.kind = .keyword .asc) :
      ReadOrderTerm [(field, .orderField), (word, .sign)] ⟨field.literal, false⟩
  | desc {field word : Token} (hfield : field.kind = .identifier)
      (hword : word.kind = .keyword .desc) :
      ReadOrderTerm [(field, .orderField), (word, .sign)] ⟨field.literal, true⟩

inductive ReadOrder : Reading → List OrderTerm → Prop
  | intro {t byWord : Token} {r : Reading} {terms : List OrderTerm} (ht : t.kind = .keyword .order)
      (hby : byWord.kind = .keyword .byWord) (hterms : ReadSeparated ReadOrderTerm r terms) :
      ReadOrder ((t, .sign) :: (byWord, .sign) :: r) terms

/-- The tokens of a query with what they are taken for. -/
inductive Reads : Reading → Query → Prop
  | intro {filter expand order : Reading} {q : Query} {terms : Option (List OrderTerm)}
      (hfilter : ReadFilter filter q.leaves) (hexpand : ReadOpt ReadExpand expand q.expansion)
      (horder : ReadOpt ReadOrder order terms) (hterms : q.order = terms.getD []) :
      Reads (filter ++ (expand ++ order)) q

/-! ## Every query has a reading -/

/-- The tokens can be read as what the rule takes them for. -/
def Readable {α : Type} (reads : Reading → α → Prop) (ts : List Token) (a : α) : Prop :=
  ∃ r, r.map Prod.fst = ts ∧ reads r a

section Readable

variable {α : Type} {item : Rule α} {reads : Reading → α → Prop} {ts us : List Token}

theorem readMore_of_many {as : List α} (h : Many .comma item ts as)
    (hitem : ∀ us a, item us a → Readable reads us a) : Readable (ReadMore reads) ts as := by
  induction h with
  | nil => exact ⟨[], rfl, .nil⟩
  | cons ht first more ih =>
    obtain ⟨r, rfl, hfirst⟩ := hitem _ _ first
    obtain ⟨r', rfl, hmore⟩ := ih
    exact ⟨_, by simp, .cons ht hfirst hmore⟩

theorem readSeparated_of_separated {as : List α} (h : Separated .comma item ts as)
    (hitem : ∀ us a, item us a → Readable reads us a) : Readable (ReadSeparated reads) ts as := by
  obtain ⟨first, more⟩ := h
  obtain ⟨r, rfl, hfirst⟩ := hitem _ _ first
  obtain ⟨r', rfl, hmore⟩ := readMore_of_many more hitem
  exact ⟨r ++ r', by simp, .intro hfirst hmore⟩

theorem readOpt_of_opt {a : Option α} (h : Opt item ts a)
    (hitem : ∀ us a, item us a → Readable reads us a) : Readable (ReadOpt reads) ts a := by
  cases h with
  | missing => exact ⟨[], rfl, .missing⟩
  | present h =>
    obtain ⟨r, hr, h⟩ := hitem _ _ h
    exact ⟨r, hr, .present h⟩

end Readable

theorem readValue_of_isValue (ts : List Token) (v : Value) (h : IsValue ts v) :
    Readable ReadValue ts v := by
  cases h with
  | string ht => exact ⟨_, rfl, .intro (.string ht)⟩
  | number ht => exact ⟨_, rfl, .intro (.number ht)⟩
  | true ht => exact ⟨_, rfl, .intro (.true ht)⟩
  | false ht => exact ⟨_, rfl, .intro (.false ht)⟩
  | word ht => exact ⟨_, rfl, .intro (.word ht)⟩

theorem readList_of_valueList {ts : List Token} {values : List Value} (h : ValueList ts values) :
    Readable ReadList ts values := by
  obtain ⟨hopen, hvalues, hclose⟩ := h
  obtain ⟨r, rfl, hread⟩ := readSeparated_of_separated hvalues readValue_of_isValue
  exact ⟨_ :: (r ++ [_]), by simp, .intro hopen hread hclose⟩

theorem readComparison_of_comparison {ts : List Token} {leaf : Leaf} (h : Comparison ts leaf) :
    Readable ReadComparison ts leaf := by
  cases h with
  | compare hfield hoperator hvalue =>
    obtain ⟨r, rfl, hread⟩ := readValue_of_isValue _ _ hvalue
    exact ⟨_, rfl, .compare hfield hoperator hread⟩
  | oneOf hfield hin hvalues =>
    obtain ⟨r, rfl, hread⟩ := readList_of_valueList hvalues
    exact ⟨_, rfl, .oneOf hfield hin hread⟩
  | noneOf hfield hnot hin hvalues =>
    obtain ⟨r, rfl, hread⟩ := readList_of_valueList hvalues
    exact ⟨_, rfl, .noneOf hfield hnot hin hread⟩

theorem ReadFilter.append {r r' : Reading} {leaves leaves' : List Leaf} (h : ReadFilter r leaves)
    (h' : ReadFilter r' leaves') : ReadFilter (r ++ r') (leaves ++ leaves') := by
  induction h with
  | nil => exact h'
  | joint ht _ ih => exact .joint ht ih
  | comparison hfirst _ ih =>
    rw [List.append_assoc]
    exact .comparison hfirst ih

/-- Tokens of which one part is read behind the other are read together. -/
theorem Readable.append {ts us : List Token} {leaves leaves' : List Leaf}
    (h : Readable ReadFilter ts leaves) (h' : Readable ReadFilter us leaves') :
    Readable ReadFilter (ts ++ us) (leaves ++ leaves') := by
  obtain ⟨r, rfl, h⟩ := h
  obtain ⟨r', rfl, h'⟩ := h'
  exact ⟨r ++ r', by simp, h.append h'⟩

theorem Readable.joint {t : Token} {ts : List Token} {leaves : List Leaf} (ht : t.kind ∈ joints)
    (h : Readable ReadFilter ts leaves) : Readable ReadFilter (t :: ts) leaves := by
  obtain ⟨r, rfl, h⟩ := h
  exact ⟨(t, .sign) :: r, rfl, .joint ht h⟩

theorem readFilter_of_joined {separator : TokenKind} (hseparator : separator ∈ joints)
    {c : Connective} {ts us : List Token} {f : Filter} {more : List Filter}
    (hfirst : Readable ReadFilter ts f.leaves)
    (hmore : Many separator (fun us g => Readable ReadFilter us g.leaves) us more) :
    Readable ReadFilter (ts ++ us) (more.foldl (.binary c) f).leaves := by
  have hrest : Readable ReadFilter us (more.flatMap Filter.leaves) := by
    induction hmore with
    | nil => exact ⟨[], rfl, .nil⟩
    | cons ht hg _ ih => exact .joint (ht ▸ hseparator) (hg.append ih)
  rw [leaves_foldl]
  exact hfirst.append hrest

theorem readFilter_of_expression {ts : List Token} {f : Filter} (h : Expression ts f) :
    Readable ReadFilter ts f.leaves := by
  have hcompositional : Compositional (fun us f => Readable ReadFilter us f.leaves)
      (fun us f => Readable ReadFilter us f.leaves)
      (fun us f => Readable ReadFilter us f.leaves) :=
    { expression := readFilter_of_joined (by simp [joints])
      term := readFilter_of_joined (by simp [joints])
      not := fun ht h => .joint (by simp [joints, ht]) h
      parens := by
        intro open' close us f hopen h hclose
        have hlast : Readable ReadFilter [close] [] :=
          .joint (by simp [joints, hclose]) ⟨[], rfl, .nil⟩
        have hinside := h.append hlast
        rw [List.append_nil] at hinside
        exact .joint (by simp [joints, hopen]) hinside
      comparison := by
        intro us leaf h
        obtain ⟨r, rfl, hread⟩ := readComparison_of_comparison h
        exact ⟨r, rfl, by simpa [Filter.leaves] using ReadFilter.comparison hread .nil⟩ }
  exact hcompositional.of_expression h

theorem readExpand_of_expand (ts : List Token) (e : Expansion) (h : Expand ts e) :
    Readable ReadExpand ts e := by
  obtain ⟨ht, hword, hname, hdirection, hdepth⟩ := h
  have hclause (us : List Token) (d : Depth) (hd : DepthClause us d) : Readable ReadDepth us d := by
    obtain ⟨ht, h⟩ := hd
    cases h with
    | star hstar => exact ⟨_, rfl, .intro ht (.star hstar)⟩
    | number hnumber hwhole hleast hgreatest =>
      exact ⟨_, rfl, .intro ht (.number hnumber hwhole hleast hgreatest)⟩
  obtain ⟨r, rfl, hread⟩ := readOpt_of_opt hdepth hclause
  exact ⟨_, rfl, .intro ht hword hname hdirection hread⟩

theorem readOrder_of_orderBy (ts : List Token) (terms : List OrderTerm) (h : OrderBy ts terms) :
    Readable ReadOrder ts terms := by
  obtain ⟨ht, hby, hterms⟩ := h
  have hterm (us : List Token) (term : OrderTerm) (h : IsOrderTerm us term) :
      Readable ReadOrderTerm us term := by
    cases h with
    | plain hfield => exact ⟨_, rfl, .plain hfield⟩
    | asc hfield hword => exact ⟨_, rfl, .asc hfield hword⟩
    | desc hfield hword => exact ⟨_, rfl, .desc hfield hword⟩
  obtain ⟨r, rfl, hread⟩ := readSeparated_of_separated hterms hterm
  exact ⟨_, rfl, .intro ht hby hread⟩

theorem reads_of_derives {ts : List Token} {q : Query} (h : Derives ts q) :
    Readable Reads ts q := by
  obtain ⟨hfilter, hexpand, horder⟩ := h
  obtain ⟨order, rfl, hreadOrder⟩ := readOpt_of_opt horder readOrder_of_orderBy
  obtain ⟨expand, rfl, hreadExpand⟩ := readOpt_of_opt hexpand readExpand_of_expand
  cases hfilter with
  | missing => exact ⟨[] ++ (expand ++ order), by simp, .intro .nil hreadExpand hreadOrder rfl⟩
  | present hfilter =>
    obtain ⟨filter, rfl, hread⟩ := readFilter_of_expression hfilter
    exact ⟨filter ++ (expand ++ order), by simp, .intro hread hreadExpand hreadOrder rfl⟩

/-! ## The names of a reading -/

section Taken

variable (role : Role) (r r' : Reading)

@[simp] theorem takenAs_nil : takenAs role [] = [] := rfl

@[simp] theorem takenAs_cons (t : Token) (role' : Role) : takenAs role ((t, role') :: r) =
    if role' = role then t :: takenAs role r else takenAs role r := by
  by_cases h : role' = role <;> simp [takenAs, h]

@[simp] theorem takenAs_append : takenAs role (r ++ r') = takenAs role r ++ takenAs role r' := by
  simp [takenAs]

end Taken

/-- The word says the direction of the expansion, whatever its case. -/
def SaysDirection (word : Token) (e : Expansion) : Prop :=
  ∃ name, word.literal.toLower = Text.ofString name ∧ (name, e.direction) ∈ Direction.words

/-- The names and values that tokens are taken for, one after the other. -/
structure Named (r : Reading) (fields : List Text) (values : List Value)
    (expansions : List Expansion) (order : List Text) : Prop where
  fields : (takenAs .field r).map Token.literal = fields
  values : List.Forall₂ (fun t v => IsValue [t] v) (takenAs .value r) values
  expansions : List.Forall₂ SaysDirection (takenAs .direction r) expansions
  order : (takenAs .orderField r).map Token.literal = order

section Named

variable {r r' : Reading} {fields fields' order order' : List Text} {values values' : List Value}
  {expansions expansions' : List Expansion}

theorem Named.nil : Named [] [] [] [] [] := ⟨rfl, .nil, .nil, rfl⟩

theorem Named.append (h : Named r fields values expansions order)
    (h' : Named r' fields' values' expansions' order') :
    Named (r ++ r') (fields ++ fields') (values ++ values') (expansions ++ expansions')
      (order ++ order') where
  fields := by simp [h.fields, h'.fields]
  values := by simpa using List.rel_append h.values h'.values
  expansions := by simpa using List.rel_append h.expansions h'.expansions
  order := by simp [h.order, h'.order]

theorem Named.sign (t : Token) (h : Named r fields values expansions order) :
    Named ((t, .sign) :: r) fields values expansions order where
  fields := by simpa using h.fields
  values := by simpa using h.values
  expansions := by simpa using h.expansions
  order := by simpa using h.order

theorem named_of_readValue (v : Value) (h : ReadValue r v) : Named r [] [v] [] [] := by
  obtain ⟨h⟩ := h
  exact ⟨rfl, .cons h .nil, .nil, rfl⟩

theorem named_of_readOrderTerm (term : OrderTerm) (h : ReadOrderTerm r term) :
    Named r [] [] [] [term.field] := by
  cases h <;> exact ⟨rfl, .nil, .nil, rfl⟩

section Separated

variable {α : Type} {item : Reading → α → Prop} {as : List α} {values : α → List Value}
  {order : α → List Text}

theorem named_of_readMore (h : ReadMore item r as)
    (hitem : ∀ {r} a, item r a → Named r [] (values a) [] (order a)) :
    Named r [] (as.flatMap values) [] (as.flatMap order) := by
  induction h with
  | nil => exact .nil
  | cons hcomma hfirst hmore ih => exact ((hitem _ hfirst).append ih).sign _

theorem named_of_readSeparated (h : ReadSeparated item r as)
    (hitem : ∀ {r} a, item r a → Named r [] (values a) [] (order a)) :
    Named r [] (as.flatMap values) [] (as.flatMap order) := by
  obtain ⟨hfirst, hmore⟩ := h
  exact (hitem _ hfirst).append (named_of_readMore hmore hitem)

end Separated

theorem named_of_readList (h : ReadList r values) : Named r [] values [] [] := by
  obtain @⟨_, _, r, values, _, hvalues, _⟩ := h
  have hinside : Named r [] (values.flatMap fun v => [v]) [] (values.flatMap fun _ => []) :=
    named_of_readSeparated hvalues named_of_readValue
  rw [List.flatMap_singleton', List.flatMap_eq_nil_iff.mpr fun _ _ => rfl] at hinside
  simpa using (hinside.append (Named.nil.sign _)).sign _

theorem named_of_readComparison {leaf : Leaf} (h : ReadComparison r leaf) :
    Named r [leaf.field] leaf.values [] [] := by
  -- one field stands in front, and behind it there are values alone
  have hfield (t : Token) : Named [(t, .field)] [t.literal] [] [] [] := ⟨rfl, .nil, .nil, rfl⟩
  cases h with
  | compare _ _ hvalue => exact (hfield _).append ((named_of_readValue _ hvalue).sign _)
  | oneOf _ _ hvalues => exact (hfield _).append ((named_of_readList hvalues).sign _)
  | noneOf _ _ _ hvalues => exact (hfield _).append (((named_of_readList hvalues).sign _).sign _)

theorem named_of_readFilter {leaves : List Leaf} (h : ReadFilter r leaves) :
    Named r (leaves.map Leaf.field) (leaves.flatMap Leaf.values) [] [] := by
  induction h with
  | nil => exact .nil
  | joint _ _ ih => exact ih.sign _
  | comparison hfirst _ ih => exact (named_of_readComparison hfirst).append ih

theorem named_of_readExpand {e : Expansion} (h : ReadExpand r e) : Named r [] [] [e] [] := by
  obtain @⟨t, word, rest, name, direction, d, _, _, hname, hdirection, hdepth⟩ := h
  have hword : Named [(word, .direction)] [] [] [⟨direction, d.getD (.levels 1)⟩] [] :=
    ⟨rfl, .nil, .cons ⟨name, hname, hdirection⟩ .nil, rfl⟩
  have hrest : Named rest [] [] [] [] := by
    obtain _ | ⟨_, _⟩ := hdepth
    · exact .nil
    · exact (Named.nil.sign _).sign _
  exact (hword.append hrest).sign _

theorem named_of_readOrder {terms : List OrderTerm} (h : ReadOrder r terms) :
    Named r [] [] [] (terms.map OrderTerm.field) := by
  obtain @⟨_, _, r, terms, _, _, hterms⟩ := h
  have hinside : Named r [] (terms.flatMap fun _ => []) []
      (terms.flatMap fun term => [term.field]) :=
    named_of_readSeparated hterms named_of_readOrderTerm
  rw [List.flatMap_eq_nil_iff.mpr fun _ _ => rfl, ← List.map_eq_flatMap] at hinside
  exact (hinside.sign _).sign _

/-- A reading of a query names what the query has, in the same order. -/
theorem named_of_reads {q : Query} (h : Reads r q) :
    Named r (q.leaves.map Leaf.field) (q.leaves.flatMap Leaf.values) q.expansion.toList
      (q.order.map OrderTerm.field) := by
  have hexpansion {r : Reading} {e : Option Expansion} (h : ReadOpt ReadExpand r e) :
      Named r [] [] e.toList [] := by
    cases h with
    | missing => exact .nil
    | present h => exact named_of_readExpand h
  have hterms {r : Reading} {terms : Option (List OrderTerm)} (h : ReadOpt ReadOrder r terms) :
      Named r [] [] [] ((terms.getD []).map OrderTerm.field) := by
    cases h with
    | missing => exact .nil
    | present h => exact named_of_readOrder h
  obtain ⟨hfilter, hexpand, horder, horderEq⟩ := h
  rw [horderEq]
  simpa using (named_of_readFilter hfilter).append ((hexpansion hexpand).append (hterms horder))

end Named

end Grammar

namespace Highlight

open Grammar

/-! ## The colours of a reading -/

/-- The colour is the one for what the token is taken for. -/
def Suits (colour : Option SyntaxKind) (t : Token) : Role → Prop
  | .field | .direction | .orderField => colour = some .field
  | .value => t.kind = .identifier →
      colour = if isKnownValue t.literal then some .value else none
  | .sign => t.kind ≠ .identifier

/-- Read from the state on, each token has the colour for what it is taken for. -/
def AllSuit : State → Reading → Prop
  | _, [] => True
  | s, (t, role) :: r => Suits (s.next t).1 t role ∧ AllSuit (s.next t).2 r

/-- From any state as the first condition has it, the tokens have the colours for what they are
taken for, and the state behind them is as the second condition has it. -/
def Coloured (pre : State → Prop) (r : Reading) (post : State → Prop) : Prop :=
  ∀ s, pre s → AllSuit s r ∧ post (s.after (r.map Prod.fst))

section Coloured

variable {pre mid post : State → Prop} {r r' : Reading} {t : Token} {role : Role}

theorem Coloured.nil : Coloured pre [] pre := fun _ h => ⟨trivial, h⟩

theorem Coloured.token (h : ∀ s, pre s → Suits (s.next t).1 t role ∧ post (s.next t).2) :
    Coloured pre [(t, role)] post := fun s hs => ⟨⟨(h s hs).1, trivial⟩, (h s hs).2⟩

theorem AllSuit.append {s : State} (h : AllSuit s r) (h' : AllSuit (s.after (r.map Prod.fst)) r') :
    AllSuit s (r ++ r') := by
  induction r generalizing s with
  | nil => exact h'
  | cons first r ih => exact ⟨h.1, ih h.2 h'⟩

theorem Coloured.append (h : Coloured pre r mid) (h' : Coloured mid r' post) :
    Coloured pre (r ++ r') post := by
  intro s hs
  obtain ⟨hr, hmid⟩ := h s hs
  obtain ⟨hr', hpost⟩ := h' _ hmid
  rw [List.map_append, State.after_append]
  exact ⟨hr.append hr', hpost⟩

theorem Coloured.cons (h : Coloured pre [(t, role)] mid) (h' : Coloured mid r post) :
    Coloured pre ((t, role) :: r) post := h.append h'

end Coloured

/-- Where a token behind the others is taken for something, its colour is the one for that. -/
theorem AllSuit.split {s : State} {before after : Reading} {t : Token} {role : Role}
    (h : AllSuit s (before ++ (t, role) :: after)) :
    Suits ((s.after (before.map Prod.fst)).next t).1 t role := by
  induction before generalizing s with
  | nil => exact h.1
  | cons first before ih => exact ih h.2

/-- No operator waits and the next token opens no value list; one may be open. -/
structure Rests (inList : Bool) (s : State) : Prop where
  inList : s.inList = inList
  afterOperator : s.afterOperator = false
  previous : s.previous ≠ .keyword .inList

/-- A value is expected, in a list or behind an operator. -/
def Expects (inList : Bool) (s : State) : Prop :=
  s.inList = inList ∧ (inList = true ∨ s.afterOperator = true)

/-- The next token opens a value list. -/
structure Opens (s : State) : Prop where
  inList : s.inList = false
  afterOperator : s.afterOperator = false
  previous : s.previous = .keyword .inList

/-- No name, no operator, and nothing that begins or ends a value list behind `in`. -/
def isPlain : TokenKind → Bool
  | .comparison _ | .identifier | .keyword .inList | .rightParen => false
  | _ => true

section Rules

variable {inList : Bool} {r : Reading} {t : Token}

theorem coloured_plain (ht : isPlain t.kind = true) :
    Coloured (Rests inList) [(t, .sign)] (Rests inList) := by
  refine .token fun s hs => ?_
  obtain ⟨kind, literal, pos⟩ := t
  -- a parenthesis opens no list, as `in` is not in front of it
  have hlist : (s.next ⟨kind, literal, pos⟩).2.inList = inList := by
    have hclose : kind ≠ .rightParen := by
      rintro rfl
      cases ht
    simp [State.listAfter, hs.previous, hclose, hs.inList]
  refine ⟨?_, hlist, ?_, ?_⟩
  · rintro rfl
    cases ht
  · rw [State.next_afterOperator, hs.afterOperator, Bool.false_and, Bool.or_false]
    cases kind <;> first | rfl | cases ht
  · rw [State.next_previous]
    rintro rfl
    cases ht

theorem coloured_close (ht : t.kind = .rightParen) :
    Coloured (Rests inList) [(t, .sign)] (Rests false) := by
  refine .token fun s hs => ⟨by simp [Suits, ht], ?_, ?_, ?_⟩
  · simp [State.listAfter, ht]
  · simp [ht, hs.afterOperator, TokenKind.isComparison, TokenKind.comparisonOp?]
  · simp [ht]

theorem coloured_open (ht : t.kind = .leftParen) : Coloured Opens [(t, .sign)] (Rests true) := by
  refine .token fun s hs => ⟨by simp [Suits, ht], ?_, ?_, ?_⟩
  · simp [State.listAfter, ht, hs.previous]
  · simp [ht, hs.afterOperator, TokenKind.isComparison, TokenKind.comparisonOp?]
  · simp [ht]

theorem coloured_in (ht : t.kind = .keyword .inList) :
    Coloured (Rests false) [(t, .sign)] Opens := by
  refine .token fun s hs => ⟨by simp [Suits, ht], ?_, ?_, ?_⟩
  · simp [State.listAfter, ht, hs.inList]
  · simp [ht, hs.afterOperator, TokenKind.isComparison, TokenKind.comparisonOp?]
  · simp [ht]

theorem coloured_operator {op : ComparisonOp} (ht : t.kind = .comparison op) :
    Coloured (Rests false) [(t, .sign)] (Expects false) := by
  refine .token fun s hs => ⟨by simp [Suits, ht], ?_, .inr ?_⟩
  · simp [State.listAfter, ht, hs.inList]
  · simp [ht, TokenKind.isComparison, TokenKind.comparisonOp?]

/-- Where nothing is expected, an identifier is the name of a field. -/
theorem coloured_name (role : Role) (ht : t.kind = .identifier)
    (hrole : role ≠ .value ∧ role ≠ .sign) :
    Coloured (Rests false) [(t, role)] (Rests false) := by
  refine .token fun s hs => ⟨?_, ?_, ?_, by simp [ht]⟩
  · have hcolour : (s.next t).1 = some .field := by
      simp [State.next_identifier s t ht, hs.inList, hs.afterOperator]
    cases role <;> simp_all [Suits]
  · simp [State.listAfter, ht, hs.inList]
  · simp [ht, hs.afterOperator, TokenKind.isComparison, TokenKind.comparisonOp?]

theorem coloured_value {v : Value} (h : ReadValue r v) :
    Coloured (Expects inList) r (Rests inList) := by
  obtain ⟨h⟩ := h
  refine .token fun s hs => ⟨fun hname => ?_, ?_, ?_, ?_⟩
  · rw [State.next_identifier s _ hname, if_pos (hs.2.imp_left hs.1.trans)]
  all_goals
    cases h with
    | string ht | number ht | true ht | false ht | word ht =>
      simp [State.listAfter, TokenKind.isComparison, TokenKind.comparisonOp?, TokenKind.endsWait,
        ht, hs.1]

end Rules

section Readings

variable {r : Reading}

theorem coloured_list {values : List Value} (h : ReadList r values) :
    Coloured Opens r (Rests false) := by
  -- in the list a value is expected whenever there is none
  have hexpects : ∀ s, Rests true s → Expects true s := fun s hs => ⟨hs.inList, .inl rfl⟩
  have hvalue {r : Reading} {v : Value} (h : ReadValue r v) :
      Coloured (Rests true) r (Rests true) :=
    fun s hs => coloured_value h s (hexpects s hs)
  have hmore {r : Reading} {values : List Value} (h : ReadMore ReadValue r values) :
      Coloured (Rests true) r (Rests true) := by
    induction h with
    | nil => exact .nil
    | cons hcomma hfirst _ ih =>
      exact (coloured_plain (by rw [hcomma]; rfl)).cons ((hvalue hfirst).append ih)
  obtain ⟨hopen, ⟨hfirst, hrest⟩, hclose⟩ := h
  exact (coloured_open hopen).cons
    (((hvalue hfirst).append (hmore hrest)).append (coloured_close hclose))

theorem coloured_comparison {leaf : Leaf} (h : ReadComparison r leaf) :
    Coloured (Rests false) r (Rests false) := by
  have hfield {t : Token} (ht : t.kind = .identifier) :
      Coloured (Rests false) [(t, .field)] (Rests false) := coloured_name .field ht ⟨nofun, nofun⟩
  cases h with
  | compare hname hoperator hvalue =>
    exact (hfield hname).cons ((coloured_operator hoperator).cons (coloured_value hvalue))
  | oneOf hname hin hvalues =>
    exact (hfield hname).cons ((coloured_in hin).cons (coloured_list hvalues))
  | noneOf hname hnot hin hvalues =>
    exact (hfield hname).cons ((coloured_plain (by rw [hnot]; rfl)).cons
      ((coloured_in hin).cons (coloured_list hvalues)))

theorem coloured_filter {leaves : List Leaf} (h : ReadFilter r leaves) :
    Coloured (Rests false) r (Rests false) := by
  induction h with
  | nil => exact .nil
  | @joint t r leaves ht _ ih =>
    by_cases hclose : t.kind = .rightParen
    · exact (coloured_close hclose).cons ih
    · refine (coloured_plain ?_).cons ih
      simp only [joints, List.mem_cons, List.not_mem_nil, or_false, hclose] at ht
      obtain ht | ht | ht | ht := ht <;> rw [ht] <;> rfl
  | comparison hfirst _ ih => exact (coloured_comparison hfirst).append ih

theorem coloured_expand {e : Expansion} (h : ReadExpand r e) :
    Coloured (Rests false) r (Rests false) := by
  obtain ⟨ht, hword, _, _, hdepth⟩ := h
  refine (coloured_plain (by rw [ht]; rfl)).cons
    ((coloured_name .direction hword ⟨nofun, nofun⟩).cons ?_)
  cases hdepth with
  | missing => exact .nil
  | present hdepth =>
    obtain ⟨ht, h⟩ := hdepth
    refine (coloured_plain (by rw [ht]; rfl)).cons (coloured_plain ?_)
    cases h with
    | star hstar => rw [hstar]; rfl
    | number hnumber => rw [hnumber]; rfl

theorem coloured_order {terms : List OrderTerm} (h : ReadOrder r terms) :
    Coloured (Rests false) r (Rests false) := by
  have hterm {r : Reading} {term : OrderTerm} (h : ReadOrderTerm r term) :
      Coloured (Rests false) r (Rests false) := by
    cases h with
    | plain hfield => exact coloured_name .orderField hfield ⟨nofun, nofun⟩
    | asc hfield hword | desc hfield hword =>
      exact (coloured_name .orderField hfield ⟨nofun, nofun⟩).cons
        (coloured_plain (by rw [hword]; rfl))
  have hmore {r : Reading} {terms : List OrderTerm} (h : ReadMore ReadOrderTerm r terms) :
      Coloured (Rests false) r (Rests false) := by
    induction h with
    | nil => exact .nil
    | cons hcomma hfirst _ ih =>
      exact (coloured_plain (by rw [hcomma]; rfl)).cons ((hterm hfirst).append ih)
  obtain ⟨ht, hby, hfirst, hrest⟩ := h
  exact (coloured_plain (by rw [ht]; rfl)).cons ((coloured_plain (by rw [hby]; rfl)).cons
    ((hterm hfirst).append (hmore hrest)))

/-- At the beginning of a line and behind it, no value is expected. -/
theorem coloured_query {q : Query} (h : Reads r q) : Coloured (Rests false) r (Rests false) := by
  obtain ⟨hfilter, hexpand, horder, -⟩ := h
  have hopt {α : Type} {item : Reading → α → Prop} {r : Reading} {a : Option α}
      (h : ReadOpt item r a)
      (hitem : ∀ {r a}, item r a → Coloured (Rests false) r (Rests false)) :
      Coloured (Rests false) r (Rests false) := by
    cases h with
    | missing => exact .nil
    | present h => exact hitem h
  exact (coloured_filter hfilter).append
    ((hopt hexpand coloured_expand).append (hopt horder coloured_order))

theorem rests_initial : Rests false .initial := ⟨rfl, rfl, nofun⟩

end Readings

end Highlight

open Grammar

/-- What is coloured of a token that a reading of the line takes for something. -/
theorem Text.spansOver_reading {line : Text} {q : Query} {r : Reading} {i : Nat}
    {l : Token × Nat} {role : Role} (h : Reads r q) (htokens : r.map Prod.fst = line.properTokens)
    (hl : line.lexemes[i]? = some l) (hrole : r[i]? = some (l.1, role)) :
    ∃ colour, Highlight.Suits colour l.1 role ∧
      line.spansOver l = (colour.map fun kind => ⟨startOf l, stopOf l, kind⟩).toList := by
  obtain ⟨hi, rfl⟩ := List.getElem?_eq_some_iff.mp hl
  obtain ⟨hir, hread⟩ := List.getElem?_eq_some_iff.mp hrole
  have hline : line.lexemes =
      line.lexemes.take i ++ line.lexemes[i] :: line.lexemes.drop (i + 1) := by
    simp
  have hreading : r = r.take i ++ (line.lexemes[i].1, role) :: r.drop (i + 1) := by
    simp [← hread]
  have hbefore : (r.take i).map Prod.fst = (line.lexemes.take i).map Prod.fst := by
    rw [List.map_take, List.map_take, htokens, Text.properTokens]
  have hsuit := (Highlight.coloured_query h .initial Highlight.rests_initial).1
  rw [hreading] at hsuit
  refine ⟨_, ?_, Text.spansOver_eq hline⟩
  rw [← hbefore]
  exact hsuit.split

/-- A query that parses can be read, token by token, as what the grammar takes the tokens for; and
however it is read, the names and values of the reading are those of the query. The fields of
comparisons, the fields to order by and the word for the direction are coloured as fields. An
identifier that is read as a value is coloured as a value if the language knows it, and else not at
all. There are no other identifiers. -/
theorem Query.parse_highlight {text : Text} {q : Query} (h : Query.parse text = .ok q) :
    (∃ r, r.map Prod.fst = text.properTokens ∧ Reads r q) ∧
    ∀ r : Reading, r.map Prod.fst = text.properTokens → Reads r q →
      Named r (q.leaves.map Leaf.field) (q.leaves.flatMap Leaf.values) q.expansion.toList
        (q.order.map OrderTerm.field) ∧
      ∀ (i : Nat) (l : Token × Nat) (role : Role), text.lexemes[i]? = some l →
        r[i]? = some (l.1, role) → l.1.kind = .identifier → role ≠ .sign ∧
          (role ≠ .value → text.spansOver l = [⟨startOf l, stopOf l, .field⟩]) ∧
          (role = .value → text.spansOver l =
            if isKnownValue l.1.literal then [⟨startOf l, stopOf l, .value⟩] else []) := by
  refine ⟨reads_of_derives (Query.parse_eq_ok_iff.mp h), fun r htokens hread =>
    ⟨named_of_reads hread, fun i l role hl hrole hname => ?_⟩⟩
  obtain ⟨colour, hsuits, hspans⟩ := Text.spansOver_reading hread htokens hl hrole
  -- a sign of the grammar is no name
  have hsign : role ≠ .sign := by
    rintro rfl
    exact hsuits hname
  refine ⟨hsign, fun hvalue => ?_, ?_⟩
  · have hcolour : colour = some .field := by
      cases role with
      | field | direction | orderField => exact hsuits
      | value => exact absurd rfl hvalue
      | sign => exact absurd rfl hsign
    rw [hspans, hcolour]
    rfl
  · rintro rfl
    rw [hspans, hsuits hname]
    split <;> rfl

/-- A query with all that the grammar has: a group, a list of values, an expansion and an order. -/
def variedText : Text :=
  Text.ofString "not (status = open or type not in (bug, soon)) expand down order by id desc"

def variedQuery : Query where
  filter := some (.not (.binary .or
    (.leaf (.compare "status" .eq (.string "open" "open")))
    (.leaf (.oneOf "type" [.string "bug" "bug", .string "soon" "soon"] true))))
  expansion := some ⟨.down, .levels 1⟩
  order := [⟨"id", true⟩]

theorem Query.parse_highlight_varied :
    Query.parse variedText = .ok variedQuery ∧
      (∃ r, r.map Prod.fst = variedText.properTokens ∧
        (takenAs .field r).map Token.literal = ["status", "type"] ∧
        (takenAs .value r).length = 3 ∧ (takenAs .direction r).length = 1 ∧
        (takenAs .orderField r).map Token.literal = ["id"]) ∧
      variedText.highlight.filter (fun a => a.kind = .field || a.kind = .value) =
        [⟨5, 11, .field⟩, ⟨14, 18, .value⟩, ⟨22, 26, .field⟩, ⟨35, 38, .value⟩, ⟨54, 58, .field⟩,
          ⟨68, 70, .field⟩] := by
  have hparse : Query.parse variedText = .ok variedQuery := by
    have hfound : (Query.parse variedText).toOption = some variedQuery := by decide +kernel
    cases hresult : Query.parse variedText with
    | error e => simp [hresult, Except.toOption] at hfound
    | ok q => simpa [hresult, Except.toOption] using hfound
  obtain ⟨⟨r, htokens, hread⟩, hcolours⟩ := Query.parse_highlight hparse
  have hnamed := (hcolours r htokens hread).1
  exact ⟨hparse, ⟨r, htokens, hnamed.fields, hnamed.values.length_eq, hnamed.expansions.length_eq,
    hnamed.order⟩, by decide +kernel⟩

end IssueQuery
