import IssueQuery.Proofs.Query.Grammar

/-!
# The parser and the grammar agree

Soundness: what a part of the parser takes derives from its rule. Completeness: what derives from
a rule is taken by its part, if the next token could not go on with it and the bound is not too
small. Both go by induction on the bound, with one step for each of the recursive parts.

* `SoundAt`, `CompleteAt`   what holds of the recursive parts at a bound;
* `Parser.query_eq_ok_iff`  the two together, for lists of tokens;
* `Query.parse_iff_derives` the same for texts, with what becomes of all the others.
-/

namespace IssueQuery

open Grammar

/-- A bound computation gives a result if its parts do. -/
theorem Except.bind_eq_ok_iff {ε α β : Type} {x : Except ε α} {f : α → Except ε β} {b : β} :
    (x >>= f) = .ok b ↔ ∃ a, x = .ok a ∧ f a = .ok b := by
  cases x with
  | error e => simp [bind, Except.bind]
  | ok a => simp [bind, Except.bind]

theorem Except.ok_pair_inj {ε α β : Type} {a a' : α} {b b' : β}
    (h : (.ok (a, b) : Except ε (α × β)) = .ok (a', b')) : a = a' ∧ b = b' :=
  Prod.mk.inj (Except.ok.inj h)

namespace Parser

/-- A token of a kind is made of the kind, a literal and a position. -/
theorem exists_of_kind {t : Token} {kind : TokenKind} (h : t.kind = kind) :
    ∃ literal pos, t = ⟨kind, literal, pos⟩ :=
  ⟨t.literal, t.pos, h ▸ rfl⟩

@[simp] theorem refuse_ne_ok {α : Type} (what : Expectation) (tokens : List Token)
    (parsed : Parsed α) : refuse what tokens ≠ .ok parsed := by
  unfold refuse
  split
  · split <;> exact fun h => nomatch h
  · exact fun h => nomatch h

/-- The next token, if there is one, is of none of the kinds. -/
def NotAhead (kinds : List TokenKind) (tokens : List Token) : Prop :=
  ∀ t ∈ tokens.head?, t.kind ∉ kinds

theorem notAhead_nil (kinds : List TokenKind) : NotAhead kinds [] := by
  simp [NotAhead]

theorem notAhead_cons {kinds : List TokenKind} {t : Token} {rest : List Token} :
    NotAhead kinds (t :: rest) ↔ t.kind ∉ kinds := by
  simp [NotAhead]

theorem NotAhead.congr {kinds : List TokenKind} {rest us : List Token} (h : NotAhead kinds rest)
    (hhead : us.head? = rest.head?) : NotAhead kinds us := by
  rw [NotAhead, hhead]
  exact h

theorem notAhead_iff {kinds : List TokenKind} {tokens : List Token} :
    NotAhead kinds tokens ↔
      ∀ kind ∈ kinds, ∀ literal pos us, tokens ≠ ⟨kind, literal, pos⟩ :: us := by
  constructor
  · rintro h kind hkind literal pos us rfl
    exact notAhead_cons.mp h hkind
  · rintro h ⟨kind, literal, pos⟩ ht hkind
    obtain ⟨us, rfl⟩ := List.head?_eq_some_iff.mp ht
    exact h kind hkind literal pos us rfl

theorem NotAhead.mono {kinds kinds' : List TokenKind} {tokens : List Token}
    (h : NotAhead kinds tokens) (hsub : kinds' ⊆ kinds) : NotAhead kinds' tokens :=
  fun t ht hkind => h t ht (hsub hkind)

/-- Repeated items begin with their separator. -/
theorem notAhead_many {α : Type} {separator : TokenKind} {item : Rule α} {ts rest : List Token}
    {as : List α} (h : Many separator item ts as) {kinds : List TokenKind}
    (hseparator : separator ∉ kinds) (hrest : NotAhead kinds rest) :
    NotAhead kinds (ts ++ rest) := by
  cases h with
  | nil => exact hrest
  | cons ht first more =>
    rw [List.cons_append, notAhead_cons, ht]
    exact hseparator

/-! ## Values -/

theorem isValue_iff {ts : List Token} {v : Value} :
    IsValue ts v ↔ ∃ t, ts = [t] ∧ valueOf? t = some v := by
  constructor
  · intro h
    cases h with
    | string ht | number ht | true ht | false ht | word ht => exact ⟨_, rfl, by simp [valueOf?, ht]⟩
  · rintro ⟨t, rfl, h⟩
    -- one case for each kind of token that `valueOf?` knows
    unfold valueOf? at h
    split at h <;> simp only [Option.some.injEq, reduceCtorEq] at h <;> subst h
    · exact .string ‹_›
    · exact .number ‹_›
    · exact .true ‹_›
    · exact .false ‹_›
    · exact .word ‹_›

theorem value_sound {tokens rest : List Token} {v : Value} (h : value tokens = .ok (v, rest)) :
    ∃ ts, tokens = ts ++ rest ∧ IsValue ts v := by
  unfold value at h
  split at h
  · split at h
    · rename_i t _ _ hv
      obtain ⟨rfl, rfl⟩ := Except.ok_pair_inj h
      exact ⟨[_], rfl, isValue_iff.mpr ⟨_, rfl, hv⟩⟩
    · exact absurd h (refuse_ne_ok _ _ _)
  · exact absurd h (refuse_ne_ok _ _ _)

theorem value_complete {ts : List Token} {v : Value} (h : IsValue ts v) (rest : List Token) :
    value (ts ++ rest) = .ok (v, rest) := by
  obtain ⟨t, rfl, hv⟩ := isValue_iff.mp h
  simp [value, hv]

theorem moreValues_sound {tokens rest : List Token} {values : List Value}
    (h : moreValues tokens = .ok (values, rest)) :
    ∃ ts close, tokens = ts ++ close :: rest ∧ Many .comma IsValue ts values ∧
      close.kind = .rightParen := by
  -- the cases of `moreValues`: a comma with and without a value, a parenthesis, anything else
  induction tokens using moreValues.induct generalizing values with
  | case1 literal pos t tail v hv ih =>
    simp only [moreValues, hv, Except.bind_eq_ok_iff] at h
    obtain ⟨⟨more, rest'⟩, hmore, h⟩ := h
    simp only [pure, Except.pure, Except.ok.injEq, Prod.mk.injEq] at h
    obtain ⟨rfl, rfl⟩ := h
    obtain ⟨ts, close, rfl, hts, hclose⟩ := ih hmore
    refine ⟨⟨.comma, literal, pos⟩ :: ([t] ++ ts), close, rfl, ?_, hclose⟩
    exact .cons rfl (isValue_iff.mpr ⟨t, rfl, hv⟩) hts
  | case2 literal pos t tail hv =>
    simp only [moreValues, hv] at h
    exact absurd h (refuse_ne_ok _ _ _)
  | case3 literal pos => exact absurd h (refuse_ne_ok _ _ _)
  | case4 literal pos tail =>
    simp only [moreValues, Except.ok.injEq, Prod.mk.injEq] at h
    obtain ⟨rfl, rfl⟩ := h
    exact ⟨[], ⟨.rightParen, literal, pos⟩, rfl, .nil, rfl⟩
  | case5 tokens h₁ h₂ h₃ =>
    rw [moreValues] at h <;> first | assumption | exact absurd h (refuse_ne_ok _ _ _)

theorem moreValues_complete {ts : List Token} {values : List Value}
    (h : Many .comma IsValue ts values) {close : Token} (hclose : close.kind = .rightParen)
    (rest : List Token) : moreValues (ts ++ close :: rest) = .ok (values, rest) := by
  induction h with
  | nil =>
    obtain ⟨literal, pos, rfl⟩ := exists_of_kind hclose
    rfl
  | @cons comma ts us v vs hcomma first _ ih =>
    obtain ⟨literal, pos, rfl⟩ := exists_of_kind hcomma
    obtain ⟨t, rfl, hv⟩ := isValue_iff.mp first
    simp only [List.cons_append, List.nil_append, moreValues, hv, ih]
    rfl

theorem valueList_sound {tokens rest : List Token} {values : List Value}
    (h : valueList tokens = .ok (values, rest)) :
    ∃ ts, tokens = ts ++ rest ∧ ValueList ts values := by
  unfold valueList at h
  split at h
  · rename_i literal pos tail
    simp only [Except.bind_eq_ok_iff] at h
    obtain ⟨⟨first, rest₁⟩, hfirst, ⟨more, rest₂⟩, hmore, h⟩ := h
    simp only [pure, Except.pure, Except.ok.injEq, Prod.mk.injEq] at h
    obtain ⟨rfl, rfl⟩ := h
    obtain ⟨ts, rfl, hts⟩ := value_sound hfirst
    obtain ⟨us, close, rfl, hus, hclose⟩ := moreValues_sound hmore
    refine ⟨⟨.leftParen, literal, pos⟩ :: (ts ++ us ++ [close]), by simp, ?_⟩
    exact .intro rfl (.intro hts hus) hclose
  · exact absurd h (refuse_ne_ok _ _ _)

theorem valueList_complete {ts : List Token} {values : List Value} (h : ValueList ts values)
    (rest : List Token) : valueList (ts ++ rest) = .ok (values, rest) := by
  obtain ⟨hopen, ⟨hfirst, hmore⟩, hclose⟩ := h
  rename_i open' close ts us v vs
  obtain ⟨literal, pos, rfl⟩ := exists_of_kind hopen
  have hvalue := value_complete hfirst (us ++ close :: rest)
  have hvalues := moreValues_complete hmore hclose rest
  simp only [List.cons_append, List.append_assoc, List.nil_append, valueList, hvalue, bind,
    Except.bind, hvalues, pure, Except.pure]

/-! ## Comparisons -/

theorem comparison_sound {tokens rest : List Token} {f : Filter}
    (h : comparison tokens = .ok (f, rest)) :
    ∃ ts leaf, tokens = ts ++ rest ∧ Comparison ts leaf ∧ f = .leaf leaf := by
  unfold comparison at h
  split at h
  · rename_i field pos tail
    simp only [Except.bind_eq_ok_iff, pure, Except.pure, Except.ok.injEq, Prod.mk.injEq] at h
    obtain ⟨⟨leaf, rest'⟩, hcondition, rfl, rfl⟩ := h
    unfold condition at hcondition
    split at hcondition
    · -- `NOT IN`
      simp only [Except.bind_eq_ok_iff, pure, Except.pure, Except.ok.injEq, Prod.mk.injEq]
        at hcondition
      obtain ⟨⟨values, rest''⟩, hvalues, rfl, rfl⟩ := hcondition
      obtain ⟨ts, rfl, hts⟩ := valueList_sound hvalues
      exact ⟨_ :: _ :: _ :: ts, _, rfl, .noneOf rfl rfl rfl hts, rfl⟩
    · -- `IN`
      simp only [Except.bind_eq_ok_iff, pure, Except.pure, Except.ok.injEq, Prod.mk.injEq]
        at hcondition
      obtain ⟨⟨values, rest''⟩, hvalues, rfl, rfl⟩ := hcondition
      obtain ⟨ts, rfl, hts⟩ := valueList_sound hvalues
      exact ⟨_ :: _ :: ts, _, rfl, .oneOf rfl rfl hts, rfl⟩
    · -- an operator
      simp only [Except.bind_eq_ok_iff, pure, Except.pure, Except.ok.injEq, Prod.mk.injEq]
        at hcondition
      obtain ⟨⟨v, rest''⟩, hvalue, rfl, rfl⟩ := hcondition
      obtain ⟨ts, rfl, hts⟩ := value_sound hvalue
      exact ⟨_ :: _ :: ts, _, rfl, .compare rfl rfl hts, rfl⟩
    · exact absurd hcondition (refuse_ne_ok _ _ _)
  · exact absurd h (refuse_ne_ok _ _ _)

theorem comparison_complete {ts : List Token} {leaf : Leaf} (h : Comparison ts leaf)
    (rest : List Token) : comparison (ts ++ rest) = .ok (.leaf leaf, rest) := by
  cases h with
  | @compare field operator op ts v hfield hoperator hvalue =>
    obtain ⟨literal, pos, rfl⟩ := exists_of_kind hfield
    obtain ⟨symbol, pos', rfl⟩ := exists_of_kind hoperator
    simp only [List.cons_append, comparison, condition, value_complete hvalue, bind, Except.bind,
      pure, Except.pure]
  | @oneOf field inWord ts values hfield hin hvalues =>
    obtain ⟨literal, pos, rfl⟩ := exists_of_kind hfield
    obtain ⟨word, pos', rfl⟩ := exists_of_kind hin
    simp only [List.cons_append, comparison, condition, valueList_complete hvalues, bind,
      Except.bind, pure, Except.pure]
  | @noneOf field notWord inWord ts values hfield hnot hin hvalues =>
    obtain ⟨literal, pos, rfl⟩ := exists_of_kind hfield
    obtain ⟨word, pos', rfl⟩ := exists_of_kind hnot
    obtain ⟨word', pos'', rfl⟩ := exists_of_kind hin
    simp only [List.cons_append, comparison, condition, valueList_complete hvalues, bind,
      Except.bind, pure, Except.pure]

/-- A comparison begins with an identifier. -/
theorem exists_identifier {ts : List Token} {leaf : Leaf} (h : Comparison ts leaf) :
    ∃ literal pos us, ts = ⟨.identifier, literal, pos⟩ :: us := by
  cases h with
  | @compare field _ _ _ _ hfield _ _ | @oneOf field _ _ _ hfield _ _
  | @noneOf field _ _ _ _ hfield _ _ _ =>
    obtain ⟨literal, pos, rfl⟩ := exists_of_kind hfield
    exact ⟨literal, pos, _, rfl⟩

/-! ## Soundness of the recursive parts -/

/-- What the recursive parts take at a bound derives from their rules. -/
structure SoundAt (bound : Nat) : Prop where
  expression {tokens rest f} (h : expression bound tokens = .ok (f, rest)) :
    ∃ ts, tokens = ts ++ rest ∧ Expression ts f
  disjunction {left tokens rest f} (h : disjunction bound left tokens = .ok (f, rest)) :
    ∃ ts more, tokens = ts ++ rest ∧ Many (.keyword .or) Term ts more ∧
      f = more.foldl (.binary .or) left
  term {tokens rest f} (h : term bound tokens = .ok (f, rest)) :
    ∃ ts, tokens = ts ++ rest ∧ Term ts f
  conjunction {left tokens rest f} (h : conjunction bound left tokens = .ok (f, rest)) :
    ∃ ts more, tokens = ts ++ rest ∧ Many (.keyword .and) Factor ts more ∧
      f = more.foldl (.binary .and) left
  factor {tokens rest f} (h : factor bound tokens = .ok (f, rest)) :
    ∃ ts, tokens = ts ++ rest ∧ Factor ts f

section Sound

variable {bound : Nat} {tokens rest : List Token} {left f : Filter}

theorem expression_sound (ih : SoundAt bound) (h : expression (bound + 1) tokens = .ok (f, rest)) :
    ∃ ts, tokens = ts ++ rest ∧ Expression ts f := by
  rw [expression, Except.bind_eq_ok_iff] at h
  obtain ⟨⟨first, rest'⟩, hfirst, hmore⟩ := h
  obtain ⟨ts, rfl, hts⟩ := ih.term hfirst
  obtain ⟨us, more, rfl, hus, rfl⟩ := ih.disjunction hmore
  exact ⟨ts ++ us, by simp, .intro hts hus⟩

theorem disjunction_sound (ih : SoundAt bound)
    (h : disjunction (bound + 1) left tokens = .ok (f, rest)) :
    ∃ ts more, tokens = ts ++ rest ∧ Many (.keyword .or) Term ts more ∧
      f = more.foldl (.binary .or) left := by
  unfold disjunction at h
  split at h
  · rename_i literal pos tail
    rw [Except.bind_eq_ok_iff] at h
    obtain ⟨⟨right, rest'⟩, hright, hmore⟩ := h
    obtain ⟨ts, rfl, hts⟩ := ih.term hright
    obtain ⟨us, more, rfl, hus, rfl⟩ := ih.disjunction hmore
    -- the tree goes down on the left, as `left` is the first operand of the new one
    refine ⟨⟨.keyword .or, literal, pos⟩ :: (ts ++ us), right :: more, by simp, ?_, rfl⟩
    exact .cons rfl hts hus
  · obtain ⟨rfl, rfl⟩ := Except.ok_pair_inj h
    exact ⟨[], [], rfl, .nil, rfl⟩

theorem term_sound (ih : SoundAt bound) (h : term (bound + 1) tokens = .ok (f, rest)) :
    ∃ ts, tokens = ts ++ rest ∧ Term ts f := by
  rw [term, Except.bind_eq_ok_iff] at h
  obtain ⟨⟨first, rest'⟩, hfirst, hmore⟩ := h
  obtain ⟨ts, rfl, hts⟩ := ih.factor hfirst
  obtain ⟨us, more, rfl, hus, rfl⟩ := ih.conjunction hmore
  exact ⟨ts ++ us, by simp, .intro hts hus⟩

theorem conjunction_sound (ih : SoundAt bound)
    (h : conjunction (bound + 1) left tokens = .ok (f, rest)) :
    ∃ ts more, tokens = ts ++ rest ∧ Many (.keyword .and) Factor ts more ∧
      f = more.foldl (.binary .and) left := by
  unfold conjunction at h
  split at h
  · rename_i literal pos tail
    rw [Except.bind_eq_ok_iff] at h
    obtain ⟨⟨right, rest'⟩, hright, hmore⟩ := h
    obtain ⟨ts, rfl, hts⟩ := ih.factor hright
    obtain ⟨us, more, rfl, hus, rfl⟩ := ih.conjunction hmore
    refine ⟨⟨.keyword .and, literal, pos⟩ :: (ts ++ us), right :: more, by simp, ?_, rfl⟩
    exact .cons rfl hts hus
  · obtain ⟨rfl, rfl⟩ := Except.ok_pair_inj h
    exact ⟨[], [], rfl, .nil, rfl⟩

theorem factor_sound (ih : SoundAt bound) (h : factor (bound + 1) tokens = .ok (f, rest)) :
    ∃ ts, tokens = ts ++ rest ∧ Factor ts f := by
  unfold factor at h
  split at h
  · -- `NOT`
    simp only [Except.bind_eq_ok_iff, pure, Except.pure, Except.ok.injEq, Prod.mk.injEq] at h
    obtain ⟨⟨inner, rest'⟩, hinner, rfl, rfl⟩ := h
    obtain ⟨ts, rfl, hts⟩ := ih.factor hinner
    exact ⟨_ :: ts, rfl, .not rfl hts⟩
  · -- an expression in parentheses
    rename_i literal pos tail
    rw [Except.bind_eq_ok_iff] at h
    obtain ⟨⟨inner, rest'⟩, hinner, h⟩ := h
    obtain ⟨ts, rfl, hts⟩ := ih.expression hinner
    dsimp only at h
    split at h
    · rename_i literal' pos' tail
      obtain ⟨rfl, rfl⟩ := Except.ok_pair_inj h
      refine ⟨⟨.leftParen, literal, pos⟩ :: (ts ++ [⟨.rightParen, literal', pos'⟩]), by simp, ?_⟩
      exact .parens rfl hts rfl
    · exact absurd h (refuse_ne_ok _ _ _)
  · -- a comparison
    obtain ⟨ts, leaf, rfl, hts, rfl⟩ := comparison_sound h
    exact ⟨ts, rfl, .comparison hts⟩

end Sound

/-- Nothing is taken at the bound 0, and each step keeps soundness. -/
theorem soundAt (bound : Nat) : SoundAt bound := by
  induction bound with
  | zero =>
    -- the parser refuses everything
    constructor <;> intros <;> rename_i h
    · exact absurd h (refuse_ne_ok _ _ _)
    · exact absurd h (refuse_ne_ok _ _ _)
    · exact absurd h (refuse_ne_ok _ _ _)
    · exact absurd h (refuse_ne_ok _ _ _)
    · exact absurd h (refuse_ne_ok _ _ _)
  | succ bound ih =>
    exact ⟨expression_sound ih, disjunction_sound ih, term_sound ih, conjunction_sound ih,
      factor_sound ih⟩

/-! ## Completeness of the recursive parts -/

/-- What derives from the rules is taken by the recursive parts at a bound that leaves three steps
for each token, unless a connective follows. -/
structure CompleteAt (bound : Nat) : Prop where
  expression {ts f} (h : Expression ts f) (hbound : 3 * ts.length + 3 ≤ bound) {rest}
    (hrest : NotAhead [.keyword .and, .keyword .or] rest) :
    expression bound (ts ++ rest) = .ok (f, rest)
  disjunction {ts more} (h : Many (.keyword .or) Term ts more) (hbound : 3 * ts.length + 1 ≤ bound)
    {rest} (hrest : NotAhead [.keyword .and, .keyword .or] rest) (left) :
    disjunction bound left (ts ++ rest) = .ok (more.foldl (.binary .or) left, rest)
  term {ts f} (h : Term ts f) (hbound : 3 * ts.length + 2 ≤ bound) {rest}
    (hrest : NotAhead [.keyword .and] rest) : term bound (ts ++ rest) = .ok (f, rest)
  conjunction {ts more} (h : Many (.keyword .and) Factor ts more)
    (hbound : 3 * ts.length + 1 ≤ bound) {rest} (hrest : NotAhead [.keyword .and] rest) (left) :
    conjunction bound left (ts ++ rest) = .ok (more.foldl (.binary .and) left, rest)
  factor {ts f} (h : Factor ts f) (hbound : 3 * ts.length + 1 ≤ bound) (rest) :
    factor bound (ts ++ rest) = .ok (f, rest)

section Complete

variable {bound : Nat} {ts rest : List Token} {left f : Filter} {more : List Filter}

theorem expression_complete (ih : CompleteAt bound) (h : Expression ts f)
    (hbound : 3 * ts.length + 3 ≤ bound + 1)
    (hrest : NotAhead [.keyword .and, .keyword .or] rest) :
    expression (bound + 1) (ts ++ rest) = .ok (f, rest) := by
  obtain ⟨hfirst, hmore⟩ := h
  rename_i ts us first more
  rw [List.length_append] at hbound
  -- the disjuncts that follow begin with `OR`, which ends the first term
  have hand : NotAhead [.keyword .and] (us ++ rest) :=
    notAhead_many hmore (by decide) (hrest.mono (by simp))
  have hterm := ih.term hfirst (by omega) hand
  have hdisjunction := ih.disjunction hmore (by omega) hrest first
  rw [expression, List.append_assoc, hterm]
  exact hdisjunction

theorem disjunction_complete (ih : CompleteAt bound) (h : Many (.keyword .or) Term ts more)
    (hbound : 3 * ts.length + 1 ≤ bound + 1)
    (hrest : NotAhead [.keyword .and, .keyword .or] rest) (left : Filter) :
    disjunction (bound + 1) left (ts ++ rest) = .ok (more.foldl (.binary .or) left, rest) := by
  cases h with
  | nil =>
    rw [List.nil_append, disjunction]
    · rfl
    · -- no `OR` follows
      rintro literal pos tail rfl
      simp [notAhead_cons] at hrest
  | @cons t ts us right more ht hright hmore =>
    obtain ⟨literal, pos, rfl⟩ := exists_of_kind ht
    simp only [List.length_cons, List.length_append] at hbound
    have hand : NotAhead [.keyword .and] (us ++ rest) :=
      notAhead_many hmore (by decide) (hrest.mono (by simp))
    have hterm := ih.term hright (by omega) hand
    have hdisjunction := ih.disjunction hmore (by omega) hrest (.binary .or left right)
    rw [List.cons_append, List.append_assoc, disjunction, hterm]
    exact hdisjunction

theorem term_complete (ih : CompleteAt bound) (h : Term ts f)
    (hbound : 3 * ts.length + 2 ≤ bound + 1) (hrest : NotAhead [.keyword .and] rest) :
    term (bound + 1) (ts ++ rest) = .ok (f, rest) := by
  obtain ⟨hfirst, hmore⟩ := h
  rename_i ts us first more
  rw [List.length_append] at hbound
  have hfactor := ih.factor hfirst (by omega) (us ++ rest)
  have hconjunction := ih.conjunction hmore (by omega) hrest first
  rw [term, List.append_assoc, hfactor]
  exact hconjunction

theorem conjunction_complete (ih : CompleteAt bound) (h : Many (.keyword .and) Factor ts more)
    (hbound : 3 * ts.length + 1 ≤ bound + 1) (hrest : NotAhead [.keyword .and] rest)
    (left : Filter) :
    conjunction (bound + 1) left (ts ++ rest) = .ok (more.foldl (.binary .and) left, rest) := by
  cases h with
  | nil =>
    rw [List.nil_append, conjunction]
    · rfl
    · -- no `AND` follows
      rintro literal pos tail rfl
      simp [notAhead_cons] at hrest
  | @cons t ts us right more ht hright hmore =>
    obtain ⟨literal, pos, rfl⟩ := exists_of_kind ht
    simp only [List.length_cons, List.length_append] at hbound
    have hfactor := ih.factor hright (by omega) (us ++ rest)
    have hconjunction := ih.conjunction hmore (by omega) hrest (.binary .and left right)
    rw [List.cons_append, List.append_assoc, conjunction, hfactor]
    exact hconjunction

theorem factor_complete (ih : CompleteAt bound) (h : Factor ts f)
    (hbound : 3 * ts.length + 1 ≤ bound + 1) (rest : List Token) :
    factor (bound + 1) (ts ++ rest) = .ok (f, rest) := by
  cases h with
  | @not t ts f ht hinner =>
    obtain ⟨literal, pos, rfl⟩ := exists_of_kind ht
    rw [List.length_cons] at hbound
    have hfactor := ih.factor hinner (by omega) rest
    rw [List.cons_append, factor, hfactor]
    rfl
  | @parens open' close ts f hopen hinner hclose =>
    obtain ⟨literal, pos, rfl⟩ := exists_of_kind hopen
    obtain ⟨literal', pos', rfl⟩ := exists_of_kind hclose
    simp only [List.length_cons, List.length_append, List.length_nil] at hbound
    -- the closing parenthesis ends the expression
    have hend : NotAhead [.keyword .and, .keyword .or]
        (⟨.rightParen, literal', pos'⟩ :: rest) := by simp [notAhead_cons]
    have hexpression := ih.expression hinner (by omega) hend
    rw [List.cons_append, List.append_assoc, List.singleton_append, factor, hexpression]
    rfl
  | comparison hcomparison =>
    obtain ⟨literal, pos, us, rfl⟩ := exists_identifier hcomparison
    have htaken := comparison_complete hcomparison rest
    rw [List.cons_append] at htaken ⊢
    -- an identifier is neither `NOT` nor a parenthesis, so the last case of `factor` applies
    rw [factor, htaken]
    · exact fun _ _ _ h => nomatch h
    · exact fun _ _ _ h => nomatch h

end Complete

/-- Each step keeps completeness; no derivation is short enough for the bound 0. -/
theorem completeAt (bound : Nat) : CompleteAt bound := by
  induction bound with
  | zero =>
    -- every bound in the statements is positive
    constructor <;> intros <;> omega
  | succ bound ih =>
    exact ⟨fun h hbound _ hrest => expression_complete ih h hbound hrest,
      fun h hbound _ hrest left => disjunction_complete ih h hbound hrest left,
      fun h hbound _ hrest => term_complete ih h hbound hrest,
      fun h hbound _ hrest left => conjunction_complete ih h hbound hrest left,
      fun h hbound rest => factor_complete ih h hbound rest⟩

/-! ## Clauses -/

/-- The words for directions are different from each other, so a word names one direction. -/
theorem ofWord?_eq_some_iff {word : Text} {direction : Direction} :
    Direction.ofWord? word = some direction ↔
      ∃ name, word.toLower = Text.ofString name ∧ (name, direction) ∈ Direction.words := by
  have hdistinct : Direction.words.Pairwise fun a b => Text.ofString a.1 ≠ Text.ofString b.1 := by
    decide +kernel
  unfold Direction.ofWord?
  dsimp only
  -- induction on the table: the first word that fits is the only one
  generalize Direction.words = words at hdistinct
  induction words with
  | nil => simp
  | cons entry words ih =>
    rw [List.pairwise_cons] at hdistinct
    obtain ⟨hfirst, hrest⟩ := hdistinct
    rw [List.find?_cons]
    cases hentry : Text.ofString entry.1 == word.toLower with
    | true =>
      have hsame : Text.ofString entry.1 = word.toLower := by simpa using hentry
      constructor
      · intro h
        obtain rfl : entry.2 = direction := by simpa using h
        exact ⟨entry.1, hsame.symm, List.mem_cons_self⟩
      · rintro ⟨name, hname, hmem⟩
        obtain h | h := List.mem_cons.mp hmem
        · simp [← h]
        · exact absurd (hsame.trans hname) (hfirst _ h)
    | false =>
      have hother : Text.ofString entry.1 ≠ word.toLower := by simpa using hentry
      refine (ih hrest).trans (exists_congr fun name => and_congr_right fun hname => ?_)
      constructor
      · exact List.mem_cons_of_mem entry
      · intro h
        obtain h | h := List.mem_cons.mp h
        · exact absurd (by rw [hname, ← h]) hother
        · exact h

theorem depth_sound {tokens rest : List Token} {d : Depth} (h : depth tokens = .ok (d, rest)) :
    ∃ ts, tokens = ts ++ rest ∧ IsDepth ts d := by
  unfold depth at h
  split at h
  · obtain ⟨rfl, rfl⟩ := Except.ok_pair_inj h
    exact ⟨[_], rfl, .star rfl⟩
  · rename_i literal pos tail
    dsimp only at h
    split at h
    · -- a unit behind the digits
      exact nomatch h
    · split at h
      · -- zero
        exact nomatch h
      · split at h
        · -- more than the limit
          exact nomatch h
        · rename_i hwhole hleast hgreatest
          obtain ⟨rfl, rfl⟩ := Except.ok_pair_inj h
          have hwhole : isWholeNumber literal = true := by simpa using hwhole
          have hgreatest : wholeNumberValue literal ≤ 10 := by
            simp only [Depth.limit] at hgreatest
            omega
          exact ⟨[⟨.number, literal, pos⟩], rfl, .number rfl hwhole (by dsimp; omega) hgreatest⟩
  · exact absurd h (refuse_ne_ok _ _ _)

theorem depth_complete {ts : List Token} {d : Depth} (h : IsDepth ts d) (rest : List Token) :
    depth (ts ++ rest) = .ok (d, rest) := by
  cases h with
  | @star t ht =>
    obtain ⟨literal, pos, rfl⟩ := exists_of_kind ht
    rfl
  | @number t ht hwhole hleast hgreatest =>
    obtain ⟨literal, pos, rfl⟩ := exists_of_kind ht
    dsimp only at hwhole hleast hgreatest ⊢
    have hleast' : ¬ wholeNumberValue literal < 1 := by omega
    have hgreatest' : ¬ Depth.limit < wholeNumberValue literal := by
      simp only [Depth.limit]
      omega
    simp [depth, hwhole, hleast', hgreatest']

theorem expandClause_sound {tokens rest : List Token} {e : Option Expansion}
    (h : expandClause tokens = .ok (e, rest)) :
    ∃ ts, tokens = ts ++ rest ∧ Opt Expand ts e := by
  unfold expandClause at h
  split at h
  · rename_i literal pos tail
    simp only [Except.bind_eq_ok_iff, pure, Except.pure, Except.ok.injEq, Prod.mk.injEq] at h
    obtain ⟨⟨e, rest'⟩, hexpansion, rfl, rfl⟩ := h
    unfold expansion at hexpansion
    split at hexpansion
    · rename_i word pos' tail'
      split at hexpansion
      · -- not a word for a direction
        exact nomatch hexpansion
      · rename_i direction hdirection
        obtain ⟨name, hname, hmem⟩ := ofWord?_eq_some_iff.mp hdirection
        split at hexpansion
        · -- with a depth
          rename_i literal'' pos'' tail''
          simp only [Except.bind_eq_ok_iff, pure, Except.pure, Except.ok.injEq, Prod.mk.injEq]
            at hexpansion
          obtain ⟨⟨d, rest''⟩, hdepth, rfl, rfl⟩ := hexpansion
          obtain ⟨ts, rfl, hts⟩ := depth_sound hdepth
          refine ⟨⟨.keyword .expand, literal, pos⟩ :: ⟨.identifier, word, pos'⟩ ::
            ⟨.keyword .depth, literal'', pos''⟩ :: ts, rfl, .present ?_⟩
          exact .intro rfl rfl hname hmem (.present (.intro rfl hts))
        · -- without a depth
          obtain ⟨rfl, rfl⟩ := Except.ok_pair_inj hexpansion
          refine ⟨[⟨.keyword .expand, literal, pos⟩, ⟨.identifier, word, pos'⟩], rfl, .present ?_⟩
          exact .intro rfl rfl hname hmem .missing
    · exact absurd hexpansion (refuse_ne_ok _ _ _)
  · obtain ⟨rfl, rfl⟩ := Except.ok_pair_inj h
    exact ⟨[], rfl, .missing⟩

/-- A clause is taken unless it has no depth and one follows. -/
theorem expandClause_present {ts rest : List Token} {e : Expansion} (h : Expand ts e)
    (hrest : ts.length = 2 → NotAhead [.keyword .depth] rest) :
    expandClause (ts ++ rest) = .ok (some e, rest) := by
  cases h with
  | @intro t word ts name direction d ht hword hname hdirection hdepth =>
    obtain ⟨literal, pos, rfl⟩ := exists_of_kind ht
    obtain ⟨word, pos', rfl⟩ := exists_of_kind hword
    have hnamed : Direction.ofWord? word = some direction :=
      ofWord?_eq_some_iff.mpr ⟨name, hname, hdirection⟩
    cases hdepth with
    | missing =>
      -- without a depth of its own the clause must not be followed by one
      have hrest : NotAhead [.keyword .depth] rest := hrest rfl
      have hexpansion : expansion (⟨.identifier, word, pos'⟩ :: rest) =
          .ok (⟨direction, .levels 1⟩, rest) := by
        rw [expansion, hnamed]
        dsimp only
        split
        · simp [notAhead_cons] at hrest
        · rfl
      rw [List.cons_append, List.cons_append, List.nil_append, expandClause, hexpansion]
      rfl
    | present hdepth =>
      obtain @⟨t, ts, d, ht, hdepth⟩ := hdepth
      obtain ⟨literal', pos'', rfl⟩ := exists_of_kind ht
      simp only [List.cons_append, expandClause, expansion, hnamed, depth_complete hdepth, bind,
        Except.bind, pure, Except.pure, Option.getD_some]

theorem expandClause_complete {ts rest : List Token} {e : Option Expansion}
    (h : Opt Expand ts e) (hrest : NotAhead [.keyword .expand, .keyword .depth] rest) :
    expandClause (ts ++ rest) = .ok (e, rest) := by
  cases h with
  | missing =>
    -- nothing that follows can be taken for the clause
    rw [List.nil_append, expandClause]
    rintro literal pos tail rfl
    simp [notAhead_cons] at hrest
  | present h => exact expandClause_present h fun _ => hrest.mono (by simp)

theorem descending_sound (field : Text) (pos : Nat) (tokens : List Token) :
    ∃ ts, tokens = ts ++ (descending tokens).2 ∧
      IsOrderTerm (⟨.identifier, field, pos⟩ :: ts) ⟨field, (descending tokens).1⟩ := by
  unfold descending
  split
  · exact ⟨[_], rfl, .asc rfl rfl⟩
  · exact ⟨[_], rfl, .desc rfl rfl⟩
  · exact ⟨[], rfl, .plain rfl⟩

theorem descending_keeps (tokens : List Token) :
    ∃ ts, tokens = ts ++ (descending tokens).2 ∧
      ∀ us, us.head? = (descending tokens).2.head? →
        descending (ts ++ us) = ((descending tokens).1, us) := by
  unfold descending
  split
  · rename_i literal pos rest
    exact ⟨[⟨.keyword .asc, literal, pos⟩], rfl, fun us _ => rfl⟩
  · rename_i literal pos rest
    exact ⟨[⟨.keyword .desc, literal, pos⟩], rfl, fun us _ => rfl⟩
  · rename_i hasc hdesc
    have hnone : NotAhead [.keyword .asc, .keyword .desc] tokens :=
      notAhead_iff.mpr (by simpa using ⟨hasc, hdesc⟩)
    refine ⟨[], rfl, fun us hus => ?_⟩
    have hnone' := hnone.congr hus
    rw [List.nil_append]
    split
    · simp [notAhead_cons] at hnone'
    · simp [notAhead_cons] at hnone'
    · rfl

/-- The terms that are taken are order terms, and are taken again in front of the same token. -/
theorem orderTerms_keeps {bound : Nat} {tokens rest : List Token} {terms : List OrderTerm}
    (h : orderTerms bound tokens = .ok (terms, rest)) :
    ∃ ts, tokens = ts ++ rest ∧ Separated .comma IsOrderTerm ts terms ∧
      ∀ us, us.head? = rest.head? → ∀ bound, ts.length + us.length < bound →
        orderTerms bound (ts ++ us) = .ok (terms, us) := by
  -- induction on the bound: each term takes one step of it
  induction bound generalizing tokens terms with
  | zero => exact absurd h (refuse_ne_ok _ _ _)
  | succ bound ih =>
    unfold orderTerms at h
    split at h
    · rename_i field pos tail
      obtain ⟨ts, htail, hterm⟩ := descending_sound field pos tail
      obtain ⟨ts', htail', hagain⟩ := descending_keeps tail
      obtain rfl := List.append_cancel_right (htail.symm.trans htail')
      dsimp only at h
      split at h
      · -- a comma, so another term follows
        rename_i literal pos' tail' hcomma
        simp only [Except.bind_eq_ok_iff, pure, Except.pure, Except.ok.injEq, Prod.mk.injEq] at h
        obtain ⟨⟨more, rest'⟩, hmore, rfl, rfl⟩ := h
        obtain ⟨us, rfl, @⟨vs, ws, second, others, hsecond, hothers⟩, hus⟩ := ih hmore
        rw [hcomma] at htail hagain
        refine ⟨⟨.identifier, field, pos⟩ :: ts ++ ⟨.comma, literal, pos'⟩ :: (vs ++ ws),
          by simp [htail], .intro hterm (.cons rfl hsecond hothers), ?_⟩
        rintro left hleft (_ | bound') hbound'
        · omega
        · simp only [List.length_append, List.length_cons] at hbound'
          have hterms := hus left hleft bound' (by rw [List.length_append]; omega)
          have hdescending := hagain (⟨.comma, literal, pos'⟩ :: (vs ++ ws ++ left)) rfl
          simp only [List.cons_append, List.append_assoc] at hdescending hterms ⊢
          simp only [orderTerms, hdescending, hterms, bind, Except.bind, pure, Except.pure]
      · rename_i hcomma
        obtain ⟨rfl, rfl⟩ := Except.ok_pair_inj h
        refine ⟨⟨.identifier, field, pos⟩ :: ts ++ [], ?_, .intro hterm .nil, ?_⟩
        · rw [List.append_nil, List.cons_append, ← htail]
        · rintro left hleft (_ | bound') hbound'
          · omega
          · have hnone : NotAhead [.comma] left :=
              NotAhead.congr (notAhead_iff.mpr (by simpa using hcomma)) hleft
            rw [List.append_nil, List.cons_append, orderTerms, hagain left hleft]
            dsimp only
            split
            · simp [notAhead_cons] at hnone
            · rfl
    · exact absurd h (refuse_ne_ok _ _ _)

theorem descending_complete {ts rest : List Token} {term : OrderTerm} (h : IsOrderTerm ts term)
    (hrest : NotAhead [.keyword .asc, .keyword .desc] rest) :
    ∃ pos us, ts = ⟨.identifier, term.field, pos⟩ :: us ∧
      descending (us ++ rest) = (term.descending, rest) := by
  cases h with
  | @plain field hfield =>
    obtain ⟨literal, pos, rfl⟩ := exists_of_kind hfield
    refine ⟨pos, [], rfl, ?_⟩
    rw [List.nil_append]
    unfold descending
    split
    · simp [notAhead_cons] at hrest
    · simp [notAhead_cons] at hrest
    · rfl
  | @asc field word hfield hword | @desc field word hfield hword =>
    obtain ⟨literal, pos, rfl⟩ := exists_of_kind hfield
    obtain ⟨kind, literal', pos'⟩ := word
    obtain rfl := hword
    exact ⟨pos, _, rfl, rfl⟩

/-- Every order term takes a token, so the bound lasts if it is above the number of tokens. -/
theorem orderTerms_complete {ts us rest : List Token} {first : OrderTerm} {more : List OrderTerm}
    (hfirst : IsOrderTerm ts first) (hmore : Many .comma IsOrderTerm us more)
    (hrest : NotAhead [.keyword .asc, .keyword .desc, .comma] rest) {bound : Nat}
    (hbound : us.length < bound) :
    orderTerms bound (ts ++ (us ++ rest)) = .ok (first :: more, rest) := by
  -- induction on the terms that follow; each takes a comma, so the bound lasts
  induction hmore generalizing ts first bound with
  | nil =>
    obtain ⟨bound, rfl⟩ : ∃ b, bound = b + 1 := ⟨bound - 1, by omega⟩
    obtain ⟨pos, vs, rfl, hdescending⟩ :=
      descending_complete hfirst (hrest.mono (by simp) : NotAhead [.keyword .asc, .keyword .desc] _)
    rw [List.nil_append, List.cons_append, orderTerms, hdescending]
    dsimp only
    split
    · simp [notAhead_cons] at hrest
    · rfl
  | @cons t us vs second more ht hsecond hmore ih =>
    obtain ⟨bound, rfl⟩ : ∃ b, bound = b + 1 := ⟨bound - 1, by omega⟩
    obtain ⟨literal, pos, rfl⟩ := exists_of_kind ht
    have hend : NotAhead [.keyword .asc, .keyword .desc]
        (⟨.comma, literal, pos⟩ :: (us ++ (vs ++ rest))) := by simp [notAhead_cons]
    obtain ⟨pos', ws, rfl, hdescending⟩ := descending_complete hfirst hend
    simp only [List.length_cons, List.length_append] at hbound
    have hothers := ih hsecond (by omega : vs.length < bound)
    rw [List.cons_append, List.cons_append, List.append_assoc, orderTerms, hdescending]
    simp only [hothers, bind, Except.bind, pure, Except.pure]

theorem orderClause_sound {tokens rest : List Token} {terms : List OrderTerm}
    (h : orderClause tokens = .ok (terms, rest)) :
    ∃ ts written, tokens = ts ++ rest ∧ Opt OrderBy ts written ∧ terms = written.getD [] := by
  unfold orderClause at h
  split at h
  · unfold order at h
    split at h
    · obtain ⟨ts, rfl, hts, -⟩ := orderTerms_keeps h
      exact ⟨_ :: _ :: ts, some terms, rfl, .present (.intro rfl rfl hts), rfl⟩
    · exact absurd h (refuse_ne_ok _ _ _)
  · obtain ⟨rfl, rfl⟩ := Except.ok_pair_inj h
    exact ⟨[], none, rfl, .missing, rfl⟩

theorem orderClause_complete {ts : List Token} {written : Option (List OrderTerm)}
    (h : Opt OrderBy ts written) : orderClause ts = .ok (written.getD [], []) := by
  cases h with
  | missing => rfl
  | present h =>
    obtain @⟨t, byWord, ts, terms, ht, hby, hterms⟩ := h
    obtain ⟨literal, pos, rfl⟩ := exists_of_kind ht
    obtain ⟨literal', pos', rfl⟩ := exists_of_kind hby
    obtain @⟨us, vs, first, more, hfirst, hmore⟩ := hterms
    have htaken := orderTerms_complete hfirst hmore (notAhead_nil _)
      (by rw [List.length_append]; omega : vs.length < (us ++ vs).length + 1)
    rw [List.append_nil] at htaken
    rw [orderClause, order, htaken]
    rfl

/-! ## Queries -/

/-- An expression begins with a word or a parenthesis, so with neither of the clauses. -/
theorem exists_head {ts : List Token} {f : Filter} (h : Expression ts f) :
    ∃ t us, ts = t :: us ∧ t.kind ∈ [.identifier, .keyword .not, .leftParen] := by
  obtain @⟨ts, us, f, more, ⟨hfactor, hfactors⟩, hterms⟩ := h
  cases hfactor with
  | not ht hinner => exact ⟨_, _, rfl, by simp [ht]⟩
  | parens hopen hinner hclose => exact ⟨_, _, rfl, by simp [hopen]⟩
  | comparison hcomparison =>
    obtain ⟨literal, pos, vs, rfl⟩ := exists_identifier hcomparison
    exact ⟨_, _, rfl, by simp⟩

theorem filter_sound {tokens rest : List Token} {f : Option Filter}
    (h : filter tokens = .ok (f, rest)) : ∃ ts, tokens = ts ++ rest ∧ Opt Expression ts f := by
  have hnothing {tokens : List Token} {result : Except Failure (Parsed (Option Filter))}
      (hresult : result = .ok (none, tokens)) (h : result = .ok (f, rest)) :
      ∃ ts, tokens = ts ++ rest ∧ Opt Expression ts f := by
    rw [hresult] at h
    obtain ⟨rfl, rfl⟩ := Except.ok_pair_inj h
    exact ⟨[], rfl, .missing⟩
  unfold filter at h
  split at h
  · exact hnothing rfl h
  · exact hnothing rfl h
  · exact hnothing rfl h
  · simp only [Except.bind_eq_ok_iff, pure, Except.pure, Except.ok.injEq, Prod.mk.injEq] at h
    obtain ⟨⟨f, rest'⟩, hexpression, rfl, rfl⟩ := h
    obtain ⟨ts, rfl, hts⟩ := (soundAt _).expression hexpression
    exact ⟨ts, rfl, .present hts⟩

theorem filter_present {ts rest : List Token} {f : Filter} (h : Expression ts f)
    (hrest : NotAhead [.keyword .and, .keyword .or] rest) :
    filter (ts ++ rest) = .ok (some f, rest) := by
  have hexpression := (completeAt (3 * (ts ++ rest).length + 3)).expression h
    (by rw [List.length_append]; omega) hrest
  obtain ⟨⟨kind, literal, pos⟩, us, rfl, hkind⟩ := exists_head h
  -- the tokens of an expression do not look like the end or like a clause
  unfold filter
  split
  · rename_i heq
    exact nomatch heq
  · rename_i heq
    obtain rfl : kind = .keyword .expand := congrArg Token.kind (List.cons.inj heq).1
    exact absurd hkind (by simp)
  · rename_i heq
    obtain rfl : kind = .keyword .order := congrArg Token.kind (List.cons.inj heq).1
    exact absurd hkind (by simp)
  · rw [hexpression]
    rfl

theorem filter_complete {ts rest : List Token} {f : Option Filter} (h : Opt Expression ts f)
    (hrest : rest = [] ∨ ∃ t us, rest = t :: us ∧ t.kind ∈ [.keyword .expand, .keyword .order]) :
    filter (ts ++ rest) = .ok (f, rest) := by
  cases h with
  | missing =>
    obtain rfl | ⟨⟨kind, literal, pos⟩, us, rfl, hkind⟩ := hrest
    · rfl
    · simp only [List.mem_cons, List.not_mem_nil, or_false] at hkind
      obtain rfl | rfl := hkind <;> rfl
  | @present _ f h =>
    -- whatever follows begins with the word of a clause
    refine filter_present h ?_
    obtain rfl | ⟨t, us, rfl, hkind⟩ := hrest
    · exact notAhead_nil _
    · rw [notAhead_cons]
      simp only [List.mem_cons, List.not_mem_nil, or_false] at hkind
      obtain hkind | hkind := hkind <;> simp [hkind]

theorem query_sound {tokens : List Token} {q : Query} (h : query tokens = .ok q) :
    Derives tokens q := by
  simp only [query, Except.bind_eq_ok_iff] at h
  obtain ⟨⟨f, rest₁⟩, hfilter, ⟨e, rest₂⟩, hexpand, ⟨terms, rest₃⟩, horder, h⟩ := h
  dsimp only at hexpand horder h
  split at h
  · obtain rfl := Except.ok.inj h
    obtain ⟨ts, rfl, hts⟩ := filter_sound hfilter
    obtain ⟨us, rfl, hus⟩ := expandClause_sound hexpand
    obtain ⟨vs, written, rfl, hvs, rfl⟩ := orderClause_sound horder
    rw [List.append_nil]
    exact .intro hts hus hvs
  · -- tokens are left over
    exact nomatch h

theorem query_complete {tokens : List Token} {q : Query} (h : Derives tokens q) :
    query tokens = .ok q := by
  obtain @⟨ts, us, vs, f, e, written, hfilter, hexpand, horder⟩ := h
  -- each clause begins with a word of its own, so the part before it ends there
  have hvs : vs = [] ∨ ∃ t ws, vs = t :: ws ∧ t.kind = .keyword .order := by
    cases horder with
    | missing => exact .inl rfl
    | present h =>
      obtain ⟨ht, -, -⟩ := h
      exact .inr ⟨_, _, rfl, ht⟩
  have hus : us ++ vs = [] ∨
      ∃ t ws, us ++ vs = t :: ws ∧ t.kind ∈ [.keyword .expand, .keyword .order] := by
    cases hexpand with
    | missing =>
      obtain rfl | ⟨t, ws, rfl, ht⟩ := hvs
      · exact .inl rfl
      · exact .inr ⟨t, ws, rfl, by simp [ht]⟩
    | present h =>
      obtain ⟨ht, -, -, -, -⟩ := h
      exact .inr ⟨_, _, rfl, by simp [ht]⟩
  have hend : NotAhead [.keyword .expand, .keyword .depth] vs := by
    obtain rfl | ⟨t, ws, rfl, ht⟩ := hvs
    · exact notAhead_nil _
    · simp [notAhead_cons, ht]
  simp only [query, filter_complete hfilter hus, expandClause_complete hexpand hend,
    orderClause_complete horder, bind, Except.bind, pure, Except.pure]

/-- The parser takes exactly the token lists that derive from the grammar. -/
theorem query_eq_ok_iff {tokens : List Token} {q : Query} :
    query tokens = .ok q ↔ Derives tokens q :=
  ⟨query_sound, query_complete⟩

end Parser

theorem Query.parse_eq_ok_iff {text : Text} {q : Query} :
    Query.parse text = .ok q ↔ Derives text.properTokens q := by
  rw [← Parser.query_eq_ok_iff, Query.parse]
  cases Parser.query text.properTokens with
  | error e => constructor <;> intro h <;> cases h
  | ok parsed => constructor <;> intro h <;> cases h <;> rfl

/-- The parser gives a query for a text exactly if the tokens of the text derive from the grammar,
and it is the one query that they derive. For every other text it gives an error. -/
theorem Query.parse_iff_derives (text : Text) :
    (∀ q, Query.parse text = .ok q ↔ Derives text.properTokens q) ∧
      (∀ q q', Derives text.properTokens q → Derives text.properTokens q' → q = q') ∧
      ((∃ e, Query.parse text = .error e) ↔ ¬ ∃ q, Derives text.properTokens q) := by
  have hparse (q : Query) : Query.parse text = .ok q ↔ Derives text.properTokens q :=
    Query.parse_eq_ok_iff
  refine ⟨hparse, fun q q' hq hq' => ?_, ?_⟩
  · have hsame := ((hparse q).mpr hq).symm.trans ((hparse q').mpr hq')
    exact Except.ok.inj hsame
  · simp only [← hparse]
    cases Query.parse text <;> simp

end IssueQuery
