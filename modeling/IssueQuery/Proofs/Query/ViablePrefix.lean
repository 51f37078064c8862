import IssueQuery.Proofs.Query.ParserCorrect

/-!
# Failures at the first wrong token

A part of the parser that fails has taken tokens which can be continued to something that derives
from its rule, and it fails whatever stands behind the token at which it failed. So no error is
found late, and none is found early. Only after the name of a field two tokens are looked at, for
`NOT IN`.

* `Grammar.Begins`          the tokens with which an accepted sequence can begin;
* `Parser.Stops`            what holds of a failure, for any part of the grammar;
* `Stops.behind`            the same for the part of the grammar around it;
* `comparison_stops`        what holds of comparisons, the innermost part with a choice.
-/

namespace IssueQuery

namespace Grammar

/-! ## Accepted sequences of tokens -/

/-- The tokens derive from the grammar, and the end of the input is behind them. -/
def Accepts (tokens : List Token) : Prop :=
  ∃ ts q t, tokens = ts ++ [t] ∧ t.kind = .endOfInput ∧ Derives ts q

/-- The tokens can be continued to an accepted sequence. -/
def Begins (tokens : List Token) : Prop := ∃ more, Accepts (tokens ++ more)

/-- The token is the name of a field behind the ones before it: whatever is said of a field can be
said of it. -/
def NamesField (before : List Token) (field : Token) : Prop :=
  field.kind = .identifier ∧
    ∀ ts leaf, Comparison (field :: ts) leaf → Begins (before ++ field :: ts)

theorem begins_of_derives {ts : List Token} (more : List Token) {q : Query}
    (h : Derives (ts ++ more) q) : Begins ts :=
  ⟨more ++ [⟨.endOfInput, [], 0⟩], ts ++ more, q, ⟨.endOfInput, [], 0⟩,
    (List.append_assoc ..).symm, rfl, h⟩

/-! ## The end of the input is no part of a query -/

/-- None of the tokens is the end of the input. -/
def Proper (ts : List Token) : Prop := ∀ t ∈ ts, t.kind ≠ .endOfInput

@[simp] theorem proper_nil : Proper [] := by simp [Proper]

@[simp] theorem proper_cons {t : Token} {ts : List Token} :
    Proper (t :: ts) ↔ t.kind ≠ .endOfInput ∧ Proper ts := by
  simp [Proper]

@[simp] theorem proper_append {ts us : List Token} :
    Proper (ts ++ us) ↔ Proper ts ∧ Proper us := by
  simp only [Proper, List.mem_append, or_imp, forall_and]

theorem proper_of_many {α : Type} {separator : TokenKind} {item : Rule α} {ts : List Token}
    {as : List α} (h : Many separator item ts as) (hseparator : separator ≠ .endOfInput)
    (hitem : ∀ us a, item us a → Proper us) : Proper ts := by
  induction h with
  | nil => simp
  | cons ht first more ih => simp [ht, hseparator, hitem _ _ first, ih]

theorem proper_of_isValue (us : List Token) (v : Value) (h : IsValue us v) : Proper us := by
  cases h with
  | string ht | number ht | true ht | false ht | word ht => simp [ht]

theorem proper_of_valueList {ts : List Token} {values : List Value} (h : ValueList ts values) :
    Proper ts := by
  obtain ⟨hopen, ⟨first, more⟩, hclose⟩ := h
  have hmore := proper_of_many more (by simp) proper_of_isValue
  simp [hopen, hclose, proper_of_isValue _ _ first, hmore]

theorem proper_of_comparison {ts : List Token} {leaf : Leaf} (h : Comparison ts leaf) :
    Proper ts := by
  cases h with
  | compare hfield hoperator hvalue => simp [hfield, hoperator, proper_of_isValue _ _ hvalue]
  | oneOf hfield hin hvalues => simp [hfield, hin, proper_of_valueList hvalues]
  | noneOf hfield hnot hin hvalues => simp [hfield, hnot, hin, proper_of_valueList hvalues]

theorem proper_of_expression {ts : List Token} {f : Filter} (h : Expression ts f) : Proper ts := by
  have hjoined {separator : TokenKind} {us vs : List Token} {more : List Filter}
      (hseparator : separator ≠ .endOfInput) (hfirst : Proper us)
      (hmore : Many separator (fun us _ => Proper us) vs more) : Proper (us ++ vs) := by
    simp [hfirst, proper_of_many hmore hseparator fun _ _ h => h]
  have hcompositional : Compositional (fun us _ => Proper us) (fun us _ => Proper us)
      (fun us _ => Proper us) :=
    { expression := hjoined (by simp)
      term := hjoined (by simp)
      not := fun ht h => by simp [ht, h]
      parens := fun hopen h hclose => by simp [hopen, hclose, h]
      comparison := proper_of_comparison }
  exact hcompositional.of_expression h

theorem proper_of_opt {α : Type} {item : Rule α} {ts : List Token} {a : Option α}
    (h : Opt item ts a) (hitem : ∀ a, item ts a → Proper ts) : Proper ts := by
  cases h with
  | missing => simp
  | present h => exact hitem _ h

theorem proper_of_expand {ts : List Token} (e : Expansion) (h : Expand ts e) : Proper ts := by
  obtain ⟨ht, hword, -, -, hdepth⟩ := h
  have hclause := proper_of_opt hdepth fun d hd => by
    obtain ⟨ht, h⟩ := hd
    cases h with
    | star hstar => simp [ht, hstar]
    | number hnumber _ _ _ => simp [ht, hnumber]
  simp [ht, hword, hclause]

theorem proper_of_isOrderTerm (us : List Token) (term : OrderTerm) (h : IsOrderTerm us term) :
    Proper us := by
  cases h with
  | plain hfield => simp [hfield]
  | asc hfield hword | desc hfield hword => simp [hfield, hword]

theorem proper_of_orderBy {ts : List Token} (terms : List OrderTerm) (h : OrderBy ts terms) :
    Proper ts := by
  obtain ⟨ht, hby, ⟨first, more⟩⟩ := h
  have hmore := proper_of_many more (by simp) proper_of_isOrderTerm
  simp [ht, hby, proper_of_isOrderTerm _ _ first, hmore]

theorem proper_of_derives {ts : List Token} {q : Query} (h : Derives ts q) : Proper ts := by
  obtain ⟨hfilter, hexpand, horder⟩ := h
  simp [proper_of_opt hfilter fun _ => proper_of_expression,
    proper_of_opt hexpand proper_of_expand, proper_of_opt horder proper_of_orderBy]

end Grammar

namespace Parser

open Grammar

variable {α β : Type} {f : Failure} {tokens rest : List Token}

/-! ## Failures that stay -/

/-- Whether the tokens go on with `NOT IN`. -/
def startsNotIn : List Token → Bool
  | ⟨.keyword .not, _, _⟩ :: ⟨.keyword .inList, _, _⟩ :: _ => true
  | _ => false

/-- The failure would be the same if these tokens were left: the first of them is the one at which
the parser failed, and if an operator was asked for there, then they do not go on with `NOT IN`. -/
structure Failure.Persists (f : Failure) (left : List Token) : Prop where
  head : left.head? = f.left.head?
  operator : f.cause = .expected .comparisonOperator → startsNotIn left = false

/-- The parser gives an error. -/
def Fails (parse : List Token → Except Failure β) (tokens : List Token) : Prop :=
  ∃ f, parse tokens = .error f

/-- What holds of the tokens taken before a failure. They can be continued to something that derives
from the rule. If an operator was asked for, then the last of them names a field, and `NOT IN` does
not follow. Whatever may be left behind the token at which the parser failed, it fails. -/
structure Blocked (rule : Rule α) (fails : List Token → Prop) (f : Failure) (before : List Token) :
    Prop where
  viable : ∃ more a, rule (before ++ more) a
  field : f.cause = .expected .comparisonOperator → startsNotIn f.left = false ∧
    ∃ first field, before = first ++ [field] ∧ field.kind = .identifier ∧
      ∀ ts leaf, Comparison (field :: ts) leaf → ∃ more a, rule (first ++ (field :: ts ++ more)) a
  final : ∀ left, f.Persists left → fails (before ++ left)

/-- The parser failed at the first token that could not be taken. -/
def Stops (rule : Rule α) (fails : List Token → Prop) (tokens : List Token) (f : Failure) : Prop :=
  ∃ before, tokens = before ++ f.left ∧ Blocked rule fails f before

theorem head?_append_congr {before left left' : List Token} (h : left.head? = left'.head?) :
    (before ++ left).head? = (before ++ left').head? := by
  rw [List.head?_append, List.head?_append, h]

/-- Something else than an operator was asked for at the very first token. -/
theorem Stops.here {rule : Rule α} {fails : List Token → Prop}
    (hcause : f.cause ≠ .expected .comparisonOperator) (hrule : ∃ ts a, rule ts a)
    (hfails : ∀ left, left.head? = f.left.head? → fails left) : Stops rule fails f.left f :=
  ⟨[], rfl, hrule, fun h => absurd h hcause, fun left hleft => hfails left hleft.head⟩

/-- The parser took some tokens, and then a part of it failed. -/
theorem Stops.behind {rule : Rule α} {rule' : Rule β} {fails fails' : List Token → Prop}
    (taken : List Token) (h : Stops rule' fails' rest f)
    (hrule : ∀ us b, rule' us b → ∃ more a, rule (taken ++ (us ++ more)) a)
    (hfails : ∀ us, us.head? = rest.head? → fails' us → fails (taken ++ us)) :
    Stops rule fails (taken ++ rest) f := by
  obtain ⟨before, rfl, hviable, hfield, hfinal⟩ := h
  refine ⟨taken ++ before, (List.append_assoc ..).symm, ?_, fun hcause => ?_, fun left hleft => ?_⟩
  · obtain ⟨more, b, hb⟩ := hviable
    obtain ⟨more', a, ha⟩ := hrule _ b hb
    exact ⟨more ++ more', a, by simpa using ha⟩
  · obtain ⟨hnotIn, first, field, rfl, hkind, hcomparison⟩ := hfield hcause
    refine ⟨hnotIn, taken ++ first, field, (List.append_assoc ..).symm, hkind, fun ts leaf hts => ?_⟩
    obtain ⟨more, b, hb⟩ := hcomparison ts leaf hts
    obtain ⟨more', a, ha⟩ := hrule _ b hb
    exact ⟨more ++ more', a, by simpa using ha⟩
  · rw [List.append_assoc]
    exact hfails _ (head?_append_congr hleft.head) (hfinal left hleft)

/-- The parser took some tokens, and then asked for something else than the next one. -/
theorem Stops.next {rule : Rule α} {fails : List Token → Prop} (taken : List Token)
    (hcause : f.cause ≠ .expected .comparisonOperator) (hrule : ∃ ts a, rule (taken ++ ts) a)
    (hfails : ∀ left, left.head? = f.left.head? → fails (taken ++ left)) :
    Stops rule fails (taken ++ f.left) f := by
  have hhere : Stops (fun us a => rule (taken ++ us) a) (fun us => fails (taken ++ us)) f.left f :=
    .here hcause hrule hfails
  exact hhere.behind taken (fun us a ha => ⟨[], a, by simpa using ha⟩) fun _ _ hus => hus

/-- A bound computation fails if one of its parts does. -/
theorem bind_eq_error_iff {x : Except Failure α} {k : α → Except Failure β} :
    (x >>= k) = .error f ↔ x = .error f ∨ ∃ a, x = .ok a ∧ k a = .error f := by
  cases x with
  | error e => simp [bind, Except.bind]
  | ok a => simp [bind, Except.bind]

theorem refuse_eq (what : Expectation) (tokens : List Token) : ∃ cause,
    (refuse what tokens : Except Failure (Parsed α)) = .error ⟨cause, tokens⟩ ∧
      (cause = .expected what ∨ cause = .illegal ∧ ∃ t ∈ tokens.head?, t.kind = .illegal) := by
  unfold refuse
  split
  · split
    · rename_i t rest hillegal
      exact ⟨_, rfl, .inr ⟨rfl, t, rfl, hillegal⟩⟩
    · exact ⟨_, rfl, .inl rfl⟩
  · exact ⟨_, rfl, .inl rfl⟩

/-- A token is refused where it stands, and for no other reason than that it is not what was asked
for. -/
theorem of_refuse {what : Expectation}
    (h : (refuse what tokens : Except Failure (Parsed α)) = .error f) :
    f.left = tokens ∧ (what ≠ .comparisonOperator → f.cause ≠ .expected .comparisonOperator) := by
  obtain ⟨cause, hrefuse, hcause⟩ := refuse_eq (α := α) what tokens
  obtain rfl := Except.error.inj (hrefuse.symm.trans h)
  refine ⟨rfl, fun hwhat hsame => ?_⟩
  obtain rfl | ⟨rfl, -⟩ := hcause
  · exact hwhat (ParseError.Cause.expected.inj hsame)
  · cases hsame

theorem fails_refuse (what : Expectation) {parse : List Token → Except Failure (Parsed α)}
    (h : parse tokens = refuse what tokens) : Fails parse tokens := by
  obtain ⟨cause, hrefuse, -⟩ := refuse_eq (α := α) what tokens
  exact ⟨_, h.trans hrefuse⟩

/-! ## Values -/

/-- The next token, if there is one, is no value. -/
def NoValueAhead (tokens : List Token) : Prop := ∀ t ∈ tokens.head?, valueOf? t = none

theorem NoValueAhead.congr {us : List Token} (h : NoValueAhead rest)
    (hhead : us.head? = rest.head?) : NoValueAhead us := by
  rw [NoValueAhead, hhead]
  exact h

theorem value_refuse (h : NoValueAhead tokens) : value tokens = refuse .value tokens := by
  cases tokens with
  | nil => rfl
  | cons t rest =>
    have ht : valueOf? t = none := h t rfl
    rw [value, ht]

theorem noValueAhead_of_value (h : value tokens = .error f) : NoValueAhead tokens := by
  cases tokens with
  | nil => simp [NoValueAhead]
  | cons t rest =>
    cases ht : valueOf? t with
    | none => simpa [NoValueAhead] using ht
    | some v => simp [value, ht] at h

/-- A truth value, which can stand wherever a value can. -/
def sampleValue : Token := ⟨.keyword .trueWord, [], 0⟩

theorem isValue_sample : IsValue [sampleValue] (.bool [] true) := .true rfl

/-- A closing parenthesis. -/
def sampleClose : Token := ⟨.rightParen, [], 0⟩

theorem value_stops (h : value tokens = .error f) : Stops IsValue (Fails value) tokens f := by
  have hnone := noValueAhead_of_value h
  obtain ⟨rfl, hcause⟩ := of_refuse ((value_refuse hnone).symm.trans h)
  exact .here (hcause (by simp)) ⟨_, _, isValue_sample⟩ fun left hleft =>
    fails_refuse .value (value_refuse (hnone.congr hleft))

/-- The values behind the first one of a list, with the parenthesis that closes it. -/
def ClosedValues : Rule (List Value) := fun ts values =>
  ∃ us close, ts = us ++ [close] ∧ Many .comma IsValue us values ∧ close.kind = .rightParen

theorem moreValues_refuse_value (comma : Token) (hcomma : comma.kind = .comma)
    (h : NoValueAhead tokens) : moreValues (comma :: tokens) = refuse .value tokens := by
  obtain ⟨literal, pos, rfl⟩ := exists_of_kind hcomma
  cases tokens with
  | nil => rfl
  | cons t rest =>
    have ht : valueOf? t = none := h t rfl
    rw [moreValues, ht]

theorem moreValues_refuse_close (h : NotAhead [.comma, .rightParen] tokens) :
    moreValues tokens = refuse .closeParen tokens := by
  rw [moreValues]
  · rintro literal pos t rest rfl
    simp [notAhead_cons] at h
  · rintro literal pos rfl
    simp [notAhead_cons] at h
  · rintro literal pos rest rfl
    simp [notAhead_cons] at h

/-- A comma was taken, and no value is behind it. -/
theorem moreValues_stops_value (literal : Text) (pos : Nat) (hnone : NoValueAhead tokens)
    (h : moreValues (⟨.comma, literal, pos⟩ :: tokens) = .error f) :
    Stops ClosedValues (Fails moreValues) (⟨.comma, literal, pos⟩ :: tokens) f := by
  obtain ⟨rfl, hcause⟩ := of_refuse ((moreValues_refuse_value _ rfl hnone).symm.trans h)
  refine .next [⟨.comma, literal, pos⟩] (hcause (by simp))
    ⟨[sampleValue, sampleClose], [.bool [] true], ?_⟩ fun left hleft => ?_
  · have hitem : Many .comma IsValue (⟨.comma, literal, pos⟩ :: ([sampleValue] ++ []))
        [.bool [] true] := .cons rfl isValue_sample .nil
    exact ⟨_, sampleClose, rfl, hitem, rfl⟩
  · obtain ⟨cause, hrefuse, -⟩ := refuse_eq (α := List Value) .value left
    exact ⟨_, (moreValues_refuse_value _ rfl (hnone.congr hleft)).trans hrefuse⟩

theorem moreValues_stops (h : moreValues tokens = .error f) :
    Stops ClosedValues (Fails moreValues) tokens f := by
  -- the cases of `moreValues`: a comma with and without a value, a parenthesis, anything else
  induction tokens using moreValues.induct with
  | case1 literal pos t rest v hv ih =>
    simp only [moreValues, hv, bind_eq_error_iff, pure, Except.pure, reduceCtorEq, and_false,
      exists_false, or_false] at h
    refine (ih h).behind [⟨.comma, literal, pos⟩, t] ?_ ?_
    · rintro us values ⟨ts, close, rfl, hts, hclose⟩
      have hitem : Many .comma IsValue (⟨.comma, literal, pos⟩ :: ([t] ++ ts)) (v :: values) :=
        .cons rfl (isValue_iff.mpr ⟨t, rfl, hv⟩) hts
      exact ⟨[], v :: values, _, close, by simp, hitem, hclose⟩
    · rintro us - ⟨f', hus⟩
      exact ⟨f', by simp [moreValues, hv, hus, bind, Except.bind]⟩
  | case2 literal pos t rest hv =>
    exact moreValues_stops_value literal pos (by simpa [NoValueAhead] using hv) h
  | case3 literal pos => exact moreValues_stops_value literal pos (by simp [NoValueAhead]) h
  | case4 literal pos rest => simp [moreValues] at h
  | case5 tokens h₁ h₂ h₃ =>
    have hnone : NotAhead [.comma, .rightParen] tokens := by
      simp only [notAhead_iff, List.forall_mem_cons, List.not_mem_nil, false_implies, implies_true,
        and_true]
      refine ⟨fun literal pos rest htokens => ?_, h₃⟩
      cases rest with
      | nil => exact h₂ literal pos htokens
      | cons t rest => exact h₁ literal pos t rest htokens
    obtain ⟨rfl, hcause⟩ := of_refuse ((moreValues_refuse_close hnone).symm.trans h)
    exact .here (hcause (by simp)) ⟨[sampleClose], [], [], sampleClose, rfl, .nil, rfl⟩
      fun left hleft => fails_refuse .closeParen (moreValues_refuse_close (hnone.congr hleft))

theorem valueList_refuse (h : NotAhead [.leftParen] tokens) :
    valueList tokens = refuse .openParen tokens := by
  unfold valueList
  split
  · simp [notAhead_cons] at h
  · rfl

/-- Values in parentheses are a value and what closes the list. -/
theorem valueList_of_closed (literal : Text) (pos : Nat) (ts : List Token) {us : List Token}
    {v : Value} {values : List Value} (hv : IsValue ts v) (hvalues : ClosedValues us values) :
    ValueList (⟨.leftParen, literal, pos⟩ :: (ts ++ us)) (v :: values) := by
  obtain ⟨us, close, rfl, hus, hclose⟩ := hvalues
  rw [← List.append_assoc]
  exact .intro rfl (.intro hv hus) hclose

theorem closedValues_sample : ClosedValues [sampleClose] [] :=
  ⟨[], sampleClose, rfl, .nil, rfl⟩

theorem valueList_stops (h : valueList tokens = .error f) :
    Stops ValueList (Fails valueList) tokens f := by
  unfold valueList at h
  split at h
  · rename_i literal pos rest
    obtain hfirst | ⟨⟨v, rest'⟩, hv, hmore⟩ := bind_eq_error_iff.mp h
    · -- the first value is at fault
      refine (value_stops hfirst).behind [⟨.leftParen, literal, pos⟩] ?_ ?_
      · exact fun us v hus =>
          ⟨[sampleClose], [v], valueList_of_closed _ _ us hus closedValues_sample⟩
      · rintro us - ⟨f', hus⟩
        exact ⟨f', by simp [valueList, hus, bind, Except.bind]⟩
    · -- what follows the first value is at fault
      simp only [bind_eq_error_iff, pure, Except.pure, reduceCtorEq, and_false, exists_false,
        or_false] at hmore
      obtain ⟨ts, rfl, hts⟩ := value_sound hv
      refine (moreValues_stops hmore).behind (⟨.leftParen, literal, pos⟩ :: ts) ?_ ?_
      · intro us values hus
        refine ⟨[], v :: values, ?_⟩
        rw [List.append_nil]
        exact valueList_of_closed _ _ ts hts hus
      · rintro us - ⟨f', hus⟩
        exact ⟨f', by simp [valueList, value_complete hts, hus, bind, Except.bind]⟩
  · rename_i hopen
    have hnone : NotAhead [.leftParen] tokens := notAhead_iff.mpr (by simpa using hopen)
    obtain ⟨rfl, hcause⟩ := of_refuse h
    -- no parenthesis opens the list
    exact .here (hcause (by simp))
      ⟨_, _, valueList_of_closed [] 0 _ isValue_sample closedValues_sample⟩
      fun left hleft => fails_refuse .openParen (valueList_refuse (hnone.congr hleft))

/-! ## Comparisons -/

/-- Neither a list nor an operator follows the field. -/
def NoConditionAhead (tokens : List Token) : Prop :=
  startsNotIn tokens = false ∧ ∀ t ∈ tokens.head?, t.kind ≠ .keyword .inList ∧
    ∀ op, t.kind ≠ .comparison op

theorem condition_refuse {field : Text} (h : NoConditionAhead tokens) :
    condition field tokens = refuse .comparisonOperator tokens := by
  obtain ⟨hnot, hhead⟩ := h
  unfold condition
  split
  · simp [startsNotIn] at hnot
  · exact absurd rfl (hhead _ rfl).1
  · exact absurd rfl ((hhead _ rfl).2 _)
  · rfl

theorem comparison_refuse (h : NotAhead [.identifier] tokens) :
    comparison tokens = refuse .fieldName tokens := by
  unfold comparison
  split
  · simp [notAhead_cons] at h
  · rfl

/-- A word that can stand for a field. -/
def sampleField : Token := ⟨.identifier, [], 0⟩

theorem comparison_sample (field : Token) (hfield : field.kind = .identifier) :
    Comparison [field, ⟨.comparison .eq, [], 0⟩, sampleValue]
      (.compare field.literal .eq (.bool [] true)) :=
  .compare hfield rfl isValue_sample

theorem startsNotIn_of_head {t : Token} (ht : tokens.head? = some t)
    (hkind : t.kind ≠ .keyword .not) : startsNotIn tokens = false := by
  unfold startsNotIn
  split
  · obtain rfl := Option.some.inj ht
    exact absurd rfl hkind
  · rfl

/-- No operator follows the field, so the failure stays unless `NOT IN` follows. -/
theorem comparison_stops_operator (field : Text) (pos : Nat) (hnone : NoConditionAhead f.left)
    (h : condition field f.left = .error f) :
    Stops Comparison (Fails comparison) (⟨.identifier, field, pos⟩ :: f.left) f := by
  obtain ⟨cause, hrefuse, hcause⟩ := refuse_eq (α := Leaf) .comparisonOperator f.left
  have hf : f = ⟨cause, f.left⟩ :=
    Except.error.inj (h.symm.trans ((condition_refuse hnone).trans hrefuse))
  have hany : ∀ ts leaf, Comparison (⟨.identifier, field, pos⟩ :: ts) leaf →
      ∃ more leaf, Comparison ([] ++ (⟨.identifier, field, pos⟩ :: ts ++ more)) leaf :=
    fun ts leaf hts => ⟨[], leaf, by simpa using hts⟩
  refine ⟨[⟨.identifier, field, pos⟩], rfl, ?_, fun _ => ⟨hnone.1, [], _, rfl, rfl, hany⟩, ?_⟩
  · exact ⟨_, _, comparison_sample _ rfl⟩
  · intro left hleft
    have hstarts : startsNotIn left = false := by
      obtain rfl | ⟨-, t, ht, hkind⟩ := hcause
      · exact hleft.operator (by rw [hf])
      · -- an illegal token is refused as such whatever follows
        exact startsNotIn_of_head (hleft.head.trans ht) (by simp [hkind])
    have hnone' : NoConditionAhead left := ⟨hstarts, by rw [hleft.head]; exact hnone.2⟩
    obtain ⟨cause', hrefuse', -⟩ := refuse_eq (α := Leaf) .comparisonOperator left
    exact ⟨⟨cause', left⟩, by simp only [List.singleton_append, comparison,
      condition_refuse hnone', hrefuse', bind, Except.bind]⟩

theorem comparison_stops (h : comparison tokens = .error f) :
    Stops Comparison (Fails comparison) tokens f := by
  unfold comparison at h
  split at h
  · rename_i field pos rest
    simp only [bind_eq_error_iff, pure, Except.pure, reduceCtorEq, and_false, exists_false,
      or_false] at h
    have hcondition := h
    unfold condition at h
    split at h
    · -- `NOT IN`
      rename_i literal pos' literal' pos'' rest
      simp only [bind_eq_error_iff, pure, Except.pure, reduceCtorEq, and_false, exists_false,
        or_false] at h
      refine (valueList_stops h).behind [⟨.identifier, field, pos⟩, ⟨.keyword .not, literal, pos'⟩,
        ⟨.keyword .inList, literal', pos''⟩] ?_ ?_
      · exact fun us values hus => ⟨[], _, .noneOf rfl rfl rfl (by simpa using hus)⟩
      · rintro us - ⟨f', hus⟩
        exact ⟨f', by simp [comparison, condition, hus, bind, Except.bind]⟩
    · -- `IN`
      rename_i literal pos' rest
      simp only [bind_eq_error_iff, pure, Except.pure, reduceCtorEq, and_false, exists_false,
        or_false] at h
      refine (valueList_stops h).behind [⟨.identifier, field, pos⟩,
        ⟨.keyword .inList, literal, pos'⟩] ?_ ?_
      · exact fun us values hus => ⟨[], _, .oneOf rfl rfl (by simpa using hus)⟩
      · rintro us - ⟨f', hus⟩
        exact ⟨f', by simp [comparison, condition, hus, bind, Except.bind]⟩
    · -- an operator
      rename_i op literal pos' rest
      simp only [bind_eq_error_iff, pure, Except.pure, reduceCtorEq, and_false, exists_false,
        or_false] at h
      refine (value_stops h).behind [⟨.identifier, field, pos⟩,
        ⟨.comparison op, literal, pos'⟩] ?_ ?_
      · exact fun us v hus => ⟨[], _, .compare rfl rfl (by simpa using hus)⟩
      · rintro us - ⟨f', hus⟩
        exact ⟨f', by simp [comparison, condition, hus, bind, Except.bind]⟩
    · rename_i hnotIn hin hop
      have hnone : NoConditionAhead rest := by
        refine ⟨?_, ?_⟩
        · unfold startsNotIn
          split
          · exact (hnotIn _ _ _ _ _ rfl).elim
          · rfl
        · rintro ⟨kind, literal, pos⟩ ht
          obtain ⟨rest, rfl⟩ := List.head?_eq_some_iff.mp ht
          refine ⟨?_, fun op => ?_⟩
          · rintro rfl
            exact hin literal pos rest rfl
          · rintro rfl
            exact hop op literal pos rest rfl
      obtain ⟨rfl, -⟩ := of_refuse h
      exact comparison_stops_operator field pos hnone hcondition
  · rename_i hfield
    have hnone : NotAhead [.identifier] tokens := notAhead_iff.mpr (by simpa using hfield)
    obtain ⟨rfl, hcause⟩ := of_refuse h
    exact .here (hcause (by simp)) ⟨_, _, comparison_sample sampleField rfl⟩
      fun left hleft => fails_refuse .fieldName (comparison_refuse (hnone.congr hleft))

end Parser

end IssueQuery
