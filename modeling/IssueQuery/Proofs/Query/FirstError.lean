import IssueQuery.Proofs.Query.ViablePrefix
import IssueQuery.Proofs.Token.Tiling

/-!
# Errors are found at the first wrong token

What `Stops` says of comparisons holds of every part of the grammar around them: of the recursive
parts by induction on the bound, of the clauses one by one, and so of whole queries. For texts it
says where the error is.

* `Parser.StopsAt`          what holds of the recursive parts at a bound;
* `Parser.query_stops`      what holds of whole queries;
* `Query.parse_error_first` where the error of a text is.
-/

namespace IssueQuery

open Grammar

namespace Parser

variable {α β : Type} {f : Failure} {tokens rest : List Token}

/-! ## Where the recursive parts end -/

theorem conjunction_ends {bound : Nat} {left g : Filter}
    (h : conjunction bound left tokens = .ok (g, rest)) : NotAhead [.keyword .and] rest := by
  -- induction on the bound: each factor that is taken uses up one step of it
  induction bound generalizing left tokens with
  | zero => exact absurd h (refuse_ne_ok _ _ _)
  | succ bound ih =>
    unfold conjunction at h
    split at h
    · obtain ⟨⟨right, us⟩, -, hmore⟩ := Except.bind_eq_ok_iff.mp h
      exact ih hmore
    · rename_i hand
      obtain ⟨rfl, rfl⟩ := Except.ok_pair_inj h
      exact notAhead_iff.mpr (by simpa using hand)

theorem term_ends {bound : Nat} {g : Filter} (h : term bound tokens = .ok (g, rest)) :
    NotAhead [.keyword .and] rest := by
  cases bound with
  | zero => exact absurd h (refuse_ne_ok _ _ _)
  | succ bound =>
    obtain ⟨⟨first, us⟩, -, hmore⟩ := Except.bind_eq_ok_iff.mp h
    exact conjunction_ends hmore

theorem disjunction_ends {bound : Nat} {left g : Filter} (hand : NotAhead [.keyword .and] tokens)
    (h : disjunction bound left tokens = .ok (g, rest)) :
    NotAhead [.keyword .and, .keyword .or] rest := by
  induction bound generalizing left tokens with
  | zero => exact absurd h (refuse_ne_ok _ _ _)
  | succ bound ih =>
    unfold disjunction at h
    split at h
    · obtain ⟨⟨right, us⟩, hright, hmore⟩ := Except.bind_eq_ok_iff.mp h
      exact ih (term_ends hright) hmore
    · rename_i hor
      obtain ⟨rfl, rfl⟩ := Except.ok_pair_inj h
      rw [notAhead_iff] at hand
      exact notAhead_iff.mpr (by simpa using ⟨by simpa using hand, hor⟩)

theorem expression_ends {bound : Nat} {g : Filter} (h : expression bound tokens = .ok (g, rest)) :
    NotAhead [.keyword .and, .keyword .or] rest := by
  cases bound with
  | zero => exact absurd h (refuse_ne_ok _ _ _)
  | succ bound =>
    obtain ⟨⟨first, us⟩, hfirst, hmore⟩ := Except.bind_eq_ok_iff.mp h
    exact disjunction_ends (term_ends hfirst) hmore

/-! ## Failures of the recursive parts -/

/-- A recursive part fails at every bound that leaves three steps for each token and some more. -/
def FailsFrom (steps : Nat) (parse : Nat → List Token → Except Failure β) (tokens : List Token) :
    Prop :=
  ∀ bound, 3 * tokens.length + steps ≤ bound → Fails (parse bound) tokens

/-- The recursive parts fail at the first token that could not be taken, at a bound that leaves
three steps for each token. -/
structure StopsAt (bound : Nat) : Prop where
  expression {tokens : List Token} {f : Failure} (h : expression bound tokens = .error f)
    (hbound : 3 * tokens.length + 3 ≤ bound) :
    Stops Expression (FailsFrom 3 Parser.expression) tokens f
  disjunction {left} {tokens : List Token} {f : Failure} (h : disjunction bound left tokens = .error f)
    (hbound : 3 * tokens.length + 1 ≤ bound) :
    Stops (Many (.keyword .or) Term)
      (fun us => ∀ left, FailsFrom 1 (Parser.disjunction · left) us) tokens f
  term {tokens : List Token} {f : Failure} (h : term bound tokens = .error f)
    (hbound : 3 * tokens.length + 2 ≤ bound) :
    Stops Term (FailsFrom 2 Parser.term) tokens f
  conjunction {left} {tokens : List Token} {f : Failure} (h : conjunction bound left tokens = .error f)
    (hbound : 3 * tokens.length + 1 ≤ bound) :
    Stops (Many (.keyword .and) Factor)
      (fun us => ∀ left, FailsFrom 1 (Parser.conjunction · left) us) tokens f
  factor {tokens : List Token} {f : Failure} (h : factor bound tokens = .error f)
    (hbound : 3 * tokens.length + 1 ≤ bound) :
    Stops Factor (FailsFrom 1 Parser.factor) tokens f

section Steps

variable {bound : Nat} {left : Filter}

theorem expression_stops (ih : StopsAt bound) (h : expression (bound + 1) tokens = .error f)
    (hbound : 3 * tokens.length + 3 ≤ bound + 1) :
    Stops Expression (FailsFrom 3 expression) tokens f := by
  rw [expression, bind_eq_error_iff] at h
  obtain hfirst | ⟨⟨first, rest⟩, hfirst, hmore⟩ := h
  · -- the first term fails
    refine (ih.term hfirst (by omega)).behind [] ?_ ?_
    · intro us g hus
      exact ⟨[], g, by simpa using Expression.intro hus .nil⟩
    · rintro us - hus (_ | bound') hbound'
      · omega
      · obtain ⟨f', hf'⟩ := hus bound' (by simp only [List.nil_append] at hbound'; omega)
        exact ⟨f', by simp [expression, hf', bind, Except.bind]⟩
  · -- a term behind the first one fails
    obtain ⟨ts, rfl, hts⟩ := (soundAt bound).term hfirst
    rw [List.length_append] at hbound
    refine (ih.disjunction hmore (by omega)).behind ts ?_ ?_
    · intro us more hus
      exact ⟨[], _, by simpa using Expression.intro hts hus⟩
    · rintro us hhead hus (_ | bound') hbound'
      · omega
      · rw [List.length_append] at hbound'
        have hterm := (completeAt bound').term hts (by omega) ((term_ends hfirst).congr hhead)
        obtain ⟨f', hf'⟩ := hus first bound' (by omega)
        exact ⟨f', by simp [expression, hterm, hf', bind, Except.bind]⟩

theorem disjunction_stops (ih : StopsAt bound)
    (h : disjunction (bound + 1) left tokens = .error f)
    (hbound : 3 * tokens.length + 1 ≤ bound + 1) :
    Stops (Many (.keyword .or) Term) (fun us => ∀ left, FailsFrom 1 (disjunction · left) us)
      tokens f := by
  unfold disjunction at h
  split at h
  · rename_i literal pos rest
    rw [List.length_cons] at hbound
    obtain hright | ⟨⟨right, rest⟩, hright, hmore⟩ := bind_eq_error_iff.mp h
    · -- the term behind `OR` fails
      refine (ih.term hright (by omega)).behind [⟨.keyword .or, literal, pos⟩] ?_ ?_
      · intro us g hus
        exact ⟨[], [g], by simpa using Many.cons (t := ⟨.keyword .or, literal, pos⟩) rfl hus .nil⟩
      · rintro us - hus left' (_ | bound') hbound'
        · omega
        · rw [List.singleton_append, List.length_cons] at hbound'
          obtain ⟨f', hf'⟩ := hus bound' (by omega)
          exact ⟨f', by simp [disjunction, hf', bind, Except.bind]⟩
    · -- a term behind that one fails
      obtain ⟨ts, rfl, hts⟩ := (soundAt bound).term hright
      rw [List.length_append] at hbound
      refine (ih.disjunction hmore (by omega)).behind (⟨.keyword .or, literal, pos⟩ :: ts) ?_ ?_
      · intro us more hus
        exact ⟨[], right :: more,
          by simpa using Many.cons (t := ⟨.keyword .or, literal, pos⟩) rfl hts hus⟩
      · rintro us hhead hus left' (_ | bound') hbound'
        · omega
        · rw [List.length_append, List.length_cons] at hbound'
          have hterm := (completeAt bound').term hts (by omega) ((term_ends hright).congr hhead)
          obtain ⟨f', hf'⟩ := hus (.binary .or left' right) bound' (by omega)
          exact ⟨f', by simp [disjunction, hterm, hf', bind, Except.bind]⟩
  · cases h

theorem term_stops (ih : StopsAt bound) (h : term (bound + 1) tokens = .error f)
    (hbound : 3 * tokens.length + 2 ≤ bound + 1) : Stops Term (FailsFrom 2 term) tokens f := by
  rw [term, bind_eq_error_iff] at h
  obtain hfirst | ⟨⟨first, rest⟩, hfirst, hmore⟩ := h
  · -- the first factor fails
    refine (ih.factor hfirst (by omega)).behind [] ?_ ?_
    · intro us g hus
      exact ⟨[], g, by simpa using Term.intro hus .nil⟩
    · rintro us - hus (_ | bound') hbound'
      · omega
      · obtain ⟨f', hf'⟩ := hus bound' (by simp only [List.nil_append] at hbound'; omega)
        exact ⟨f', by simp [term, hf', bind, Except.bind]⟩
  · -- a factor behind the first one fails
    obtain ⟨ts, rfl, hts⟩ := (soundAt bound).factor hfirst
    rw [List.length_append] at hbound
    refine (ih.conjunction hmore (by omega)).behind ts ?_ ?_
    · intro us more hus
      exact ⟨[], _, by simpa using Term.intro hts hus⟩
    · rintro us - hus (_ | bound') hbound'
      · omega
      · rw [List.length_append] at hbound'
        have hfactor := (completeAt bound').factor hts (by omega) us
        obtain ⟨f', hf'⟩ := hus first bound' (by omega)
        exact ⟨f', by simp [term, hfactor, hf', bind, Except.bind]⟩

theorem conjunction_stops (ih : StopsAt bound)
    (h : conjunction (bound + 1) left tokens = .error f)
    (hbound : 3 * tokens.length + 1 ≤ bound + 1) :
    Stops (Many (.keyword .and) Factor) (fun us => ∀ left, FailsFrom 1 (conjunction · left) us)
      tokens f := by
  unfold conjunction at h
  split at h
  · rename_i literal pos rest
    rw [List.length_cons] at hbound
    obtain hright | ⟨⟨right, rest⟩, hright, hmore⟩ := bind_eq_error_iff.mp h
    · -- the factor behind `AND` fails
      refine (ih.factor hright (by omega)).behind [⟨.keyword .and, literal, pos⟩] ?_ ?_
      · intro us g hus
        exact ⟨[], [g], by simpa using Many.cons (t := ⟨.keyword .and, literal, pos⟩) rfl hus .nil⟩
      · rintro us - hus left' (_ | bound') hbound'
        · omega
        · rw [List.singleton_append, List.length_cons] at hbound'
          obtain ⟨f', hf'⟩ := hus bound' (by omega)
          exact ⟨f', by simp [conjunction, hf', bind, Except.bind]⟩
    · -- a factor behind that one fails
      obtain ⟨ts, rfl, hts⟩ := (soundAt bound).factor hright
      rw [List.length_append] at hbound
      refine (ih.conjunction hmore (by omega)).behind (⟨.keyword .and, literal, pos⟩ :: ts) ?_ ?_
      · intro us more hus
        exact ⟨[], right :: more,
          by simpa using Many.cons (t := ⟨.keyword .and, literal, pos⟩) rfl hts hus⟩
      · rintro us - hus left' (_ | bound') hbound'
        · omega
        · rw [List.length_append, List.length_cons] at hbound'
          have hfactor := (completeAt bound').factor hts (by omega) us
          obtain ⟨f', hf'⟩ := hus (.binary .and left' right) bound' (by omega)
          exact ⟨f', by simp [conjunction, hfactor, hf', bind, Except.bind]⟩
  · cases h

/-- What begins with neither `NOT` nor a parenthesis is a comparison. -/
theorem factor_comparison (h : NotAhead [.keyword .not, .leftParen] tokens) :
    factor (bound + 1) tokens = comparison tokens := by
  unfold factor
  split
  · simp [notAhead_cons] at h
  · simp [notAhead_cons] at h
  · rfl

/-- Something else than a closing parenthesis is behind the expression. -/
theorem factor_refuse_close {g : Filter} (literal : Text) (pos : Nat)
    (hinner : expression bound tokens = .ok (g, rest)) (hrest : NotAhead [.rightParen] rest) :
    factor (bound + 1) (⟨.leftParen, literal, pos⟩ :: tokens) = refuse .closeParen rest := by
  rw [factor, hinner]
  simp only [bind, Except.bind]
  split
  · simp [notAhead_cons] at hrest
  · rfl

theorem factor_stops (ih : StopsAt bound) (h : factor (bound + 1) tokens = .error f)
    (hbound : 3 * tokens.length + 1 ≤ bound + 1) : Stops Factor (FailsFrom 1 factor) tokens f := by
  unfold factor at h
  split at h
  · -- the factor behind `NOT` fails
    rename_i literal pos rest
    rw [List.length_cons] at hbound
    simp only [bind_eq_error_iff, pure, Except.pure, reduceCtorEq, and_false, exists_false,
      or_false] at h
    refine (ih.factor h (by omega)).behind [⟨.keyword .not, literal, pos⟩] ?_ ?_
    · exact fun us g hus => ⟨[], .not g, by simpa using Factor.not rfl hus⟩
    · rintro us - hus (_ | bound') hbound'
      · omega
      · rw [List.singleton_append, List.length_cons] at hbound'
        obtain ⟨f', hf'⟩ := hus bound' (by omega)
        exact ⟨f', by simp [factor, hf', bind, Except.bind]⟩
  · rename_i literal pos rest
    rw [List.length_cons] at hbound
    obtain hinner | ⟨⟨inner, rest⟩, hinner, hclose⟩ := bind_eq_error_iff.mp h
    · -- the expression in the parentheses fails
      refine (ih.expression hinner (by omega)).behind [⟨.leftParen, literal, pos⟩] ?_ ?_
      · exact fun us g hus => ⟨[sampleClose], g, .parens rfl hus rfl⟩
      · rintro us - hus (_ | bound') hbound'
        · omega
        · rw [List.singleton_append, List.length_cons] at hbound'
          obtain ⟨f', hf'⟩ := hus bound' (by omega)
          exact ⟨f', by simp [factor, hf', bind, Except.bind]⟩
    · -- nothing closes the parentheses
      obtain ⟨ts, rfl, hts⟩ := (soundAt bound).expression hinner
      dsimp only at hclose
      split at hclose
      · cases hclose
      · rename_i hopen
        have hnone : NotAhead [.rightParen] rest := notAhead_iff.mpr (by simpa using hopen)
        obtain ⟨rfl, hcause⟩ := of_refuse hclose
        refine .next (⟨.leftParen, literal, pos⟩ :: ts) (hcause (by simp)) ?_ ?_
        · exact ⟨[sampleClose], inner, .parens rfl hts rfl⟩
        · rintro us hhead (_ | bound') hbound'
          · omega
          · rw [List.length_append, List.length_cons] at hbound'
            have hinner' := (completeAt bound').expression hts (by omega)
              ((expression_ends hinner).congr hhead)
            obtain ⟨cause, hrefuse, -⟩ := refuse_eq (α := Filter) .closeParen us
            exact ⟨_, (factor_refuse_close literal pos hinner' (hnone.congr hhead)).trans hrefuse⟩
  · -- the comparison fails
    rename_i hnot hopen
    have hhere : NotAhead [.keyword .not, .leftParen] tokens :=
      notAhead_iff.mpr (by simpa using ⟨hnot, hopen⟩)
    refine (comparison_stops h).behind [] ?_ ?_
    · exact fun us leaf hus => ⟨[], .leaf leaf, by simpa using Factor.comparison hus⟩
    · rintro us hhead ⟨f', hus⟩ (_ | bound') hbound'
      · omega
      · exact ⟨f', (factor_comparison (hhere.congr hhead)).trans hus⟩

end Steps

/-- No token leaves the bound 0, and each step keeps where the parts fail. -/
theorem stopsAt (bound : Nat) : StopsAt bound := by
  induction bound with
  | zero => constructor <;> intros <;> omega
  | succ bound ih =>
    exact ⟨expression_stops ih, disjunction_stops ih, term_stops ih, conjunction_stops ih,
      factor_stops ih⟩

/-! ## Clauses -/

/-- A number is refused as a depth whatever follows it. -/
theorem depth_number_refuse {literal : Text} {pos : Nat}
    (h : depth (⟨.number, literal, pos⟩ :: rest) = .error f) :
    f.left = ⟨.number, literal, pos⟩ :: rest ∧ f.cause ≠ .expected .comparisonOperator ∧
      ∀ us, Fails depth (⟨.number, literal, pos⟩ :: us) := by
  by_cases hwhole : (!isWholeNumber literal) = true
  · simp only [depth, if_pos hwhole, Except.error.injEq] at h
    subst h
    exact ⟨rfl, by simp, fun us => by simp [Fails, depth, hwhole]⟩
  by_cases hleast : wholeNumberValue literal < 1
  · simp only [depth, if_neg hwhole, if_pos hleast, Except.error.injEq] at h
    subst h
    exact ⟨rfl, by simp, fun us => by simp [Fails, depth, hwhole, hleast]⟩
  by_cases hgreatest : Depth.limit < wholeNumberValue literal
  · simp only [depth, if_neg hwhole, if_neg hleast, if_pos hgreatest, Except.error.injEq] at h
    subst h
    exact ⟨rfl, by simp, fun us => by simp [Fails, depth, hwhole, hleast, hgreatest]⟩
  · simp only [depth, if_neg hwhole, if_neg hleast, if_neg hgreatest, reduceCtorEq] at h

theorem depth_refuse (h : NotAhead [.star, .number] tokens) :
    depth tokens = refuse .depth tokens := by
  unfold depth
  split
  · simp [notAhead_cons] at h
  · simp [notAhead_cons] at h
  · rfl

theorem depth_stops (h : depth tokens = .error f) : Stops IsDepth (Fails depth) tokens f := by
  have hrule : ∃ ts d, IsDepth ts d := ⟨[⟨.star, [], 0⟩], .unlimited, .star rfl⟩
  by_cases hnumber : ∃ literal pos us, tokens = ⟨.number, literal, pos⟩ :: us
  · obtain ⟨literal, pos, rest, rfl⟩ := hnumber
    obtain ⟨hleft, hcause, hfails⟩ := depth_number_refuse h
    rw [← hleft]
    refine .here hcause hrule fun left hhead => ?_
    obtain ⟨us, rfl⟩ := List.head?_eq_some_iff.mp (hhead.trans (congrArg List.head? hleft))
    exact hfails us
  · have hnone : NotAhead [.star, .number] tokens := by
      rw [notAhead_iff]
      rintro kind hkind literal pos us rfl
      obtain rfl | rfl : kind = .star ∨ kind = .number := by simpa using hkind
      · cases h
      · exact hnumber ⟨literal, pos, us, rfl⟩
    obtain ⟨rfl, hcause⟩ := of_refuse ((depth_refuse hnone).symm.trans h)
    exact .here (hcause (by simp)) hrule fun left hleft =>
      fails_refuse .depth (depth_refuse (hnone.congr hleft))

/-- A word for a direction. -/
def sampleDirection : Token := ⟨.identifier, Text.ofString "up", 0⟩

theorem expand_sample (literal : Text) (pos : Nat) :
    Expand [⟨.keyword .expand, literal, pos⟩, sampleDirection] ⟨.up, .levels 1⟩ := by
  have hname : sampleDirection.literal.toLower = Text.ofString "up" := by decide +kernel
  exact .intro rfl rfl hname (by decide) .missing

theorem expandClause_stops (h : expandClause tokens = .error f) :
    Stops Expand (Fails expandClause) tokens f := by
  unfold expandClause at h
  split at h
  · rename_i literal pos rest
    simp only [bind_eq_error_iff, pure, Except.pure, reduceCtorEq, and_false, exists_false,
      or_false] at h
    have hsample : ∃ ts e, Expand ([⟨.keyword .expand, literal, pos⟩] ++ ts) e :=
      ⟨_, _, expand_sample literal pos⟩
    unfold expansion at h
    split at h
    · rename_i word pos' rest
      split at h
      · -- an unknown word
        rename_i hunknown
        obtain rfl := Except.error.inj h
        refine Stops.next (f := ⟨.unknownDirection, _⟩) [⟨.keyword .expand, literal, pos⟩] (by simp)
          hsample fun left hleft => ?_
        obtain ⟨rest', rfl⟩ := List.head?_eq_some_iff.mp hleft
        simp [Fails, expandClause, expansion, hunknown, bind, Except.bind]
      · rename_i direction hdirection
        obtain ⟨name, hname, hmem⟩ := ofWord?_eq_some_iff.mp hdirection
        split at h
        · -- the depth fails
          rename_i literal' pos'' rest
          simp only [bind_eq_error_iff, pure, Except.pure, reduceCtorEq, and_false, exists_false,
            or_false] at h
          refine (depth_stops h).behind [⟨.keyword .expand, literal, pos⟩,
            ⟨.identifier, word, pos'⟩, ⟨.keyword .depth, literal', pos''⟩] ?_ ?_
          · intro us d hus
            have hclause : Opt DepthClause (⟨.keyword .depth, literal', pos''⟩ :: us) (some d) :=
              .present (.intro rfl hus)
            exact ⟨[], _, by simpa using Expand.intro rfl rfl hname hmem hclause⟩
          · rintro us - ⟨f', hus⟩
            exact ⟨f', by simp [expandClause, expansion, hdirection, hus, bind, Except.bind]⟩
        · cases h
    · -- no word
      rename_i hword
      have hnone : NotAhead [.identifier] rest := notAhead_iff.mpr (by simpa using hword)
      obtain ⟨rfl, hcause⟩ := of_refuse h
      refine .next [⟨.keyword .expand, literal, pos⟩] (hcause (by simp)) hsample fun left hleft => ?_
      obtain ⟨cause, hrefuse, -⟩ := refuse_eq (α := Expansion) .direction left
      have hexpansion : expansion left = refuse .direction left := by
        have hnone' := hnone.congr hleft
        unfold expansion
        split
        · simp [notAhead_cons] at hnone'
        · rfl
      exact ⟨⟨cause, left⟩, by
        simp only [List.singleton_append, expandClause, hexpansion, hrefuse, bind, Except.bind]⟩
  · cases h

/-- The order terms fail at every bound above the number of tokens. -/
def FailsAbove (tokens : List Token) : Prop :=
  ∀ bound, tokens.length < bound → Fails (orderTerms bound) tokens

theorem orderTerms_refuse {bound : Nat} (h : NotAhead [.identifier] tokens) :
    orderTerms (bound + 1) tokens = refuse .fieldName tokens := by
  unfold orderTerms
  split
  · simp [notAhead_cons] at h
  · rfl

theorem orderTerms_sample : Separated .comma IsOrderTerm ([sampleField] ++ []) [⟨[], false⟩] :=
  .intro (.plain rfl) .nil

theorem orderTerms_stops {bound : Nat} (h : orderTerms bound tokens = .error f)
    (hbound : tokens.length < bound) :
    Stops (Separated .comma IsOrderTerm) FailsAbove tokens f := by
  -- induction on the bound: each term takes one step of it
  induction bound generalizing tokens with
  | zero => omega
  | succ bound ih =>
    unfold orderTerms at h
    split at h
    · rename_i field pos rest
      obtain ⟨ts, hrest, hterm⟩ := descending_sound field pos rest
      dsimp only at h
      split at h
      · -- a term behind the first one fails
        rename_i literal pos' rest' hcomma
        simp only [bind_eq_error_iff, pure, Except.pure, reduceCtorEq, and_false, exists_false,
          or_false] at h
        rw [hcomma] at hrest
        rw [hrest, List.length_cons, List.length_append, List.length_cons] at hbound
        have hstops : Stops (Separated .comma IsOrderTerm) FailsAbove _ f := (ih h (by omega)).behind
          (⟨.identifier, field, pos⟩ :: ts ++ [⟨.comma, literal, pos'⟩]) ?_ ?_
        · simpa [hrest] using hstops
        · intro us terms hus
          obtain @⟨vs, ws, second, others, hsecond, hothers⟩ := hus
          refine ⟨[], ⟨field, (descending rest).1⟩ :: second :: others, ?_⟩
          simpa using Separated.intro hterm
            (.cons (t := ⟨.comma, literal, pos'⟩) rfl hsecond hothers)
        · rintro us - hus (_ | bound') hbound'
          · omega
          · simp only [List.length_append, List.length_cons] at hbound'
            obtain ⟨f', hf'⟩ := hus bound' (by omega)
            have hend : NotAhead [.keyword .asc, .keyword .desc]
                (⟨.comma, literal, pos'⟩ :: us) := by simp [notAhead_cons]
            obtain ⟨pos'', vs, hvs, hdescending⟩ := descending_complete hterm hend
            obtain ⟨-, rfl⟩ := List.cons.inj hvs
            exact ⟨f', by simp [orderTerms, hdescending, hf', bind, Except.bind]⟩
      · cases h
    · -- no field
      rename_i hfield
      have hnone : NotAhead [.identifier] tokens := notAhead_iff.mpr (by simpa using hfield)
      obtain ⟨rfl, hcause⟩ := of_refuse h
      refine .here (hcause (by simp)) ⟨_, _, orderTerms_sample⟩ ?_
      rintro left hleft (_ | bound') hbound'
      · omega
      · exact fails_refuse .fieldName (orderTerms_refuse (hnone.congr hleft))

theorem orderClause_stops (h : orderClause tokens = .error f) :
    Stops OrderBy (Fails orderClause) tokens f := by
  unfold orderClause at h
  split at h
  · rename_i literal pos rest
    unfold order at h
    split at h
    · -- the terms fail
      rename_i literal' pos' rest
      refine (orderTerms_stops h (by omega)).behind [⟨.keyword .order, literal, pos⟩,
        ⟨.keyword .byWord, literal', pos'⟩] ?_ ?_
      · exact fun us terms hus => ⟨[], terms, .intro rfl rfl (by simpa using hus)⟩
      · intro us _ hus
        obtain ⟨f', hf'⟩ := hus (us.length + 1) (by omega)
        exact ⟨f', hf'⟩
    · -- no `BY`
      rename_i hby
      have hnone : NotAhead [.keyword .byWord] rest := notAhead_iff.mpr (by simpa using hby)
      obtain ⟨rfl, hcause⟩ := of_refuse h
      refine .next [⟨.keyword .order, literal, pos⟩] (hcause (by simp)) ?_ fun left hleft => ?_
      · exact ⟨⟨.keyword .byWord, [], 0⟩ :: ([sampleField] ++ []), _,
          .intro rfl rfl orderTerms_sample⟩
      · have horder : order left = refuse .byWord left := by
          have hnone' := hnone.congr hleft
          unfold order
          split
          · simp [notAhead_cons] at hnone'
          · rfl
        have hfails : Fails (fun us => orderClause (⟨.keyword .order, literal, pos⟩ :: us)) left :=
          fails_refuse .byWord horder
        exact hfails
  · cases h

theorem filter_stops (h : filter tokens = .error f) : Stops Expression (Fails filter) tokens f := by
  unfold filter at h
  split at h
  · cases h
  · cases h
  · cases h
  · rename_i hnil hexpand horder
    simp only [bind_eq_error_iff, pure, Except.pure, reduceCtorEq, and_false, exists_false,
      or_false] at h
    -- a filter is there, so it is at fault: an empty one stands only in front of the clauses
    refine ((stopsAt _).expression h (by omega)).behind [] ?_ ?_
    · exact fun us g hus => ⟨[], g, by simpa using hus⟩
    · intro us hhead hus
      obtain ⟨f', hf'⟩ := hus (3 * us.length + 3) (by omega)
      have hnone : NotAhead [.keyword .expand, .keyword .order] us :=
        NotAhead.congr (notAhead_iff.mpr (by simpa using ⟨hexpand, horder⟩)) hhead
      refine ⟨f', ?_⟩
      rw [List.nil_append]
      unfold filter
      split
      · rw [eq_comm, List.head?_nil, List.head?_eq_none_iff] at hhead
        exact absurd hhead hnil
      · simp [notAhead_cons] at hnone
      · simp [notAhead_cons] at hnone
      · rw [hf']
        rfl

/-! ## What is taken is taken again -/

/-- What was taken derives from the rule. It is taken again in front of everything that begins like
what was left. -/
def Keeps (rule : Rule β) (parse : List Token → Except Failure (Parsed β))
    (tokens : List Token) (b : β) (rest : List Token) : Prop :=
  ∃ ts, tokens = ts ++ rest ∧ rule ts b ∧
    ∀ us, us.head? = rest.head? → parse (ts ++ us) = .ok (b, us)

theorem filter_keeps {g : Option Filter} (h : filter tokens = .ok (g, rest)) :
    Keeps (Opt Expression) filter tokens g rest := by
  unfold filter at h
  split at h
  · obtain ⟨rfl, rfl⟩ := Except.ok_pair_inj h
    refine ⟨[], rfl, .missing, fun us hus => ?_⟩
    obtain rfl := List.head?_eq_none_iff.mp hus
    rfl
  · obtain ⟨rfl, rfl⟩ := Except.ok_pair_inj h
    refine ⟨[], rfl, .missing, fun us hus => ?_⟩
    obtain ⟨us, rfl⟩ := List.head?_eq_some_iff.mp hus
    rfl
  · obtain ⟨rfl, rfl⟩ := Except.ok_pair_inj h
    refine ⟨[], rfl, .missing, fun us hus => ?_⟩
    obtain ⟨us, rfl⟩ := List.head?_eq_some_iff.mp hus
    rfl
  · simp only [Except.bind_eq_ok_iff, pure, Except.pure, Except.ok.injEq, Prod.mk.injEq] at h
    obtain ⟨⟨g, us⟩, hexpression, rfl, rfl⟩ := h
    obtain ⟨ts, rfl, hts⟩ := (soundAt _).expression hexpression
    exact ⟨ts, rfl, .present hts, fun us hus =>
      filter_present hts ((expression_ends hexpression).congr hus)⟩

/-- A depth behind the clause would have been taken with it. -/
theorem depth_not_ahead {ts : List Token} {e : Expansion} (hexpand : Expand ts e)
    (hlength : ts.length = 2) (h : expandClause (ts ++ rest) = .ok (some e, rest)) :
    NotAhead [.keyword .depth] rest := by
  rw [notAhead_iff]
  rintro kind hkind literal pos us rfl
  obtain rfl : kind = .keyword .depth := by simpa using hkind
  obtain ⟨ht, hword, hname, hmem, hdepth⟩ := hexpand
  obtain ⟨literal', pos', rfl⟩ := exists_of_kind ht
  obtain ⟨word, pos'', rfl⟩ := exists_of_kind hword
  obtain rfl := List.length_eq_zero_iff.mp (Nat.succ.inj (Nat.succ.inj hlength))
  simp only [List.cons_append, List.nil_append, expandClause, expansion,
    ofWord?_eq_some_iff.mpr ⟨_, hname, hmem⟩, Except.bind_eq_ok_iff, pure, Except.pure,
    Except.ok.injEq, Prod.mk.injEq] at h
  obtain ⟨-, ⟨⟨d, left⟩, hdepth, rfl⟩, -, hleft⟩ := h
  obtain ⟨ts, rfl, -⟩ := depth_sound hdepth
  -- the tokens that are left would be more than there were
  have hlengths := congrArg List.length hleft
  simp only [List.length_cons, List.length_append] at hlengths
  omega

theorem expandClause_keeps {e : Option Expansion} (h : expandClause tokens = .ok (e, rest)) :
    Keeps (Opt Expand) expandClause tokens e rest := by
  obtain ⟨ts, rfl, hts⟩ := expandClause_sound h
  refine ⟨ts, rfl, hts, fun us hus => ?_⟩
  cases hts with
  | missing =>
    -- the clause is missing because another token stands in its place
    have hnone : NotAhead [.keyword .expand] rest := by
      rw [notAhead_iff]
      rintro kind hkind literal pos us rfl
      obtain rfl : kind = .keyword .expand := by simpa using hkind
      simp only [List.nil_append, expandClause, Except.bind_eq_ok_iff, pure, Except.pure,
        Except.ok.injEq, Prod.mk.injEq, reduceCtorEq, false_and, and_false, exists_false] at h
    have hnone' := hnone.congr hus
    rw [List.nil_append]
    unfold expandClause
    split
    · simp [notAhead_cons] at hnone'
    · rfl
  | present hexpand =>
    refine expandClause_present hexpand fun hlength => NotAhead.congr ?_ hus
    exact depth_not_ahead hexpand hlength h

/-- The clause as it is written, and the terms that it gives. -/
def OrderTerms : Rule (List OrderTerm) := fun ts terms =>
  ∃ written, Opt OrderBy ts written ∧ terms = written.getD []

theorem orderClause_keeps {terms : List OrderTerm} (h : orderClause tokens = .ok (terms, rest)) :
    Keeps OrderTerms orderClause tokens terms rest := by
  unfold orderClause at h
  split at h
  · rename_i literal pos tail
    unfold order at h
    split at h
    · rename_i literal' pos' tail
      obtain ⟨ts, rfl, hts, hagain⟩ := orderTerms_keeps h
      refine ⟨⟨.keyword .order, literal, pos⟩ :: ⟨.keyword .byWord, literal', pos'⟩ :: ts, rfl,
        ⟨some terms, .present (.intro rfl rfl hts), rfl⟩, fun us hus => ?_⟩
      exact hagain us hus _ (by simp)
    · exact absurd h (refuse_ne_ok _ _ _)
  · rename_i horder
    obtain ⟨rfl, rfl⟩ := Except.ok_pair_inj h
    refine ⟨[], rfl, ⟨none, .missing, rfl⟩, fun us hus => ?_⟩
    have hnone : NotAhead [.keyword .order] us :=
      NotAhead.congr (notAhead_iff.mpr (by simpa using horder)) hus
    rw [List.nil_append]
    unfold orderClause
    split
    · simp [notAhead_cons] at hnone
    · rfl

/-! ## Queries -/

theorem query_stops (h : query tokens = .error f) : Stops Derives (Fails query) tokens f := by
  simp only [query, bind_eq_error_iff] at h
  obtain hfilter | ⟨⟨g, rest₁⟩, hfilter, h⟩ := h
  · refine (filter_stops hfilter).behind [] ?_ ?_
    · intro us g hus
      exact ⟨[], ⟨some g, none, []⟩, by
        simpa using Derives.intro (.present hus) .missing .missing⟩
    · rintro us - ⟨f', hus⟩
      exact ⟨f', by simp [query, hus, bind, Except.bind]⟩
  obtain ⟨fs, rfl, hfs, hfilter⟩ := filter_keeps hfilter
  dsimp only at h
  obtain hexpand | ⟨⟨e, rest₂⟩, hexpand, h⟩ := h
  · refine (expandClause_stops hexpand).behind fs ?_ ?_
    · intro us e hus
      exact ⟨[], ⟨g, some e, []⟩, Derives.intro hfs (.present hus) .missing⟩
    · rintro us hhead ⟨f', hus⟩
      exact ⟨f', by simp [query, hfilter us hhead, hus, bind, Except.bind]⟩
  obtain ⟨es, rfl, hes, hexpand⟩ := expandClause_keeps hexpand
  dsimp only at h
  obtain horder | ⟨⟨terms, rest₃⟩, horder, h⟩ := h
  · rw [← List.append_assoc]
    refine (orderClause_stops horder).behind (fs ++ es) ?_ ?_
    · intro us terms hus
      exact ⟨[], ⟨g, e, terms⟩, by simpa using Derives.intro hfs hes (.present hus)⟩
    · rintro us hhead ⟨f', hus⟩
      refine ⟨f', ?_⟩
      simp [query, hfilter (es ++ us) (head?_append_congr hhead), hexpand us hhead, hus, bind,
        Except.bind]
  obtain ⟨os, rfl, ⟨written, hos, rfl⟩, horder⟩ := orderClause_keeps horder
  -- the query is complete and something follows it
  dsimp only at h
  cases rest₃ with
  | nil => cases h
  | cons t left =>
    obtain rfl := Except.error.inj h
    have htokens : fs ++ (es ++ (os ++ t :: left)) = (fs ++ (es ++ os)) ++ t :: left := by simp
    rw [htokens]
    refine Stops.next (f := ⟨_, t :: left⟩) (fs ++ (es ++ os)) ?_ ?_ fun left' hleft => ?_
    · dsimp only
      split <;> simp
    · exact ⟨[], _, by simpa using Derives.intro hfs hes hos⟩
    · obtain ⟨us, rfl⟩ := List.head?_eq_some_iff.mp hleft
      have hhead : (t :: us).head? = (t :: left).head? := rfl
      have hfilter' := hfilter (es ++ (os ++ t :: us))
        (head?_append_congr (head?_append_congr hhead))
      have hexpand' := hexpand (os ++ t :: us) (head?_append_congr hhead)
      simp [Fails, query, hfilter', hexpand', horder (t :: us) hhead, bind, Except.bind]

end Parser

/-! ## Texts -/

namespace Grammar

theorem begins_of_append {ts us : List Token} (h : Begins (ts ++ us)) : Begins ts := by
  obtain ⟨more, hmore⟩ := h
  exact ⟨us ++ more, by rwa [← List.append_assoc]⟩

/-- What an accepted sequence begins with is all of it, or only the tokens of a query. -/
theorem begins_iff {ts : List Token} :
    Begins ts ↔ (∃ more q, Derives (ts ++ more) q) ∨
      ∃ us q t, ts = us ++ [t] ∧ t.kind = .endOfInput ∧ Derives us q := by
  constructor
  · rintro ⟨more, us, q, t, htokens, ht, hus⟩
    obtain rfl | ⟨more, last, rfl⟩ := List.eq_nil_or_concat more
    · exact .inr ⟨us, q, t, by simpa using htokens, ht, hus⟩
    · rw [List.concat_eq_append, ← List.append_assoc] at htokens
      obtain ⟨rfl, -⟩ := List.append_inj' htokens rfl
      exact .inl ⟨more, q, hus⟩
  · rintro (⟨more, q, h⟩ | ⟨us, q, t, rfl, ht, h⟩)
    · exact begins_of_derives more h
    · exact ⟨[], us, q, t, List.append_nil _, ht, h⟩

end Grammar

theorem Text.properTokens_proper (text : Text) : Proper text.properTokens := by
  intro t ht
  obtain ⟨l, hl, rfl⟩ := List.mem_map.mp ht
  exact ((tiles_lexemesFrom text 1).lexed [] rfl l hl).2.2.proper

namespace Parser

variable {f : Failure} {before left more : List Token} {t : Token}

theorem startsNotIn_iff {tokens : List Token} : startsNotIn tokens = true ↔
    ∃ t s us, tokens = t :: s :: us ∧ t.kind = .keyword .not ∧ s.kind = .keyword .inList := by
  constructor
  · intro h
    unfold startsNotIn at h
    split at h
    · exact ⟨_, _, _, rfl, rfl, rfl⟩
    · cases h
  · rintro ⟨t, s, us, rfl, ht, hs⟩
    obtain ⟨literal, pos, rfl⟩ := exists_of_kind ht
    obtain ⟨literal', pos', rfl⟩ := exists_of_kind hs
    rfl

/-- If the tokens derive after all, then an operator was asked for, and `NOT IN` stands there. -/
theorem Blocked.of_derives (h : Blocked Derives (Fails query) f before) {q : Query}
    (hq : Derives (before ++ left) q) (hhead : left.head? = f.left.head?) :
    f.cause = .expected .comparisonOperator ∧ startsNotIn left = true := by
  have hnot : ¬ f.Persists left := by
    intro hpersists
    obtain ⟨f', hf'⟩ := h.final left hpersists
    rw [query_complete hq] at hf'
    cases hf'
  by_cases hcause : f.cause = .expected .comparisonOperator
  · refine ⟨hcause, ?_⟩
    cases hstarts : startsNotIn left with
    | true => rfl
    | false => exact absurd ⟨hhead, fun _ => hstarts⟩ hnot
  · exact absurd ⟨hhead, fun h => absurd h hcause⟩ hnot

/-- The token at which the parser failed can only be a `NOT` where an operator was asked for. -/
theorem Blocked.of_begins (h : Blocked Derives (Fails query) f before) (hleft : f.left = t :: left)
    (ht : t.kind ≠ .endOfInput) (hbegins : Begins (before ++ t :: more)) :
    f.cause = .expected .comparisonOperator ∧ t.kind = .keyword .not ∧
      ∀ s ∈ more.head?, s.kind = .keyword .inList := by
  obtain ⟨us, hcause, hstarts⟩ : ∃ us, f.cause = .expected .comparisonOperator ∧
      startsNotIn (t :: (more ++ us)) = true := by
    obtain ⟨us, q, hq⟩ | ⟨us, q, last, htokens, hlast, hq⟩ := begins_iff.mp hbegins
    · rw [List.append_assoc, List.cons_append] at hq
      exact ⟨us, h.of_derives hq (by rw [hleft]; rfl)⟩
    · -- the last of the tokens is the end of the input, so it is not the first one
      obtain rfl | ⟨more, last', rfl⟩ := List.eq_nil_or_concat more
      · obtain ⟨-, hsame⟩ := List.append_inj' htokens rfl
        obtain rfl := List.singleton_inj.mp hsame
        exact absurd hlast ht
      · rw [List.concat_eq_append, ← List.cons_append, ← List.append_assoc] at htokens
        obtain ⟨rfl, -⟩ := List.append_inj' htokens rfl
        obtain ⟨hcause, hstarts⟩ := h.of_derives hq (by rw [hleft]; rfl)
        obtain ⟨t', s, vs, htokens, ht', hs⟩ := startsNotIn_iff.mp hstarts
        obtain ⟨rfl, rfl⟩ := List.cons.inj htokens
        exact ⟨[], hcause, startsNotIn_iff.mpr ⟨t, s, _, rfl, ht', hs⟩⟩
  obtain ⟨t', s, vs, htokens, ht', hs⟩ := startsNotIn_iff.mp hstarts
  obtain ⟨rfl, hmore⟩ := List.cons.inj htokens
  refine ⟨hcause, ht', fun s' hs' => ?_⟩
  obtain ⟨more, rfl⟩ := List.head?_eq_some_iff.mp hs'
  obtain ⟨rfl, -⟩ := List.cons.inj hmore
  exact hs

/-- If there was no token left, then the end of the input cannot stand there. -/
theorem Blocked.not_begins_end (h : Blocked Derives (Fails query) f before) (hleft : f.left = [])
    (ht : t.kind = .endOfInput) : ¬ Begins (before ++ [t]) := by
  intro hbegins
  obtain ⟨us, q, hq⟩ | ⟨us, q, last, htokens, -, hq⟩ := begins_iff.mp hbegins
  · have hproper := proper_of_derives hq
    simp [ht] at hproper
  · obtain ⟨rfl, -⟩ := List.append_inj' htokens rfl
    rw [← List.append_nil before] at hq
    obtain ⟨-, hstarts⟩ := h.of_derives hq (by rw [hleft])
    cases hstarts

/-- A `NOT` at which the parser failed is not followed by `IN`. -/
theorem Blocked.not_in (h : Blocked Derives (Fails query) f before) (hleft : f.left = t :: left)
    (hcause : f.cause = .expected .comparisonOperator) (ht : t.kind = .keyword .not) {last : Token}
    (hlast : last.kind = .endOfInput) : NotAhead [.keyword .inList] (left ++ [last]) := by
  cases left with
  | nil => simp [notAhead_cons, hlast]
  | cons s us =>
    have hstarts := (h.field hcause).1
    rw [List.cons_append, notAhead_cons, List.mem_singleton]
    intro hs
    rw [startsNotIn_iff.mpr ⟨t, s, us, hleft, ht, hs⟩] at hstarts
    cases hstarts

end Parser

namespace Grammar

/-- Behind a field `NOT` can stand, as it may be followed by `IN` and a list. -/
theorem NamesField.begins_not {first : List Token} {field t : Token} (h : NamesField first field)
    (ht : t.kind = .keyword .not) : Begins (first ++ [field] ++ [t]) := by
  have hlist : ValueList [⟨.leftParen, [], 0⟩, Parser.sampleValue, Parser.sampleClose] _ :=
    Parser.valueList_of_closed _ _ [Parser.sampleValue] Parser.isValue_sample
      Parser.closedValues_sample
  have hin : Comparison (field :: t :: ⟨.keyword .inList, [], 0⟩ :: _) _ :=
    .noneOf h.1 ht rfl hlist
  have hbegins := h.2 _ _ hin
  rw [List.append_cons, List.append_cons] at hbegins
  exact begins_of_append hbegins

end Grammar

/-- The error of a text is at its first wrong token. The tokens before it can be continued to an
accepted sequence; with it and the token behind it they cannot. They can with it alone only if it is
a `NOT` behind the name of a field, and no `IN` is behind it. -/
theorem Query.parse_error_first (text : Text) (e : ParseError) (h : Query.parse text = .error e) :
    ∃ before after, text.tokens = before ++ e.token :: after ∧ Begins before ∧
      ¬ Begins (before ++ e.token :: after.take 1) ∧
      (Begins (before ++ [e.token]) ↔ e.token.kind = .keyword .not ∧
        (∃ first field, before = first ++ [field] ∧ NamesField first field) ∧
        ∀ t ∈ after.head?, t.kind ≠ .keyword .inList) := by
  obtain ⟨f, hquery, rfl⟩ : ∃ f, Parser.query text.properTokens = .error f ∧
      e = ⟨f.cause, f.left.headD text.endToken⟩ := by
    unfold Query.parse at h
    cases hquery : Parser.query text.properTokens with
    | ok q =>
      rw [hquery] at h
      cases h
    | error f =>
      rw [hquery] at h
      cases h
      exact ⟨f, rfl, rfl⟩
  obtain ⟨before, htokens, hblocked⟩ := Parser.query_stops hquery
  have hbegins : Begins before := by
    obtain ⟨more, q, hq⟩ := hblocked.viable
    exact begins_of_derives more hq
  cases hleft : f.left with
  | nil =>
    -- the text ends too early
    have hend := hblocked.not_begins_end hleft (t := text.endToken) rfl
    refine ⟨before, [], ?_, hbegins, hend, fun h => absurd h hend, ?_⟩
    · rw [Text.tokens, htokens, hleft, List.append_nil]
      rfl
    · rintro ⟨hnot, -⟩
      cases hnot
  | cons t left =>
    have ht : t.kind ≠ .endOfInput :=
      text.properTokens_proper t (by rw [htokens, hleft]; simp)
    have hnext (hcause : f.cause = .expected .comparisonOperator) (hnot : t.kind = .keyword .not) :
        ∀ s ∈ (left ++ [text.endToken]).head?, s.kind ≠ .keyword .inList := fun s hs hin =>
      hblocked.not_in hleft hcause hnot (rfl : text.endToken.kind = _) s hs (by simp [hin])
    refine ⟨before, left ++ [text.endToken], ?_, hbegins, ?_, ?_, ?_⟩
    · rw [Text.tokens, htokens, hleft]
      simp
    · intro hwrong
      obtain ⟨hcause, hnot, hin⟩ := hblocked.of_begins hleft ht hwrong
      obtain ⟨s, hs⟩ : ∃ s, (left ++ [text.endToken]).head? = some s := by
        cases left <;> exact ⟨_, rfl⟩
      exact hnext hcause hnot s hs (hin s (by simpa [List.head?_take] using hs))
    · intro hwrong
      obtain ⟨hcause, hnot, -⟩ := hblocked.of_begins hleft ht hwrong
      obtain ⟨-, first, field, rfl, hfield, hany⟩ := hblocked.field hcause
      refine ⟨hnot, ⟨first, field, rfl, hfield, fun ts leaf hts => ?_⟩, hnext hcause hnot⟩
      obtain ⟨more, q, hq⟩ := hany ts leaf hts
      exact begins_of_derives more (by simpa using hq)
    · rintro ⟨hnot, ⟨first, field, rfl, hfield⟩, -⟩
      exact hfield.begins_not hnot

/-- In `a = b and c not d` the error is at the `not`. -/
theorem Query.parse_error_at_not :
    ∃ cause, Query.parse (Text.ofString "a = b and c not d") =
        .error ⟨cause, ⟨.keyword .not, Text.ofString "not", 13⟩⟩ ∧
      ∃ before after, (Text.ofString "a = b and c not d").tokens =
          before ++ ⟨.keyword .not, Text.ofString "not", 13⟩ :: after ∧
        Begins before ∧
        ¬ Begins (before ++ ⟨.keyword .not, Text.ofString "not", 13⟩ :: after.take 1) := by
  have hparse : Query.parse (Text.ofString "a = b and c not d") =
      .error ⟨.expected .comparisonOperator, ⟨.keyword .not, Text.ofString "not", 13⟩⟩ := by
    rfl
  obtain ⟨before, after, htokens, hbegins, hwrong, -⟩ := parse_error_first _ _ hparse
  exact ⟨_, hparse, before, after, htokens, hbegins, hwrong⟩

end IssueQuery
