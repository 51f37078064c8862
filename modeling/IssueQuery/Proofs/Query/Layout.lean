import IssueQuery.Proofs.Token.Layout
import IssueQuery.Query.Parser

/-!
# The parser does not look at places

The parser looks at the kinds and literals of tokens, and hands the places on. So the layout of a text
does not matter for what it parses as, and a failure is found at the same token.

* `Same`                 tokens that differ by their places only;
* `Parser.Agree`         results that differ by places only;
* `Parser.agreesAt`      the recursive parts of the parser, at any bound;
* `Query.parse_joined`   a text laid out anew parses as the same query, or fails at the same token.
-/

namespace IssueQuery

/-- The same tokens, maybe at other places. -/
inductive Same : List Token → List Token → Prop
  | nil : Same [] []
  | cons {kind : TokenKind} {literal : Text} {pos pos' : Nat} {ts us : List Token}
    (h : Same ts us) : Same (⟨kind, literal, pos⟩ :: ts) (⟨kind, literal, pos'⟩ :: us)

theorem same_of_bare {ts us : List Token} (h : ts.map Token.bare = us.map Token.bare) :
    Same ts us := by
  induction ts generalizing us with
  | nil =>
    obtain rfl := List.map_eq_nil_iff.mp h.symm
    exact .nil
  | cons t ts ih =>
    cases us with
    | nil => cases h
    | cons u us =>
      obtain ⟨hfirst, hrest⟩ := List.cons.inj h
      obtain ⟨kind, literal, pos⟩ := t
      obtain ⟨kind', literal', pos'⟩ := u
      obtain ⟨rfl, rfl⟩ := Prod.mk.inj hfirst
      exact .cons (ih hrest)

theorem Same.length_eq {ts us : List Token} (h : Same ts us) : us.length = ts.length := by
  induction h with
  | nil => rfl
  | cons h ih => rw [List.length_cons, List.length_cons, ih]

namespace Parser

/-- Two results of which one is the other at other places. -/
inductive Agree {α : Type} : Except Failure (Parsed α) → Except Failure (Parsed α) → Prop
  | ok (a : α) {rest rest' : List Token} (h : Same rest rest') : Agree (.ok (a, rest)) (.ok (a, rest'))
  | error (cause : ParseError.Cause) {left left' : List Token} (h : Same left left') :
    Agree (.error ⟨cause, left⟩) (.error ⟨cause, left'⟩)

variable {α β : Type} {ts us : List Token}

theorem Agree.bind {x y : Except Failure (Parsed α)} {f : Parsed α → Except Failure (Parsed β)}
    (h : Agree x y) (hf : ∀ a rest rest', Same rest rest' → Agree (f (a, rest)) (f (a, rest'))) :
    Agree (x >>= f) (y >>= f) := by
  cases h with
  | ok a h => exact hf a _ _ h
  | error cause h => exact .error cause h

theorem agree_refuse (what : Expectation) (h : Same ts us) :
    Agree (α := α) (refuse what ts) (refuse what us) := by
  cases h with
  | nil => exact .error _ .nil
  | @cons kind literal pos pos' ts us h =>
    by_cases hkind : kind = .illegal
    · simp only [refuse, hkind, if_true]
      exact .error _ (.cons h)
    · simp only [refuse, hkind, if_false]
      exact .error _ (.cons h)

theorem agree_value (h : Same ts us) : Agree (value ts) (value us) := by
  cases h with
  | nil => exact agree_refuse _ .nil
  | @cons kind literal pos pos' ts us h =>
    have hsame : valueOf? ⟨kind, literal, pos'⟩ = valueOf? ⟨kind, literal, pos⟩ := rfl
    simp only [value, hsame]
    cases valueOf? ⟨kind, literal, pos⟩ with
    | none => exact agree_refuse _ (.cons h)
    | some v => exact .ok v h

theorem agree_moreValues (h : Same ts us) : Agree (moreValues ts) (moreValues us) := by
  -- induction on the length, as a comma and a value are taken at once
  induction hlength : ts.length using Nat.strongRecOn generalizing ts us with
  | ind n ih =>
    cases h with
    | nil => exact agree_refuse .closeParen .nil
    | @cons kind literal pos pos' ts us h =>
      cases kind with
      | comma =>
        cases h with
        | nil => exact agree_refuse .value .nil
        | @cons kind literal pos pos' ts us h =>
          have hsame : valueOf? ⟨kind, literal, pos'⟩ = valueOf? ⟨kind, literal, pos⟩ := rfl
          simp only [moreValues, hsame]
          cases valueOf? ⟨kind, literal, pos⟩ with
          | none => exact agree_refuse .value (.cons h)
          | some v =>
            refine (ih ts.length ?_ h rfl).bind fun values rest rest' hrest => .ok _ hrest
            rw [← hlength, List.length_cons, List.length_cons]
            omega
      | rightParen =>
        simp only [moreValues]
        exact .ok _ h
      | _ =>
        simp only [moreValues]
        exact agree_refuse .closeParen (.cons h)

theorem agree_valueList (h : Same ts us) : Agree (valueList ts) (valueList us) := by
  cases h with
  | nil => exact agree_refuse .openParen .nil
  | @cons kind literal pos pos' ts us h =>
    cases kind <;> simp only [valueList]
    case leftParen =>
      exact (agree_value h).bind fun first rest rest' hrest =>
        (agree_moreValues hrest).bind fun values rest rest' hrest => .ok _ hrest
    all_goals exact agree_refuse .openParen (.cons h)

theorem agree_condition (field : Text) (h : Same ts us) :
    Agree (condition field ts) (condition field us) := by
  cases h with
  | nil => exact agree_refuse .comparisonOperator .nil
  | @cons kind literal pos pos' ts us h =>
    cases kind with
    | comparison op => exact (agree_value h).bind fun v rest rest' hrest => .ok _ hrest
    | keyword word =>
      cases word with
      | inList => exact (agree_valueList h).bind fun values rest rest' hrest => .ok _ hrest
      | not =>
        -- whether this is a list depends on the next token
        cases h with
        | nil =>
          simp only [condition]
          exact agree_refuse .comparisonOperator (.cons .nil)
        | @cons kind literal pos pos' ts us h =>
          cases kind with
          | keyword word =>
            cases word <;> simp only [condition]
            case inList =>
              exact (agree_valueList h).bind fun values rest rest' hrest => .ok _ hrest
            all_goals exact agree_refuse .comparisonOperator (.cons (.cons h))
          | _ =>
            simp only [condition]
            exact agree_refuse .comparisonOperator (.cons (.cons h))
      | _ =>
        simp only [condition]
        exact agree_refuse .comparisonOperator (.cons h)
    | _ =>
      simp only [condition]
      exact agree_refuse .comparisonOperator (.cons h)

theorem agree_comparison (h : Same ts us) : Agree (comparison ts) (comparison us) := by
  cases h with
  | nil => exact agree_refuse .fieldName .nil
  | @cons kind literal pos pos' ts us h =>
    cases kind <;> simp only [comparison]
    case identifier =>
      exact (agree_condition literal h).bind fun leaf rest rest' hrest => .ok _ hrest
    all_goals exact agree_refuse .fieldName (.cons h)

/-- What holds of the recursive parts of the parser at a bound. -/
structure AgreesAt (bound : Nat) : Prop where
  expression : ∀ {ts us}, Same ts us → Agree (expression bound ts) (expression bound us)
  disjunction : ∀ left {ts us}, Same ts us →
    Agree (disjunction bound left ts) (disjunction bound left us)
  term : ∀ {ts us}, Same ts us → Agree (term bound ts) (term bound us)
  conjunction : ∀ left {ts us}, Same ts us →
    Agree (conjunction bound left ts) (conjunction bound left us)
  factor : ∀ {ts us}, Same ts us → Agree (factor bound ts) (factor bound us)

section

variable {bound : Nat} (ih : AgreesAt bound)
include ih

theorem agree_disjunction (left : Filter) (h : Same ts us) :
    Agree (disjunction (bound + 1) left ts) (disjunction (bound + 1) left us) := by
  cases h with
  | nil => exact .ok _ .nil
  | @cons kind literal pos pos' ts us h =>
    cases kind with
    | keyword word =>
      cases word <;> simp only [disjunction]
      case or => exact (ih.term h).bind fun right rest rest' hrest => ih.disjunction _ hrest
      all_goals exact .ok _ (.cons h)
    | _ =>
      simp only [disjunction]
      exact .ok _ (.cons h)

theorem agree_conjunction (left : Filter) (h : Same ts us) :
    Agree (conjunction (bound + 1) left ts) (conjunction (bound + 1) left us) := by
  cases h with
  | nil => exact .ok _ .nil
  | @cons kind literal pos pos' ts us h =>
    cases kind with
    | keyword word =>
      cases word <;> simp only [conjunction]
      case and => exact (ih.factor h).bind fun right rest rest' hrest => ih.conjunction _ hrest
      all_goals exact .ok _ (.cons h)
    | _ =>
      simp only [conjunction]
      exact .ok _ (.cons h)

theorem agree_factor (h : Same ts us) :
    Agree (factor (bound + 1) ts) (factor (bound + 1) us) := by
  cases h with
  | nil => exact agree_comparison .nil
  | @cons kind literal pos pos' ts us h =>
    cases kind with
    | keyword word =>
      cases word <;> simp only [factor]
      case not => exact (ih.factor h).bind fun inner rest rest' hrest => .ok _ hrest
      all_goals exact agree_comparison (.cons h)
    | leftParen =>
      refine (ih.expression h).bind fun inner rest rest' hrest => ?_
      -- the parenthesis is closed behind the expression
      cases hrest with
      | nil => exact agree_refuse .closeParen .nil
      | @cons kind literal pos pos' ts us h =>
        cases kind
        case rightParen => exact .ok _ h
        all_goals exact agree_refuse .closeParen (.cons h)
    | _ =>
      simp only [factor]
      exact agree_comparison (.cons h)

end

theorem agreesAt (bound : Nat) : AgreesAt bound := by
  induction bound with
  | zero =>
    exact {
      expression := agree_refuse .fieldName
      disjunction := fun _ => agree_refuse .fieldName
      term := agree_refuse .fieldName
      conjunction := fun _ => agree_refuse .fieldName
      factor := agree_refuse .fieldName }
  | succ bound ih =>
    exact {
      expression := fun h => (ih.term h).bind fun left rest rest' hrest => ih.disjunction left hrest
      disjunction := fun left _ _ => agree_disjunction ih left
      term := fun h => (ih.factor h).bind fun left rest rest' hrest => ih.conjunction left hrest
      conjunction := fun left _ _ => agree_conjunction ih left
      factor := agree_factor ih }

theorem agree_depth (h : Same ts us) : Agree (depth ts) (depth us) := by
  cases h with
  | nil => exact agree_refuse .depth .nil
  | @cons kind literal pos pos' ts us h =>
    cases kind <;> simp only [depth]
    case star => exact .ok _ h
    case number =>
      split
      · exact .error _ (.cons h)
      · split
        · exact .error _ (.cons h)
        · split
          · exact .error _ (.cons h)
          · exact .ok _ h
    all_goals exact agree_refuse .depth (.cons h)

theorem agree_expansion (h : Same ts us) : Agree (expansion ts) (expansion us) := by
  cases h with
  | nil => exact agree_refuse .direction .nil
  | @cons kind literal pos pos' ts us h =>
    cases kind <;> simp only [expansion]
    case identifier =>
      cases Direction.ofWord? literal with
      | none => exact .error _ (.cons h)
      | some direction =>
        cases h with
        | nil => exact .ok _ .nil
        | @cons kind literal pos pos' ts us h =>
          cases kind with
          | keyword word =>
            cases word
            case depth => exact (agree_depth h).bind fun d rest rest' hrest => .ok _ hrest
            all_goals exact .ok _ (.cons h)
          | _ => exact .ok _ (.cons h)
    all_goals exact agree_refuse .direction (.cons h)

theorem same_descending (h : Same ts us) :
    (descending us).1 = (descending ts).1 ∧ Same (descending ts).2 (descending us).2 := by
  cases h with
  | nil => exact ⟨rfl, .nil⟩
  | @cons kind literal pos pos' ts us h =>
    cases kind with
    | keyword word =>
      cases word <;> simp only [descending]
      case asc | desc => exact ⟨trivial, h⟩
      all_goals exact ⟨trivial, .cons h⟩
    | _ => exact ⟨rfl, .cons h⟩

theorem agree_orderTerms (bound : Nat) (h : Same ts us) :
    Agree (orderTerms bound ts) (orderTerms bound us) := by
  induction bound generalizing ts us with
  | zero => exact agree_refuse .fieldName h
  | succ bound ih =>
    cases h with
    | nil => exact agree_refuse .fieldName .nil
    | @cons kind literal pos pos' ts us h =>
      cases kind <;> simp only [orderTerms]
      case identifier =>
        obtain ⟨hdown, hrest⟩ := same_descending h
        rw [hdown]
        generalize (descending ts).2 = rest, (descending us).2 = rest' at hrest
        cases hrest with
        | nil => exact .ok _ .nil
        | @cons kind literal pos pos' ts us h =>
          cases kind
          case comma => exact (ih h).bind fun terms rest rest' hrest => .ok _ hrest
          all_goals exact .ok _ (.cons h)
      all_goals exact agree_refuse .fieldName (.cons h)

theorem agree_order (h : Same ts us) : Agree (order ts) (order us) := by
  cases h with
  | nil => exact agree_refuse .byWord .nil
  | @cons kind literal pos pos' ts us h =>
    cases kind with
    | keyword word =>
      cases word <;> simp only [order]
      case byWord =>
        rw [h.length_eq]
        exact agree_orderTerms _ h
      all_goals exact agree_refuse .byWord (.cons h)
    | _ =>
      simp only [order]
      exact agree_refuse .byWord (.cons h)

theorem agree_filter (h : Same ts us) : Agree (filter ts) (filter us) := by
  have hfilter : Agree (expression (3 * ts.length + 3) ts >>= fun p => pure (some p.1, p.2))
      (expression (3 * us.length + 3) us >>= fun p => pure (some p.1, p.2)) := by
    rw [h.length_eq]
    exact ((agreesAt _).expression h).bind fun f rest rest' hrest => .ok _ hrest
  cases h with
  | nil => exact .ok _ .nil
  | @cons kind literal pos pos' ts us h =>
    cases kind with
    | keyword word =>
      cases word <;> simp only [filter]
      case expand | order => exact .ok _ (.cons h)
      all_goals exact hfilter
    | _ => exact hfilter

theorem agree_expandClause (h : Same ts us) : Agree (expandClause ts) (expandClause us) := by
  cases h with
  | nil => exact .ok _ .nil
  | @cons kind literal pos pos' ts us h =>
    cases kind with
    | keyword word =>
      cases word <;> simp only [expandClause]
      case expand => exact (agree_expansion h).bind fun e rest rest' hrest => .ok _ hrest
      all_goals exact .ok _ (.cons h)
    | _ => exact .ok _ (.cons h)

theorem agree_orderClause (h : Same ts us) : Agree (orderClause ts) (orderClause us) := by
  cases h with
  | nil => exact .ok _ .nil
  | @cons kind literal pos pos' ts us h =>
    cases kind with
    | keyword word =>
      cases word <;> simp only [orderClause]
      case order => exact agree_order h
      all_goals exact .ok _ (.cons h)
    | _ => exact .ok _ (.cons h)

/-- The parser gives one query for the same tokens, or fails for one cause at the same token. -/
theorem query_same (h : Same ts us) :
    (∃ q, query ts = .ok q ∧ query us = .ok q) ∨
      ∃ cause left left', query ts = .error ⟨cause, left⟩ ∧ query us = .error ⟨cause, left'⟩ ∧
        Same left left' := by
  have hfilter := agree_filter h
  unfold query
  generalize filter ts = x, filter us = y at hfilter
  cases hfilter with
  | error cause h => exact .inr ⟨cause, _, _, rfl, rfl, h⟩
  | @ok f rest rest' h =>
    have hexpand := agree_expandClause h
    simp only [bind, Except.bind]
    generalize expandClause rest = x, expandClause rest' = y at hexpand
    cases hexpand with
    | error cause h => exact .inr ⟨cause, _, _, rfl, rfl, h⟩
    | @ok e rest rest' h =>
      have horder := agree_orderClause h
      dsimp only
      generalize orderClause rest = x, orderClause rest' = y at horder
      cases horder with
      | error cause h => exact .inr ⟨cause, _, _, rfl, rfl, h⟩
      | ok terms h =>
        -- nothing may be left
        cases h with
        | nil => exact .inl ⟨_, rfl, rfl⟩
        | cons h => exact .inr ⟨_, _, _, rfl, rfl, .cons h⟩

end Parser

/-- A text whose tokens are laid out anew, with any spaces between them, has the same tokens at other
places. It parses as the same query, or both fail for one cause at the same token. -/
theorem Query.parse_joined {text text' : Text} (h : Joined text.sources text') :
    text'.tokens.map Token.bare = text.tokens.map Token.bare ∧
      ((∃ q, Query.parse text = .ok q ∧ Query.parse text' = .ok q) ∨
        ∃ e e', Query.parse text = .error e ∧ Query.parse text' = .error e' ∧
          e'.cause = e.cause ∧ e'.token.bare = e.token.bare) := by
  have hbare := Text.bare_tokens_joined h
  refine ⟨hbare, ?_⟩
  have hproper : text.properTokens.map Token.bare = text'.properTokens.map Token.bare := by
    rw [Text.tokens, Text.tokens, List.map_append, List.map_append] at hbare
    exact ((List.append_inj_left' hbare rfl)).symm
  obtain ⟨q, hq, hq'⟩ | ⟨cause, left, left', hfail, hfail', hleft⟩ :=
    Parser.query_same (same_of_bare hproper)
  · exact .inl ⟨q, by rw [parse, hq]; rfl, by rw [parse, hq']; rfl⟩
  · refine .inr ⟨⟨cause, left.headD text.endToken⟩, ⟨cause, left'.headD text'.endToken⟩,
      by rw [parse, hfail]; rfl, by rw [parse, hfail']; rfl, rfl, ?_⟩
    cases hleft with
    | nil => rfl
    | cons h => rfl

/-- Spaces around an operator, in front of a string that is not closed. -/
theorem Query.parse_joined_unclosed :
    Joined (Text.sources "a!=b ! \"x y") "a\t!= \nb !\r\"x y" ∧
      (Text.tokens "a\t!= \nb !\r\"x y").map Token.bare =
        (Text.tokens "a!=b ! \"x y").map Token.bare ∧
      ((∃ q, Query.parse "a!=b ! \"x y" = .ok q ∧ Query.parse "a\t!= \nb !\r\"x y" = .ok q) ∨
        ∃ e e', Query.parse "a!=b ! \"x y" = .error e ∧
          Query.parse "a\t!= \nb !\r\"x y" = .error e' ∧ e'.cause = e.cause ∧
            e'.token.bare = e.token.bare) := by
  have hspaces (spaces : Text) (h : spaces.all CodeUnit.isSpace = true) :
      ∀ u ∈ spaces, u.isSpace = true := List.all_eq_true.mp h
  have hjoined : Joined (Text.sources "a!=b ! \"x y") "a\t!= \nb !\r\"x y" :=
    @Joined.cons "a" _ "\t" _ _ (by decide) (hspaces _ (by decide)) <|
      @Joined.cons "!=" _ " \n" _ _ (by decide) (hspaces _ (by decide)) <|
        @Joined.cons "b" _ " " _ _ (by decide) (hspaces _ (by decide)) <|
          @Joined.cons "!" _ "\r" _ _ (by decide) (hspaces _ (by decide)) (.single "\"x y")
  exact ⟨hjoined, Query.parse_joined hjoined⟩

end IssueQuery
