import IssueQuery.Proofs.Query.FixedText
import IssueQuery.Proofs.Sql.Nesting
import IssueQuery.Store.Statements

/-!
# The condition of a query is a conjunct

Statements over issues begin with the condition that the issue was not deleted, and go on with the
condition of a query. Whatever the query is, the first condition can not be got around: outside of
parentheses the two together have no connective but the `AND` within the first and the `AND`
between them.

* `uses_of_check`    a checked query uses fields with an expression, and operators of SQL;
* `Confined`         a text that stays one operand wherever it stands;
* `Conjoined`        a text that leaves the fixed condition a conjunct.
-/

namespace IssueQuery

open Sql (Condition Balanced Enclosed Outer Plain ownFields sqlOperators symbols)

/-! ## Checked queries -/

theorem uses_comparison_of_check {field : Field} {op : ComparisonOp} (value : Value)
    (hop : op ∈ field.kind.operators) :
    (field.comparison op value).Uses ownFields sqlOperators := by
  cases field with
  | blocked | ready | label | labels => trivial
  | pinned | created | updated | priority =>
    revert hop
    cases op <;> simp [Field.kind, FieldKind.operators]
    all_goals exact ⟨⟨_, by decide, rfl⟩, by decide⟩
  | type | status | title | description | id | assignee =>
    cases op <;> first | exact ⟨⟨_, by decide, rfl⟩, by decide⟩ | exact ⟨_, by decide, rfl⟩

theorem uses_listTest_of_check {field : Field} (values : List Value) (negated : Bool)
    (hlist : field.kind.allowsList = true) :
    (field.listTest values negated).Uses ownFields sqlOperators := by
  cases field with
  | pinned | blocked | ready | created | updated => exact absurd hlist (by decide)
  | label | labels => trivial
  | type | status | priority | title | description | id | assignee =>
    exact ⟨_, by decide, rfl⟩

theorem Leaf.uses_of_check {l : Leaf} (hcheck : l.check = .ok ()) {c : Condition}
    (h : l.condition = .ok c) : c.Uses ownFields sqlOperators := by
  cases l with
  | compare name op value =>
    obtain ⟨field, hname, hop, -⟩ := Leaf.of_check_compare hcheck
    obtain ⟨field', hname', rfl⟩ := Leaf.condition_compare_eq_ok_iff.mp h
    obtain rfl := Option.some.inj (hname'.symm.trans hname)
    exact uses_comparison_of_check value hop
  | oneOf name values negated =>
    obtain ⟨field, hname, hlist, -⟩ := Leaf.of_check_oneOf hcheck
    obtain ⟨field', hname', rfl⟩ := Leaf.condition_oneOf_eq_ok_iff.mp h
    obtain rfl := Option.some.inj (hname'.symm.trans hname)
    exact uses_listTest_of_check values negated hlist

/-- A checked query asks only about fields with an expression of their own, or about sets and
labels, and compares only by operators of SQL. -/
theorem Query.uses_of_check {q : Query} (hcheck : q.check = .ok ()) {s : Selection}
    (hs : q.select = .ok s) {c : Condition} (hc : s.condition = some c) :
    c.Uses ownFields sqlOperators := by
  obtain ⟨-, hnone⟩ | ⟨f, d, hf, hcondition, hd⟩ := Query.condition_of_select hs
  · cases hc.symm.trans hnone
  · obtain rfl := Option.some.inj (hc.symm.trans hd)
    have hleaves : q.leaves = f.leaves := by simp [Query.leaves, hf]
    have hchecked := (Query.of_check hcheck).1
    rw [hleaves] at hchecked
    exact Filter.uses (fun l hl d => l.uses_of_check (hchecked l hl)) hcondition

/-- The names of a checked query are fields. -/
theorem Query.select_of_check {q : Query} (hcheck : q.check = .ok ()) :
    ∃ s, q.select = .ok s := by
  obtain ⟨hleaves, horder⟩ := Query.of_check hcheck
  obtain ⟨c, hc, -⟩ := Query.exists_condition hleaves
  obtain ⟨terms, hterms⟩ := exists_sortTerms horder
  refine ⟨⟨c, terms⟩, ?_⟩
  simp [Query.select, hc, hterms, bind, Except.bind, pure, Except.pure]

/-! ## Texts that stay together -/

/-- The parentheses of the text are balanced, no connective of it is outside of them, and it has no
operator of patterns, which SQL does not know. -/
structure Confined (text : String) : Prop where
  balanced : Balanced '(' ')' text.toList
  inner : ∀ first connective, ¬ Outer (symbols text) first connective
  noPattern : '~' ∉ text.toList

theorem Sql.symbols_of_feed {text : String} {raw : List Sql.Symbol}
    (h : Sql.Unfinished.nothing.feed text.toList = (raw, .nothing)) : symbols text = raw := by
  simp [symbols, h, Sql.Unfinished.finish]

theorem confined_of_uses {c : Condition} (h : c.Uses ownFields sqlOperators) :
    Confined c.render := by
  obtain ⟨raw, hfeed, henclosed⟩ := Sql.enclosed_render h
  refine ⟨(Sql.leads_render h 0).balanced, ?_, fun htilde => ?_⟩
  · rw [Sql.symbols_of_feed hfeed]
    exact henclosed.inner
  · -- none of the pieces has the sign
    have hnone : ∀ p ∈ Sql.pieces ownFields sqlOperators, '~' ∉ p.toList := by decide +kernel
    obtain ⟨p, hp, hmem⟩ := (Sql.madeOf_render h).exists_piece htilde
    exact hnone p hp hmem

theorem Sql.Condition.render_ne_empty (c : Condition) : c.render ≠ "" := by
  intro h
  have hlist := congrArg String.toList h
  cases c with
  | like column negated p => cases negated <;> simp [render] at hlist
  | _ => simp [render] at hlist

/-- The text of a condition is empty only if there is no filter. -/
theorem Query.whereText_eq_empty {q : Query} {s : Selection} (hs : q.select = .ok s) :
    s.whereText = "" ↔ q.filter = none := by
  unfold Selection.whereText
  obtain ⟨hf, hc⟩ | ⟨f, c, hf, -, hc⟩ := Query.condition_of_select hs
  · simp [hf, hc]
  · simp [hf, hc, c.render_ne_empty]

theorem Sql.SortTerm.render_ne_empty (term : Sql.SortTerm) : term.render ≠ "" := by
  intro h
  have hlist := congrArg String.toList h
  obtain ⟨key, descending⟩ := term
  cases descending <;> simp [render] at hlist

theorem Selection.orderText_ne_empty (s : Selection) : s.orderText ≠ "" := by
  unfold orderText
  split
  · decide
  · rename_i horder
    obtain ⟨term, terms, hterms⟩ := List.exists_cons_of_ne_nil (by simpa using horder)
    rw [hterms, List.map_cons]
    cases terms.map Sql.SortTerm.render with
    | nil =>
      rw [String.intercalate_singleton]
      exact term.render_ne_empty
    | cons u more =>
      rw [String.intercalate_cons_cons]
      intro h
      have hlist := congrArg String.toList h
      simp at hlist

/-! ## Conditions behind the fixed one -/

namespace Statement

/-- The symbols of the test of the state. -/
def stateSymbols : List Sql.Symbol :=
  [.name "i", .dot, .name "status", .word .not, .word .inList, .leftParen, .quoted "deleted",
    .comma, .quoted "tombstone", .rightParen]

/-- The symbols of the test of the time of deletion. -/
def deletionSymbols : List Sql.Symbol :=
  [.name "i", .dot, .name "deleted_at", .name "IS", .name "NULL"]

theorem enclosed_state : Enclosed stateSymbols := by
  have hcolumn : Plain [.name "i", .dot, .name "status"] := by decide
  have hwords : Plain [.quoted "deleted", .comma, .quoted "tombstone"] := by decide
  exact (Enclosed.plain hcolumn).append (Sql.enclosed_in true (Enclosed.plain hwords).balanced)

/-- Behind the fixed condition, the text leaves just two connectives outside of parentheses: the
`AND` within the fixed condition, and the `AND` between the two. -/
def Conjoined (text : String) : Prop :=
  ∀ first connective, Outer (symbols (liveIssue ++ " AND " ++ text)) first connective ↔
    connective = .word .and ∧
      (first = symbols "i.status NOT IN ('deleted', 'tombstone')" ∨ first = symbols liveIssue)

theorem conjoined_of_uses {c : Condition} (h : c.Uses ownFields sqlOperators) :
    Conjoined c.render := by
  intro first connective
  obtain ⟨raw, hfeed, henclosed⟩ := Sql.enclosed_render h
  have hlive : Sql.Unfinished.nothing.feed (liveIssue ++ " AND ").toList =
      (stateSymbols ++ .word .and :: (deletionSymbols ++ [.word .and]), .nothing) := by
    decide +kernel
  have hsymbols : symbols (liveIssue ++ " AND " ++ c.render) =
      stateSymbols ++ .word .and :: (deletionSymbols ++ .word .and :: raw) := by
    apply Sql.symbols_of_feed
    rw [String.toList_append, Sql.Unfinished.feed_append hlive, hfeed]
    simp
  have hstate : symbols "i.status NOT IN ('deleted', 'tombstone')" = stateSymbols := by
    decide +kernel
  have hall : symbols liveIssue = stateSymbols ++ .word .and :: deletionSymbols := by
    decide +kernel
  have hdeletion : Enclosed deletionSymbols := .plain (by decide)
  have hand : (Sql.Symbol.word .and).isConnective = true := rfl
  rw [hsymbols, Sql.outer_join enclosed_state hand, hstate, hall]
  simp only [Sql.outer_join hdeletion hand]
  constructor
  · rintro (⟨rfl, rfl⟩ | ⟨more, rfl, ⟨rfl, rfl⟩ | ⟨later, -, houter⟩⟩)
    · exact ⟨rfl, .inl rfl⟩
    · exact ⟨rfl, .inr rfl⟩
    · -- the last operand has none
      exact absurd houter (henclosed.inner later connective)
  · rintro ⟨rfl, rfl | rfl⟩
    · exact .inl ⟨rfl, rfl⟩
    · exact .inr ⟨deletionSymbols, rfl, .inl ⟨rfl, rfl⟩⟩

end Statement

end IssueQuery
