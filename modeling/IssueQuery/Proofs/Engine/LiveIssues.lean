import IssueQuery.Cli
import IssueQuery.Proofs.Engine.Asking

/-!
# Deleted issues stay out

Every statement for issues that an engine asks begins with one fixed text, whose condition leaves
out the issues that were deleted. Behind it stands what the query selects by, letter by letter what
the command `check` prints, or a list of identifiers; and neither can make the fixed condition any
less than a conjunct of the whole.
-/

namespace IssueQuery.Engine

open Sql (ownFields sqlOperators placeholders)
open Statement (Conjoined)

variable {cfg : Settings} {store : Store} {s : State}

/-- What every statement for issues begins with. -/
def fixedText : String :=
  "SELECT " ++ ", ".intercalate (Issue.columns.map fun c => "i." ++ c)
    ++ " FROM issues i WHERE i.status NOT IN ('deleted', 'tombstone') AND i.deleted_at IS NULL"

theorem allIssues_eq : Statement.allIssues = fixedText := by
  decide +kernel

/-- The statement of a query: the fixed text, the condition if there is a filter, and the order. -/
theorem selected_eq {q : Query} {selection : Selection} (hselect : q.select = .ok selection) :
    Statement.selected selection =
      ⟨fixedText ++ (if q.filter.isSome then " AND " ++ selection.whereText else "")
        ++ (" ORDER BY " ++ selection.orderText), selection.params⟩ := by
  have hwhere := Query.whereText_eq_empty hselect
  rw [Statement.selected, Statement.issues, allIssues_eq, if_neg selection.orderText_ne_empty]
  cases hfilter : q.filter with
  | none => simp [hwhere.mpr hfilter]
  | some f =>
    have hne : selection.whereText ≠ "" := fun hempty => by
      cases hfilter.symm.trans (hwhere.mp hempty)
    simp [hne]

/-- The statement for some identifiers: the fixed text, and a list of as many marks. -/
theorem withIds_eq (ids : List Text) :
    Statement.withIds ids =
      ⟨fixedText ++ (" AND " ++ ("i.id IN (" ++ placeholders ids.length ++ ")")),
        ids.map .text⟩ := by
  have hne : "i.id IN (" ++ placeholders ids.length ++ ")" ≠ "" := by
    intro h
    have hlist := congrArg String.toList h
    simp at hlist
  simp [Statement.withIds, Statement.issues, allIssues_eq, hne, Statement.idParams]

/-- A list of identifiers is one operand. -/
theorem conjoined_ids (count : Nat) :
    Conjoined ("i.id IN (" ++ placeholders count ++ ")") := by
  let c : Sql.Condition := .oneOf Field.id.column false (List.replicate count (.text []))
  have huses : c.Uses ownFields sqlOperators := ⟨.id, by decide, rfl⟩
  have htext : c.render = "i.id IN (" ++ placeholders count ++ ")" := by
    simp only [c, Sql.Condition.render, Sql.membership, List.length_replicate]
    rfl
  exact htext ▸ Statement.conjoined_of_uses huses

/-- Without a filter there is nothing to confine. -/
theorem confined_empty : Confined "" where
  balanced := .of_not_mem (by decide) (by decide)
  inner := by
    rintro first connective ⟨⟨rest, hsymbols⟩, -⟩
    have hnone : Sql.symbols "" = [] := by decide
    rw [hnone] at hsymbols
    simp at hsymbols
  noPattern := by decide

/-! ## What `check` prints -/

/-- A value that is bound to a `?`, as JSON. -/
def boundValue : Sql.Param → Json
  | .text t => .str t
  | .number n => .num n

/-- The value on one line. -/
def boundText : Sql.Param → Text
  | .text t => t.quoted
  | .number n => Json.number n

/-- The lines that `check` prints: the condition, the order, the values to bind, and the expansion if
there is one. -/
def checkedLines (q : Query) (selection : Selection) : List Text :=
  ["WHERE    " ++ Text.ofString (if q.filter.isSome then selection.whereText else "(none)"),
    "ORDER BY " ++ Text.ofString selection.orderText,
    "PARAMS   [" ++ Text.join "," (selection.params.map boundText) ++ "]"] ++
  match q.expansion with
  | none => []
  | some ⟨direction, .levels n⟩ =>
    ["EXPAND   " ++ Text.ofString direction.name ++ " depth " ++ (Number.ofInt n).toText]
  | some ⟨direction, .unlimited⟩ =>
    ["EXPAND   " ++ Text.ofString direction.name ++ " depth unlimited"]

/-- The members of the object that `check` prints if it is asked for JSON. -/
def checkedMembers (q : Query) (selection : Selection) : List (Text × Json) :=
  let expansion : Json :=
    match q.expansion with
    | none => .null
    | some ⟨direction, .levels n⟩ =>
      .obj [("direction", .ofString direction.name), ("depth", .num (Number.ofInt n))]
    | some ⟨direction, .unlimited⟩ =>
      .obj [("direction", .ofString direction.name), ("depth", .ofString "unlimited")]
  [("where", .ofString selection.whereText), ("order_by", .ofString selection.orderText),
    ("params", .arr (selection.params.map boundValue)), ("expand", expansion)]

theorem paramJson_eq : Cli.paramJson = boundValue := by
  funext param
  cases param <;> rfl

theorem compactItems_boundValue (params : List Sql.Param) :
    Json.compactItems (params.map boundValue) = params.map boundText := by
  induction params with
  | nil => rfl
  | cons param rest ih =>
    rw [List.map_cons, List.map_cons, Json.compactItems, ih]
    cases param <;> rfl

theorem selectionText_eq {q : Query} {selection : Selection} (hselect : q.select = .ok selection) :
    Cli.selectionText q selection =
      ((checkedLines q selection).map fun l => l ++ Text.ofString "\n").flatten := by
  have hwhere : (if selection.whereText = "" then "(none)" else selection.whereText) =
      if q.filter.isSome then selection.whereText else "(none)" := by
    simp only [Query.whereText_eq_empty hselect]
    cases q.filter <;> rfl
  unfold Cli.selectionText checkedLines
  rw [hwhere, paramJson_eq, Json.compact, compactItems_boundValue]
  obtain _ | ⟨direction, _ | _⟩ := q.expansion <;>
    simp [Cli.line, Cli.depthText, Json.bracketed, Text.ofString]

theorem selectionJson_eq (q : Query) (selection : Selection) :
    Cli.selectionJson q selection = .obj (checkedMembers q selection) := by
  unfold Cli.selectionJson checkedMembers
  rw [paramJson_eq]
  obtain _ | ⟨direction, _ | _⟩ := q.expansion <;> rfl

/-! ## Events that ask nothing -/

theorem started_invalidateEach {κ ν : Type} [DecidableEq κ] (keys : List κ)
    (c : ReadThrough κ ν) : (keys.foldl ReadThrough.invalidate c).started = c.started := by
  induction keys generalizing c with
  | nil => rfl
  | cons k keys ih => exact ih (c.invalidate k)

theorem notes_of_quiet {event : Event} (hcall : ∀ text signal, event ≠ .call text signal)
    (htick : event ≠ .tick) : Notes s (step cfg store s event) [] := by
  cases event with
  | call text signal => exact absurd rfl (hcall text signal)
  | tick => exact absurd rfl htick
  | abort signal reason => exact notes_abort s signal reason
  | invalidate => exact .of_eq rfl rfl
  | invalidateGraph => exact .of_eq rfl (started_invalidateEach s.expanding s.queries)
  | advance span => exact .of_eq rfl rfl
  | close => exact .of_eq rfl rfl

/-! ## All statements -/

/-- No statement for issues gets around the condition that they were not deleted. A call starts no
load and asks nothing, or it starts one load, which first gives the store the statement of the query
of the text; a turn asks nothing, or first for the issues of some identifiers; whatever else they
ask belongs to issues that were fetched, or to the graph; and nothing else asks anything.

The statement of a checked query is the fixed text, then `AND` and the condition if there is a
filter, then the order, with the parameters of the query; that for identifiers is the fixed text and
a list of marks. The condition uses only columns that there are and operators of SQL, its
parentheses are balanced, and no connective of it is outside of them: so the fixed condition is a
conjunct of the whole. The command `check` prints these same texts and parameters, in lines or as
JSON. -/
theorem statements_keep_live (hs : Reachable cfg store s) :
    (∀ text signal, Notes s (step cfg store s (.call text signal)) [] ∨
      ∃ q, readQuery text = .ok q ∧ Begins q s (step cfg store s (.call text signal))) ∧
    (∃ entries, Notes s (step cfg store s .tick) entries ∧
      (entries = [] ∨ ∃ ids, ids ≠ [] ∧ Fetched (.withIds ids) entries)) ∧
    (∀ event, (∀ text signal, event ≠ .call text signal) → event ≠ .tick →
      Notes s (step cfg store s event) []) ∧
    (∀ q : Query, q.check = .ok () → ∃ selection, q.select = .ok selection ∧
      Statement.selected selection =
        ⟨fixedText ++ (if q.filter.isSome then " AND " ++ selection.whereText else "")
          ++ (" ORDER BY " ++ selection.orderText), selection.params⟩ ∧
      (∀ c, selection.condition = some c → c.Uses ownFields sqlOperators) ∧
      Confined selection.whereText ∧ (q.filter.isSome → Conjoined selection.whereText)) ∧
    (∀ field ∈ ownFields, field.column ≠ "") ∧
    (∀ ids, Statement.withIds ids =
        ⟨fixedText ++ (" AND " ++ ("i.id IN (" ++ placeholders ids.length ++ ")")),
          ids.map .text⟩ ∧
      Conjoined ("i.id IN (" ++ placeholders ids.length ++ ")")) ∧
    ∀ args text q selection, Cli.positional args [] = some text → readQuery text = .ok q →
      q.select = .ok selection →
      Cli.check args = .printed (if Cli.hasFlag args "--json"
        then (Json.obj (checkedMembers q selection)).pretty ++ Text.ofString "\n"
        else ((checkedLines q selection).map fun l => l ++ Text.ofString "\n").flatten) := by
  obtain ⟨m, htraced⟩ := hs.traced
  refine ⟨fun text signal => call_notes cfg store htraced.below text signal,
    tick_notes cfg store s, fun event => notes_of_quiet, ?_, by decide, fun ids => ?_, ?_⟩
  · intro q hcheck
    obtain ⟨selection, hselect⟩ := Query.select_of_check hcheck
    have huses := fun c => Query.uses_of_check hcheck hselect (c := c)
    refine ⟨selection, hselect, selected_eq hselect, huses, ?_, fun hfilter => ?_⟩
    · -- a query without a filter has no condition
      unfold Selection.whereText
      cases hc : selection.condition with
      | none => exact confined_empty
      | some c => exact confined_of_uses (huses c hc)
    · obtain ⟨hnone, -⟩ | ⟨f, c, -, -, hc⟩ := Query.condition_of_select hselect
      · rw [hnone] at hfilter
        exact nomatch hfilter
      · simp only [Selection.whereText, hc]
        exact Statement.conjoined_of_uses (huses c hc)
  · exact ⟨withIds_eq ids, conjoined_ids ids.length⟩
  · intro args text q selection hargs hquery hselect
    simp only [Cli.check, hargs, hquery, hselect, selectionJson_eq, selectionText_eq hselect,
      Cli.line]

/-- A disjunction, which would let every open issue in if it were not in parentheses. -/
def openOrLog : Text := Text.ofString "status = open or title ~ log"

/-- What the command prints of the disjunction. -/
example : (Cli.check ["check", openOrLog]).out =
    Text.ofString ("WHERE    (i.status = ? OR i.title LIKE ?)\n" ++ "ORDER BY i.updated_at DESC\n"
      ++ "PARAMS   [\"open\",\"%log%\"]\n") := by
  decide +kernel

/-- The engine when it has been called with the disjunction. -/
def calledOnce : State :=
  step ⟨5, false, default⟩ (wordStore [["old"]]) (.initial 0) (.call openOrLog none)

theorem statements_keep_live_disjunction :
    ∃ q selection, readQuery openOrLog = .ok q ∧ q.select = .ok selection ∧
      selection.whereText = "(i.status = ? OR i.title LIKE ?)" ∧
      Conjoined selection.whereText ∧ Fetched (.selected selection) calledOnce.journal ∧
      Cli.check ["check", openOrLog] =
        .printed ((checkedLines q selection).map fun l => l ++ Text.ofString "\n").flatten := by
  have hreachable : Reachable ⟨5, false, default⟩ (wordStore [["old"]]) (.initial 0) :=
    ⟨0, none, none, none, none, [], rfl⟩
  obtain ⟨hcalls, -, -, hchecked, -, -, hprints⟩ := statements_keep_live hreachable
  have hasked : calledOnce.journal ≠ [] ∧
      (readQuery openOrLog).toOption.bind (fun q => q.select.toOption.map Selection.whereText) =
        some "(i.status = ? OR i.title LIKE ?)" := by decide +kernel
  obtain hnotes | ⟨q, hquery, selection, entries, hselect, -, hjournal, hfetched⟩ :=
    hcalls openOrLog none
  · exact absurd hnotes.journal hasked.1
  · have hwhere := hasked.2
    rw [hquery] at hwhere
    obtain ⟨selection', hselect', -, -, -, hconjoined⟩ := hchecked q (check_of_readQuery hquery)
    obtain rfl := Except.ok.inj (hselect.symm.trans hselect')
    simp only [Except.toOption, Option.bind_some, hselect, Option.map_some, Option.some.injEq]
      at hwhere
    have hfilter : q.filter.isSome := by
      rw [Option.isSome_iff_ne_none]
      intro hnone
      rw [(Query.whereText_eq_empty hselect).mpr hnone] at hwhere
      exact absurd hwhere (by decide)
    refine ⟨q, selection, hquery, hselect, hwhere, hconjoined hfilter, ?_, ?_⟩
    · have hfirst : calledOnce.journal = entries := hjournal
      exact hfirst ▸ hfetched
    · exact hprints ["check", openOrLog] openOrLog q selection (by decide) hquery hselect

end IssueQuery.Engine
