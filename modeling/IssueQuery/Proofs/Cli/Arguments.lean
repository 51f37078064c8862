import IssueQuery.Cli
import Mathlib.Data.List.Basic

/-!
# Which argument is the query

Two scans read the arguments of a query. One looks for the value behind the first occurrence of a
flag; a flag there is none. The other looks for the query text and passes over whatever stands behind
a flag that takes a value, be it a flag or not. So they agree about an argument unless flags that
take values stand one behind the other: then the second of them counts as the value of the first one
for the one scan only, and what stands behind it may be taken for the query although it is its value.

* `flagPlace`, `queryPlace`  where the scans find what they give;
* `Standalone`               an argument that is no flag and no value;
* `search_placeIn`           what the scan for the query text has passed over;
* `query_place`              it stops at the first argument that stands alone, or behind two flags.
-/

namespace IssueQuery.Cli

/-! ## Places -/

/-- The flags of a query that take a value. -/
def valueFlags : List String := ["--db", "--log-level"]

/-- Whether an argument is a flag that takes a value. -/
def takesValue (arg : Text) : Bool := valueFlags.any fun flag => Text.ofString flag == arg

/-- The argument at a place is a flag that takes a value. -/
def TakesValueAt (args : List Text) (p : Nat) : Prop := (args[p]?).any takesValue = true

instance (args : List Text) (p : Nat) : Decidable (TakesValueAt args p) :=
  inferInstanceAs (Decidable (_ = true))

/-- The place of the value behind the first occurrence of a flag, if it has a value. -/
def flagPlace (args : List Text) (flag : String) : Option Nat :=
  let p := args.idxOf (Text.ofString flag) + 1
  if (args[p]?).all fun value => value.isEmpty || isFlag value then none else some p

/-- The place of the first argument that is neither a flag nor behind a flag that takes a value, the
first one being at the place `n`. -/
def placeIn (n : Nat) : List Text → Option Nat
  | [] => none
  | [arg] => if isFlag arg then none else some n
  | arg :: value :: rest =>
    if takesValue arg then placeIn (n + 2) rest
    else if isFlag arg then placeIn (n + 1) (value :: rest)
    else some n

/-- The place of the query text, the command being at the first place. -/
def queryPlace (args : List Text) : Option Nat := placeIn 1 args.tail

variable {args rest : List Text} {arg : Text} {n m p q : Nat} {flag : String}

theorem getElem?_of_drop (hdrop : args.drop n = arg :: rest) : args[n]? = some arg := by
  have hfirst : (args.drop n)[0]? = some arg := by rw [hdrop]; rfl
  rwa [List.getElem?_drop] at hfirst

theorem drop_succ_of_drop (hdrop : args.drop n = arg :: rest) : args.drop (n + 1) = rest := by
  rw [← List.drop_drop, hdrop]
  rfl

theorem dropWhile_ne_eq_drop (args : List Text) (text : Text) :
    (args.dropWhile fun a => a != text) = args.drop (args.idxOf text) := by
  induction args with
  | nil => rfl
  | cons a rest ih =>
    by_cases h : a = text
    · simp [h]
    · rw [List.dropWhile_cons_of_pos (by simpa using h), ih, List.idxOf_cons_ne rest h]
      rfl

/-- A flag has the value at its place. -/
theorem flagValue_eq (args : List Text) (flag : String) :
    flagValue args flag = (flagPlace args flag).bind (args[·]?) := by
  have hsecond : (args.drop (args.idxOf (Text.ofString flag)))[1]? =
      args[args.idxOf (Text.ofString flag) + 1]? := List.getElem?_drop
  unfold flagValue flagPlace
  rw [dropWhile_ne_eq_drop]
  dsimp only
  rw [← hsecond]
  generalize args.drop (args.idxOf (Text.ofString flag)) = rest at hsecond
  match rest with
  | [] | [_] => rfl
  | _ :: value :: _ =>
    show (if value.isEmpty || isFlag value then none else some value) =
      (if value.isEmpty || isFlag value then none else some _).bind _
    split
    · rfl
    · exact hsecond

/-- The scan gives the argument at its place. -/
theorem positionalIn_eq (hdrop : args.drop n = rest) :
    positionalIn valueFlags rest = (placeIn n rest).bind (args[·]?) := by
  fun_induction placeIn n rest with
  | case1 => rfl
  | case2 n arg hflag => simp [positionalIn, hflag]
  | case3 n arg hflag => simp [positionalIn, hflag, getElem?_of_drop hdrop]
  | case4 n arg value rest hvalue ih =>
    rw [positionalIn]
    exact (if_pos hvalue).trans (ih (drop_succ_of_drop (drop_succ_of_drop hdrop)))
  | case5 n arg value rest hvalue hflag ih =>
    rw [positionalIn, if_pos hflag]
    exact (if_neg hvalue).trans (ih (drop_succ_of_drop hdrop))
  | case6 n arg value rest hvalue hflag =>
    rw [positionalIn, if_neg hflag, Option.bind_some, getElem?_of_drop hdrop]
    exact if_neg hvalue

theorem positional_eq (args : List Text) :
    positional args valueFlags = (queryPlace args).bind (args[·]?) :=
  positionalIn_eq (List.drop_one)

/-! ## Arguments that stand alone -/

/-- The argument at a place is no flag, is not read as the value of one, and does not stand behind
one that takes a value. -/
structure Standalone (args : List Text) (p : Nat) : Prop where
  unflagged : ∃ arg, args[p]? = some arg ∧ isFlag arg = false
  notValue : ∀ flag ∈ valueFlags, flagPlace args flag ≠ some p
  notBehind : ∀ q, p = q + 1 → ¬TakesValueAt args q

theorem isFlag_of_takesValue (h : takesValue arg = true) : isFlag arg = true := by
  obtain ⟨flag, hflag, harg⟩ := List.any_eq_true.mp h
  obtain rfl := beq_iff_eq.mp harg
  revert flag
  decide

theorem takesValueAt_iff (hget : args[p]? = some arg) :
    TakesValueAt args p ↔ takesValue arg = true := by
  rw [TakesValueAt, hget, Option.any_some]

/-- The value of a flag stands behind it. -/
theorem takesValueAt_of_flagPlace (hflag : flag ∈ valueFlags) (h : flagPlace args flag = some p) :
    ∃ q, p = q + 1 ∧ TakesValueAt args q := by
  unfold flagPlace at h
  dsimp only at h
  split at h
  · cases h
  · rename_i hvalue
    refine ⟨_, (Option.some.inj h).symm, ?_⟩
    -- there is something behind the flag, so the flag is there
    have hmem : Text.ofString flag ∈ args := by
      refine List.idxOf_lt_length_iff.mp (Nat.lt_of_succ_lt (Nat.lt_of_not_le fun hle => ?_))
      exact hvalue (by rw [List.getElem?_eq_none hle, Option.all_none])
    rw [takesValueAt_iff (List.getElem?_idxOf hmem)]
    exact List.any_eq_true.mpr ⟨flag, hflag, beq_self_eq_true _⟩

/-- What is no flag stands alone unless a flag that takes a value is in front of it. -/
theorem standalone_iff (hunflagged : ∃ arg, args[p]? = some arg ∧ isFlag arg = false) :
    Standalone args p ↔ ∀ q, p = q + 1 → ¬TakesValueAt args q := by
  refine ⟨Standalone.notBehind, fun hnot => ⟨hunflagged, fun flag hflag hplace => ?_, hnot⟩⟩
  obtain ⟨q, hq, htakes⟩ := takesValueAt_of_flagPlace hflag hplace
  exact hnot q hq htakes

theorem not_standalone_of_flag (hget : args[p]? = some arg) (hflag : isFlag arg = true) :
    ¬Standalone args p := by
  rintro ⟨⟨arg', hget', hunflagged⟩, -, -⟩
  obtain rfl := Option.some.inj (hget.symm.trans hget')
  exact Bool.false_ne_true (hunflagged.symm.trans hflag)

theorem not_standalone_of_none (hget : args[p]? = none) : ¬Standalone args p := by
  rintro ⟨⟨arg, harg, -⟩, -, -⟩
  exact nomatch hget.symm.trans harg

/-! ## The search for the query text -/

/-- In front of a place there is no flag that takes a value, or there are two. -/
def Paired (args : List Text) (p : Nat) : Prop :=
  TakesValueAt args (p - 1) → TakesValueAt args (p - 2)

/-- What a search from the place `n` on comes to. Everything that it has passed over is a flag or
stands behind one that takes a value. -/
inductive Search (args : List Text) (n : Nat) : Option Nat → Prop
  | found {p : Nat} (hle : n ≤ p) (hunflagged : ∃ arg, args[p]? = some arg ∧ isFlag arg = false)
    (hpassed : ∀ q, n ≤ q → q < p → ¬Standalone args q) (hpaired : Paired args p) :
    Search args n (some p)
  | exhausted (hpassed : ∀ q, n ≤ q → ¬Standalone args q) : Search args n none

/-- A search may pass over what does not stand alone. -/
theorem Search.skip {place : Option Nat} (h : Search args m place) (hle : n ≤ m)
    (hskipped : ∀ q, n ≤ q → q < m → ¬Standalone args q) : Search args n place := by
  cases h with
  | found hfrom hunflagged hpassed hpaired =>
    refine .found (Nat.le_trans hle hfrom) hunflagged (fun q hq hlt => ?_) hpaired
    exact (Nat.lt_or_ge q m).elim (hskipped q hq) fun hge => hpassed q hge hlt
  | exhausted hpassed =>
    refine .exhausted fun q hq => ?_
    exact (Nat.lt_or_ge q m).elim (hskipped q hq) (hpassed q)

theorem search_nil (hdrop : args.drop n = []) : Search args n none :=
  .exhausted fun _ hq => not_standalone_of_none
    (List.getElem?_eq_none (Nat.le_trans (List.drop_eq_nil_iff.mp hdrop) hq))

theorem search_placeIn (hdrop : args.drop n = rest) (hpaired : Paired args n) :
    Search args n (placeIn n rest) := by
  have hstop {n : Nat} {arg : Text} {rest : List Text} (hdrop : args.drop n = arg :: rest)
      (hflag : ¬isFlag arg = true) (hpaired : Paired args n) : Search args n (some n) :=
    .found (Nat.le_refl n) ⟨arg, getElem?_of_drop hdrop, eq_false_of_ne_true hflag⟩
      (fun q hq hlt => absurd hq (Nat.not_le_of_lt hlt)) hpaired
  fun_induction placeIn n rest with
  | case1 n => exact search_nil hdrop
  | case2 n arg hflag =>
    refine (search_nil (drop_succ_of_drop hdrop)).skip (Nat.le_succ n) fun q hq hlt => ?_
    obtain rfl := Nat.le_antisymm (Nat.le_of_lt_succ hlt) hq
    exact not_standalone_of_flag (getElem?_of_drop hdrop) hflag
  | case3 n arg hflag => exact hstop hdrop hflag hpaired
  | case4 n arg value rest hvalue ih =>
    have htakes : TakesValueAt args n := (takesValueAt_iff (getElem?_of_drop hdrop)).mpr hvalue
    -- the flag is passed over with what stands behind it, and so there are two flags or none
    refine (ih (drop_succ_of_drop (drop_succ_of_drop hdrop)) fun _ => htakes).skip
      (Nat.le_add_right n 2) fun q hq hlt => ?_
    obtain rfl | rfl : q = n ∨ q = n + 1 := by omega
    · exact not_standalone_of_flag (getElem?_of_drop hdrop) (isFlag_of_takesValue hvalue)
    · exact fun halone => halone.notBehind n rfl htakes
  | case5 n arg value rest hvalue hflag ih =>
    have hget := getElem?_of_drop hdrop
    refine (ih (drop_succ_of_drop hdrop) fun htakes => ?_).skip (Nat.le_succ n) fun q hq hlt => ?_
    · exact absurd ((takesValueAt_iff hget).mp htakes) hvalue
    · obtain rfl := Nat.le_antisymm (Nat.le_of_lt_succ hlt) hq
      exact not_standalone_of_flag hget hflag
  | case6 n arg value rest hvalue hflag => exact hstop hdrop hflag hpaired

/-- Which argument is taken for the query.

It is no flag, and every argument in front of it but the command is a flag, the value of a flag, or
behind a flag that takes a value. It is none of these itself just if it does not stand behind two
flags that take values. If no argument is taken, none of them stands alone. -/
theorem query_place (rest : List Text) :
    let args := Text.ofString "query" :: rest
    positional args ["--db", "--log-level"] = (queryPlace args).bind (args[·]?) ∧
    (∀ flag, flagValue args flag = (flagPlace args flag).bind (args[·]?)) ∧
    (∀ p, queryPlace args = some p →
      0 < p ∧ (∃ arg, args[p]? = some arg ∧ isFlag arg = false) ∧
      (∀ q, 0 < q → q < p → ¬Standalone args q) ∧
      (Standalone args p ↔ ¬(TakesValueAt args (p - 1) ∧ TakesValueAt args (p - 2)))) ∧
    (queryPlace args = none → ∀ q, 0 < q → ¬Standalone args q) := by
  intro args
  -- the command itself takes no value, so the search starts clean behind it
  have hcommand : ¬TakesValueAt args 0 := by
    rw [takesValueAt_iff (rfl : args[0]? = some (Text.ofString "query"))]
    decide
  have hsearch : Search args 1 (queryPlace args) :=
    search_placeIn List.drop_one fun htakes => absurd htakes hcommand
  refine ⟨positional_eq args, flagValue_eq args, fun p hp => ?_, fun hp => ?_⟩
  · rw [hp] at hsearch
    obtain ⟨hpos, hunflagged, hpassed, hpaired⟩ | _ := hsearch
    refine ⟨hpos, hunflagged, hpassed, ?_⟩
    -- whether the argument stands alone is a matter of the two in front of it
    obtain ⟨q, rfl⟩ := Nat.exists_eq_add_of_le' hpos
    rw [standalone_iff hunflagged]
    constructor
    · exact fun hnot htwo => hnot q rfl htwo.1
    · rintro hnot q' hq' htakes
      obtain rfl := Nat.succ.inj hq'
      exact hnot ⟨htakes, hpaired htakes⟩
  · rw [hp] at hsearch
    cases hsearch with
    | exhausted hpassed => exact hpassed

/-- Behind one flag and its value the query stands alone. -/
theorem query_place_behind_value :
    let args : List Text := ["query", "--json", "--db", "issues.db", "type = bug", "--db"]
    queryPlace args = some 4 ∧ ¬TakesValueAt args 3 ∧ Standalone args 4 := by
  intro args
  have hplace : queryPlace args = some 4 := by decide
  have hbehind : ¬TakesValueAt args 3 := by decide
  obtain ⟨-, -, hplaced, -⟩ := query_place ["--json", "--db", "issues.db", "type = bug", "--db"]
  obtain ⟨-, -, -, hstandalone⟩ := hplaced 4 hplace
  exact ⟨hplace, hbehind, hstandalone.mpr fun htwo => hbehind htwo.1⟩

/-- Behind two flags that take values, the value of the second one is taken for the query. -/
theorem query_place_behind_flags :
    let args : List Text := ["query", "--db", "--log-level", "debug"]
    queryPlace args = some 3 ∧ positional args ["--db", "--log-level"] = some "debug" ∧
    flagPlace args "--log-level" = some 3 ∧ flagValue args "--log-level" = some "debug" ∧
    TakesValueAt args 2 ∧ ¬Standalone args 3 := by
  intro args
  have htakes : TakesValueAt args 2 := by decide
  exact ⟨by decide, by decide, by decide, by decide, htakes,
    fun halone => halone.notBehind 2 rfl htakes⟩

end IssueQuery.Cli
