import IssueQuery.Proofs.Query.FixedText

/-!
# Which queries are typed, and the first fault of the others

What makes sense is said by rules over the syntax of queries, and so is which fault comes first: the
rules for a part that comes later ask that the parts before it are typed. The check decides both.

* `FieldKind.Permits`, `PermitsList`, `Takes`   what may stand beside a field of a kind;
* `Query.Typed`           the queries that make sense;
* `Query.Fault`           the first fault of a query;
* `Decides`               a computation that accepts, or reports the first fault;
* `Query.check_decides`   the check accepts what is typed and reports the first fault.
-/

namespace IssueQuery

/-! ## What may stand beside a field -/

/-- The name is that of the field. -/
def Field.Named (field : Field) (name : Text) : Prop := name = Text.ofString field.name

/-- The operators by which fields of a kind are compared. Every field may be equal or not, texts may
contain a part, and only what has an order is compared by it. -/
inductive FieldKind.Permits : FieldKind → ComparisonOp → Prop
  | eq (kind : FieldKind) : Permits kind .eq
  | ne (kind : FieldKind) : Permits kind .ne
  | contains : Permits .string .contains
  | notContains : Permits .string .notContains
  | order {kind : FieldKind} {op : ComparisonOp} (hkind : kind = .priority ∨ kind = .date)
    (hop : op = .lt ∨ op = .gt ∨ op = .le ∨ op = .ge) : Permits kind op

/-- The kinds of fields that may be tested against a list. -/
inductive FieldKind.PermitsList : FieldKind → Prop
  | string : PermitsList .string
  | oneOf (words : List String) : PermitsList (.oneOf words)
  | priority : PermitsList .priority

/-- The values of each kind. A text may be anything. One of a list of words is the word in quotes or
without them, or anything else whose source is the word. -/
inductive FieldKind.Takes : FieldKind → Value → Prop
  | string (value : Value) : Takes .string value
  | bool (raw : Text) (b : Bool) : Takes .bool (.bool raw b)
  | priority (raw : Text) (level : Number) : Takes .priority (.priority raw level)
  | date (raw date : Text) : Takes .date (.date raw date)
  | word {words : List String} {word : String} (raw : Text) (h : word ∈ words) :
    Takes (.oneOf words) (.string raw (Text.ofString word))
  | source {words : List String} {word : String} {value : Value} (h : word ∈ words)
    (hother : ∀ raw text, value ≠ .string raw text) (hraw : value.raw = Text.ofString word) :
    Takes (.oneOf words) value

/-! ## Queries that make sense -/

/-- The leaves that make sense. -/
inductive Leaf.Typed : Leaf → Prop
  | compare {name : Text} {field : Field} {op : ComparisonOp} {value : Value}
    (hname : field.Named name) (hop : field.kind.Permits op) (hvalue : field.kind.Takes value) :
    Typed (.compare name op value)
  | oneOf {name : Text} {field : Field} {values : List Value} {negated : Bool}
    (hname : field.Named name) (hlist : field.kind.PermitsList)
    (hvalues : ∀ v ∈ values, field.kind.Takes v) : Typed (.oneOf name values negated)

/-- The filters that make sense. -/
inductive Filter.Typed : Filter → Prop
  | leaf {l : Leaf} (h : l.Typed) : Typed (.leaf l)
  | not {f : Filter} (h : f.Typed) : Typed (.not f)
  | binary {connective : Connective} {left right : Filter} (hleft : left.Typed)
    (hright : right.Typed) : Typed (.binary connective left right)

/-- The order terms that make sense. -/
def OrderTerm.Typed (term : OrderTerm) : Prop := ∃ field : Field, field.Named term.field

/-- The queries that make sense. -/
structure Query.Typed (q : Query) : Prop where
  filter : ∀ f ∈ q.filter, f.Typed
  order : ∀ term ∈ q.order, term.Typed

/-! ## The first fault -/

/-- The first fault of a leaf: its name, or else what stands behind the name, or else the first
value that is of another kind. -/
inductive Leaf.Fault : Leaf → CheckError → Prop
  | name {l : Leaf} (hname : ∀ field : Field, ¬ field.Named l.name) : Fault l (.unknownField l.name)
  | operator {name : Text} {field : Field} {op : ComparisonOp} {value : Value}
    (hname : field.Named name) (hop : ¬ field.kind.Permits op) :
    Fault (.compare name op value) (.badOperator field op)
  | value {name : Text} {field : Field} {op : ComparisonOp} {value : Value}
    (hname : field.Named name) (hop : field.kind.Permits op)
    (hvalue : ¬ field.kind.Takes value) :
    Fault (.compare name op value) (.badValue field (field.kind.given value))
  | list {name : Text} {field : Field} {values : List Value} {negated : Bool}
    (hname : field.Named name) (hlist : ¬ field.kind.PermitsList) :
    Fault (.oneOf name values negated) (.badList field negated)
  | listed {name : Text} {field : Field} {before after : List Value} {value : Value}
    {negated : Bool} (hname : field.Named name) (hlist : field.kind.PermitsList)
    (hbefore : ∀ v ∈ before, field.kind.Takes v) (hvalue : ¬ field.kind.Takes value) :
    Fault (.oneOf name (before ++ value :: after) negated)
      (.badValue field (field.kind.given value))

/-- The first fault of a filter, from left to right. -/
inductive Filter.Fault : Filter → CheckError → Prop
  | leaf {l : Leaf} {e : CheckError} (h : l.Fault e) : Fault (.leaf l) e
  | not {f : Filter} {e : CheckError} (h : f.Fault e) : Fault (.not f) e
  | left {connective : Connective} {left right : Filter} {e : CheckError} (h : left.Fault e) :
    Fault (.binary connective left right) e
  | right {connective : Connective} {left right : Filter} {e : CheckError} (hleft : left.Typed)
    (h : right.Fault e) : Fault (.binary connective left right) e

/-- The first fault of an order: the first name of no field. -/
inductive OrderFault : List OrderTerm → CheckError → Prop
  | intro {before after : List OrderTerm} {term : OrderTerm} (hbefore : ∀ t ∈ before, t.Typed)
    (h : ¬ term.Typed) : OrderFault (before ++ term :: after) (.unknownOrderField term.field)

/-- The first fault of a query: that of its filter, or else that of its order. -/
inductive Query.Fault : Query → CheckError → Prop
  | filter {q : Query} {f : Filter} {e : CheckError} (hfilter : q.filter = some f) (h : f.Fault e) :
    Fault q e
  | order {q : Query} {e : CheckError} (hfilter : ∀ f ∈ q.filter, f.Typed)
    (h : OrderFault q.order e) : Fault q e

/-! ## What decides -/

/-- The computation accepts exactly if `accepts` holds, and reports exactly what `faults` says. -/
structure Decides {ε : Type} (x : Except ε Unit) (accepts : Prop) (faults : ε → Prop) : Prop where
  ok : x = .ok () ↔ accepts
  error : ∀ e, x = .error e ↔ faults e

namespace Decides

variable {ε α : Type} {x y : Except ε Unit} {p p' : Prop} {faults faults' : ε → Prop}

theorem imp (h : Decides x p faults) (hok : p ↔ p') (herror : ∀ e, faults e ↔ faults' e) :
    Decides x p' faults' :=
  ⟨h.ok.trans hok, fun e => (h.error e).trans (herror e)⟩

/-- What is decided behind something else comes into it only if that accepts. -/
theorem bind (hx : Decides x p faults) (hy : Decides y p' faults') :
    Decides (x >>= fun _ => y) (p ∧ p') fun e => faults e ∨ p ∧ faults' e := by
  cases x with
  | error e =>
    have hp : ¬ p := fun hp => nomatch hx.ok.mpr hp
    have hfaults : ∀ e', faults e' ↔ e = e' := fun e' => by simp [← hx.error]
    constructor
    · simp [Bind.bind, Except.bind, hp]
    · simp [Bind.bind, Except.bind, hp, hfaults]
  | ok u =>
    have hp : p := hx.ok.mp rfl
    have hfaults : ∀ e', ¬ faults e' := fun e' he => nomatch (hx.error e').mpr he
    constructor
    · simp [Bind.bind, Except.bind, hp, ← hy.ok]
    · simp [Bind.bind, Except.bind, hp, hfaults, ← hy.error]

/-- A test that reports one error. -/
theorem ite {c : Prop} [Decidable c] (e : ε) (hx : Decides x p faults) :
    Decides (if c then x else .error e) (c ∧ p) fun e' => ¬ c ∧ e' = e ∨ c ∧ faults e' := by
  by_cases hc : c
  · simpa [hc] using hx
  · exact ⟨by simp [hc], fun e' => by simp [hc, eq_comm]⟩

/-- Of all elements, the first one that is not accepted is reported. -/
theorem forM {f : α → Except ε Unit} {accepts : α → Prop} {reports : α → ε → Prop}
    (h : ∀ a, Decides (f a) (accepts a) (reports a)) (l : List α) :
    Decides (l.forM f) (∀ a ∈ l, accepts a) fun e => ∃ before a after,
      l = before ++ a :: after ∧ (∀ b ∈ before, accepts b) ∧ reports a e := by
  induction l with
  | nil => exact ⟨by simp [pure, Except.pure], fun e => by simp [pure, Except.pure]⟩
  | cons a l ih =>
    refine ((h a).bind ih).imp (by simp) fun e => ?_
    constructor
    · rintro (ha | ⟨ha, before, b, after, rfl, hbefore, hb⟩)
      · exact ⟨[], a, l, rfl, by simp, ha⟩
      · exact ⟨a :: before, b, after, rfl, by simpa using ⟨ha, hbefore⟩, hb⟩
    · rintro ⟨before, b, after, heq, hbefore, hb⟩
      cases before with
      | nil =>
        obtain ⟨rfl, rfl⟩ := List.cons.inj heq
        exact .inl hb
      | cons c before =>
        obtain ⟨rfl, rfl⟩ := List.cons.inj heq
        exact .inr ⟨hbefore _ List.mem_cons_self, before, b, after, rfl,
          fun d hd => hbefore d (List.mem_cons_of_mem _ hd), hb⟩

end Decides

/-! ## Fields -/

theorem Field.ofName?_eq_some_iff {name : Text} {field : Field} :
    ofName? name = some field ↔ field.Named name := by
  constructor
  · exact eq_name_of_ofName?
  · rintro rfl
    cases field <;> decide +kernel

theorem Field.ofName?_eq_none_iff {name : Text} :
    ofName? name = none ↔ ∀ field : Field, ¬ field.Named name := by
  simp [← ofName?_eq_some_iff, Option.eq_none_iff_forall_ne_some]

theorem mem_operators_iff {kind : FieldKind} {op : ComparisonOp} :
    op ∈ kind.operators ↔ kind.Permits op := by
  constructor
  · intro h
    cases kind with
    | bool | oneOf words =>
      obtain rfl | rfl : op = .eq ∨ op = .ne := by simpa [FieldKind.operators] using h
      · exact .eq _
      · exact .ne _
    | string =>
      obtain rfl | rfl | rfl | rfl : op = .eq ∨ op = .ne ∨ op = .contains ∨ op = .notContains := by
        simpa [FieldKind.operators] using h
      · exact .eq _
      · exact .ne _
      · exact .contains
      · exact .notContains
    -- levels and times are ordered
    | priority | date =>
      obtain rfl | rfl | hop : op = .eq ∨ op = .ne ∨ op = .lt ∨ op = .gt ∨ op = .le ∨ op = .ge := by
        simpa [FieldKind.operators] using h
      · exact .eq _
      · exact .ne _
      · exact .order (by simp) hop
  · intro h
    cases h with
    | eq | ne => cases kind <;> simp [FieldKind.operators]
    | contains | notContains => simp [FieldKind.operators]
    | order hkind hop =>
      obtain rfl | rfl := hkind <;> obtain rfl | rfl | rfl | rfl := hop <;>
        simp [FieldKind.operators]

theorem allowsList_iff {kind : FieldKind} : kind.allowsList = true ↔ kind.PermitsList := by
  constructor
  · intro h
    cases kind with
    | string => exact .string
    | oneOf words => exact .oneOf words
    | priority => exact .priority
    | bool | date => exact nomatch h
  · intro h
    cases h <;> rfl

theorem suits_iff {kind : FieldKind} {value : Value} :
    value.suits kind = true ↔ kind.Takes value := by
  constructor
  · intro h
    cases kind with
    | string => exact .string value
    -- a listed word is told from others by its source, unless it stands in quotes
    | oneOf words =>
      simp only [Value.suits, List.any_eq_true, beq_iff_eq] at h
      obtain ⟨word, hword, h⟩ := h
      cases value with
      | string raw text =>
        obtain rfl : Text.ofString word = text := h
        exact .word raw hword
      | int | bool | priority | date => exact .source hword (by simp) h.symm
    | priority | bool | date =>
      cases value <;> first
        | constructor
        | simp [Value.suits] at h
  · intro h
    cases h with
    | string | bool | priority | date => simp [Value.suits]
    | word raw hword =>
      simp only [Value.suits, List.any_eq_true, beq_iff_eq]
      exact ⟨_, hword, rfl⟩
    | source hword hother hraw =>
      simp only [Value.suits, List.any_eq_true, beq_iff_eq]
      refine ⟨_, hword, ?_⟩
      rw [← hraw]
      cases value with
      | string raw text => exact absurd rfl (hother raw text)
      | int | bool | priority | date => rfl

theorem decides_checkValue (field : Field) (value : Value) :
    Decides (field.checkValue value) (field.kind.Takes value) fun e =>
      ¬ field.kind.Takes value ∧ e = .badValue field (field.kind.given value) := by
  have hok : Decides (.ok () : Except CheckError Unit) True fun _ => False := by
    constructor <;> simp
  refine (hok.ite (c := value.suits field.kind = true)
    (.badValue field (field.kind.given value))).imp ?_ ?_
  · simp [suits_iff]
  · simp [← suits_iff]

/-! ## Leaves, filters and queries -/

theorem Field.Named.unique {field field' : Field} {name : Text} (h : field.Named name)
    (h' : field'.Named name) : field' = field := by
  rw [← ofName?_eq_some_iff] at h h'
  exact Option.some.inj (h'.symm.trans h)

/-- A name of no field is a fault before anything else. -/
theorem Leaf.decides_of_unknown {l : Leaf} (hname : ∀ field : Field, ¬ field.Named l.name) :
    Decides (.error (.unknownField l.name)) l.Typed l.Fault := by
  constructor
  · refine ⟨nofun, fun h => ?_⟩
    cases h with
    | compare hknown | oneOf hknown => exact absurd hknown (hname _)
  · intro e
    constructor
    · intro h
      cases h
      exact .name hname
    · intro h
      cases h with
      | name => rfl
      | operator hknown | value hknown | list hknown | listed hknown =>
        exact absurd hknown (hname _)

theorem Leaf.decides_compare {name : Text} {field : Field} (hname : field.Named name)
    (op : ComparisonOp) (value : Value) :
    Decides (if field.kind.operators.contains op then field.checkValue value
        else .error (.badOperator field op))
      (Leaf.compare name op value).Typed (Leaf.compare name op value).Fault := by
  -- the operator is looked at before the value, so its fault comes first
  refine ((decides_checkValue field value).ite (c := field.kind.operators.contains op = true)
    (.badOperator field op)).imp ?_ fun e => ?_
  · rw [List.contains_iff_mem, mem_operators_iff]
    constructor
    · rintro ⟨hop, hvalue⟩
      exact .compare hname hop hvalue
    · intro h
      cases h with
      | compare hname' hop hvalue =>
        obtain rfl := hname.unique hname'
        exact ⟨hop, hvalue⟩
  · rw [List.contains_iff_mem, mem_operators_iff]
    constructor
    · rintro (⟨hop, rfl⟩ | ⟨hop, hvalue, rfl⟩)
      · exact .operator hname hop
      · exact .value hname hop hvalue
    · intro h
      cases h with
      | name hunknown => exact absurd hname (hunknown field)
      | operator hname' hop =>
        obtain rfl := hname.unique hname'
        exact .inl ⟨hop, rfl⟩
      | value hname' hop hvalue =>
        obtain rfl := hname.unique hname'
        exact .inr ⟨hop, hvalue, rfl⟩

theorem Leaf.decides_oneOf {name : Text} {field : Field} (hname : field.Named name)
    (values : List Value) (negated : Bool) :
    Decides (if field.kind.allowsList then values.forM field.checkValue
        else .error (.badList field negated))
      (Leaf.oneOf name values negated).Typed (Leaf.oneOf name values negated).Fault := by
  -- the field is asked first whether it takes lists, and then for each value in order
  refine ((Decides.forM (decides_checkValue field) values).ite (c := field.kind.allowsList = true)
    (.badList field negated)).imp ?_ fun e => ?_
  · rw [allowsList_iff]
    constructor
    · rintro ⟨hlist, hvalues⟩
      exact .oneOf hname hlist hvalues
    · intro h
      cases h with
      | oneOf hname' hlist hvalues =>
        obtain rfl := hname.unique hname'
        exact ⟨hlist, hvalues⟩
  · rw [allowsList_iff]
    constructor
    · rintro (⟨hlist, rfl⟩ | ⟨hlist, before, value, after, rfl, hbefore, hvalue, rfl⟩)
      · exact .list hname hlist
      · exact .listed hname hlist hbefore hvalue
    · intro h
      cases h with
      | name hunknown => exact absurd hname (hunknown field)
      | list hname' hlist =>
        obtain rfl := hname.unique hname'
        exact .inl ⟨hlist, rfl⟩
      | listed hname' hlist hbefore hvalue =>
        obtain rfl := hname.unique hname'
        exact .inr ⟨hlist, _, _, _, rfl, hbefore, hvalue, rfl⟩

theorem Leaf.decides_check (l : Leaf) : Decides l.check l.Typed l.Fault := by
  cases hname : Field.ofName? l.name with
  | none =>
    have herror : l.check = .error (.unknownField l.name) := by
      cases l <;> simp only [name] at hname <;>
        simp [check, name, Field.require, hname, bind, Except.bind]
    rw [herror]
    exact decides_of_unknown (Field.ofName?_eq_none_iff.mp hname)
  | some field =>
    have hnamed := Field.ofName?_eq_some_iff.mp hname
    cases l with
    | compare name op value =>
      simp only [Leaf.name] at hname hnamed
      simpa [check, Field.require, hname, bind, Except.bind] using decides_compare hnamed op value
    | oneOf name values negated =>
      simp only [Leaf.name] at hname hnamed
      simpa [check, Field.require, hname, bind, Except.bind] using
        decides_oneOf hnamed values negated

/-- The leaves of a filter are checked from left to right, wherever they stand in it. -/
theorem Filter.decides_check (f : Filter) :
    Decides (f.leaves.forM Leaf.check) f.Typed f.Fault := by
  induction f with
  | leaf l =>
    have hsingle : (Filter.leaf l).leaves.forM Leaf.check = l.check := by
      show (l.check >>= fun _ => pure ⟨⟩) = l.check
      exact bind_pure _
    rw [hsingle]
    exact l.decides_check.imp ⟨.leaf, fun | .leaf h => h⟩ fun e => ⟨.leaf, fun | .leaf h => h⟩
  | not f ih =>
    exact ih.imp ⟨.not, fun | .not h => h⟩ fun e => ⟨.not, fun | .not h => h⟩
  | binary connective left right ihl ihr =>
    -- the leaves on the left are checked first
    have happend : (Filter.binary connective left right).leaves.forM Leaf.check =
        (left.leaves.forM Leaf.check >>= fun _ => right.leaves.forM Leaf.check) :=
      List.forM_append
    rw [happend]
    refine (ihl.bind ihr).imp
      ⟨fun h => .binary h.1 h.2, fun | .binary hleft hright => ⟨hleft, hright⟩⟩ fun e => ⟨?_, ?_⟩
    · rintro (h | ⟨hleft, h⟩)
      · exact .left h
      · exact .right hleft h
    · intro h
      cases h with
      | left h => exact .inl h
      | right hleft h => exact .inr ⟨hleft, h⟩

theorem OrderTerm.decides_check (term : OrderTerm) :
    Decides term.check term.Typed fun e => ¬ term.Typed ∧ e = .unknownOrderField term.field := by
  cases hname : Field.ofName? term.field with
  | none =>
    have hnot : ¬ term.Typed := fun ⟨field, h⟩ => Field.ofName?_eq_none_iff.mp hname field h
    constructor <;> simp [check, hname, hnot, eq_comm]
  | some field =>
    have htyped : term.Typed := ⟨field, Field.ofName?_eq_some_iff.mp hname⟩
    constructor <;> simp [check, hname, htyped]

theorem Query.decides_check_leaves (q : Query) :
    Decides (q.leaves.forM Leaf.check) (∀ f ∈ q.filter, f.Typed)
      fun e => ∃ f, q.filter = some f ∧ f.Fault e := by
  cases hfilter : q.filter with
  | none => constructor <;> simp [leaves, hfilter, pure, Except.pure]
  | some f => simpa [leaves, hfilter] using f.decides_check

/-- The check accepts a query exactly if it is typed, and otherwise reports its first fault: leaves
from left to right before order terms, and in a leaf the name before the operator before the values.
It does not depend on what joins the leaves. -/
theorem Query.check_decides (q : Query) :
    (q.check = .ok () ↔ q.Typed) ∧ (∀ e, q.check = .error e ↔ q.Fault e) ∧
      ∀ q' : Query, q'.leaves = q.leaves → q'.order = q.order → q'.check = q.check := by
  have hdecides : Decides q.check q.Typed q.Fault := by
    refine (q.decides_check_leaves.bind (Decides.forM OrderTerm.decides_check q.order)).imp
      ⟨fun h => ⟨h.1, h.2⟩, fun h => ⟨h.filter, h.order⟩⟩ fun e => ⟨?_, ?_⟩
    · rintro (⟨f, hfilter, h⟩ | ⟨hfilter, before, term, after, horder, hbefore, hterm, rfl⟩)
      · exact .filter hfilter h
      · exact .order hfilter (horder ▸ .intro hbefore hterm)
    · rintro (⟨hfilter, h⟩ | ⟨hfilter, h⟩)
      · exact .inl ⟨_, hfilter, h⟩
      · generalize q.order = order at h
        obtain ⟨hbefore, hterm⟩ := h
        exact .inr ⟨hfilter, _, _, _, rfl, hbefore, hterm, rfl⟩
  refine ⟨hdecides.ok, hdecides.error, fun q' hleaves horder => ?_⟩
  rw [check, check, hleaves, horder]

end IssueQuery
