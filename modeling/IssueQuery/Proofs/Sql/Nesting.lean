import IssueQuery.Proofs.Sql.Pieces
import IssueQuery.Proofs.Sql.RenderReads

/-!
# Conditions stay together

The condition of a query is put behind an `AND` without parentheses of its own. That is safe if no
connective of it stands outside of all parentheses, and if it closes none that it has not opened: it
is then one operand of the `AND`, whatever is in it.

* `Balanced`     every parenthesis is closed, and none that is not open;
* `Enclosed`     symbols that are balanced and have their connectives in parentheses;
* `outer_join`   enclosed operands leave no connective outside but those between them;
* `enclosed_render`, `leads_render` the texts of conditions are of this kind, as symbols and as
  characters.
-/

namespace IssueQuery.Sql

/-! ## Balanced lists -/

/-- What is opened is closed, and nothing is closed that is not open. -/
structure Balanced {α : Type} [DecidableEq α] (opening closing : α) (l : List α) : Prop where
  prefixes : ∀ p, p <+: l → p.count closing ≤ p.count opening
  total : l.count closing = l.count opening

namespace Balanced

variable {α : Type} [DecidableEq α] {opening closing : α} {a b : List α}

theorem of_not_mem (hopening : opening ∉ a) (hclosing : closing ∉ a) :
    Balanced opening closing a where
  prefixes := by
    intro p hp
    rw [List.count_eq_zero_of_not_mem fun h => hclosing (hp.subset h)]
    exact Nat.zero_le _
  total := by
    rw [List.count_eq_zero_of_not_mem hclosing, List.count_eq_zero_of_not_mem hopening]

theorem append (ha : Balanced opening closing a) (hb : Balanced opening closing b) :
    Balanced opening closing (a ++ b) where
  prefixes := by
    intro p hp
    -- the prefix ends in the first part, or has all of it
    obtain hp | ⟨rest, rfl⟩ := List.prefix_or_prefix_of_prefix hp (List.prefix_append a b)
    · exact ha.prefixes p hp
    · have hrest := hb.prefixes rest ((List.prefix_append_right_inj a).mp hp)
      rw [List.count_append, List.count_append, ha.total]
      omega
  total := by rw [List.count_append, List.count_append, ha.total, hb.total]

theorem enclose (hne : opening ≠ closing) (ha : Balanced opening closing a) :
    Balanced opening closing (opening :: (a ++ [closing])) where
  prefixes := by
    intro p hp
    cases p with
    | nil => simp
    | cons x p =>
      obtain ⟨rfl, hrest⟩ := List.cons_prefix_cons.mp hp
      rw [List.count_cons_self, List.count_cons_of_ne hne]
      -- the last one closes what is opened first
      obtain rfl | hrest := List.prefix_concat_iff.mp hrest
      · rw [List.count_append, List.count_append, ha.total, List.count_singleton_self]
        omega
      · have hle := ha.prefixes p hrest
        omega
  total := by
    rw [List.count_cons_self, List.count_cons_of_ne hne, List.count_append, List.count_append,
      ha.total, List.count_singleton_self, List.count_singleton, if_neg (by simpa using hne.symm)]

end Balanced

/-! ## Connectives outside of parentheses -/

/-- Whether the symbol joins two conditions; words of SQL may be written in either case. -/
def Symbol.isConnective : Symbol → Bool
  | .word .and | .word .or => true
  | .name n => [['A', 'N', 'D'], ['O', 'R']].contains (n.toList.map Char.toUpper)
  | _ => false

/-- The symbols have a connective behind the first ones, which leave no parenthesis open. -/
def Outer (symbols first : List Symbol) (connective : Symbol) : Prop :=
  (∃ rest, symbols = first ++ connective :: rest) ∧ connective.isConnective = true ∧
    first.count .leftParen = first.count .rightParen

/-- The symbols are balanced, and each connective among them stands in parentheses. -/
structure Enclosed (symbols : List Symbol) : Prop where
  balanced : Balanced .leftParen .rightParen symbols
  inner : ∀ first connective, ¬ Outer symbols first connective

/-- Symbols that are neither parentheses nor connectives. -/
def Plain (symbols : List Symbol) : Prop :=
  ∀ s ∈ symbols, s ≠ .leftParen ∧ s ≠ .rightParen ∧ s.isConnective = false

instance (symbols : List Symbol) : Decidable (Plain symbols) :=
  inferInstanceAs (Decidable (∀ s ∈ symbols, _))

namespace Enclosed

variable {a b : List Symbol}

theorem plain (h : Plain a) : Enclosed a where
  balanced := .of_not_mem (fun hmem => (h _ hmem).1 rfl) (fun hmem => (h _ hmem).2.1 rfl)
  inner := by
    rintro first connective ⟨⟨rest, rfl⟩, hconnective, -⟩
    have hplain := (h connective (by simp)).2.2
    exact nomatch hplain.symm.trans hconnective

theorem append (ha : Enclosed a) (hb : Enclosed b) : Enclosed (a ++ b) where
  balanced := ha.balanced.append hb.balanced
  inner := by
    rintro first connective ⟨⟨rest, happend⟩, hconnective, hcount⟩
    obtain ⟨more, rfl, hmore⟩ | ⟨more, rfl, hmore⟩ := List.append_eq_append_iff.mp happend
    · -- the connective is behind the first part
      refine hb.inner more connective ⟨⟨rest, hmore⟩, hconnective, ?_⟩
      rw [List.count_append, List.count_append, ha.balanced.total] at hcount
      exact Nat.add_left_cancel hcount
    · cases more with
      | nil =>
        refine hb.inner [] connective ⟨⟨rest, hmore.symm⟩, hconnective, rfl⟩
      | cons s more =>
        obtain ⟨rfl, -⟩ := List.cons.inj hmore
        exact ha.inner first connective ⟨⟨more, rfl⟩, hconnective, hcount⟩

/-- Whatever is balanced may stand in parentheses. -/
theorem enclose (h : Balanced .leftParen .rightParen a) :
    Enclosed (.leftParen :: (a ++ [.rightParen])) where
  balanced := h.enclose (by decide)
  inner := by
    rintro first connective ⟨⟨rest, hsymbols⟩, hconnective, hcount⟩
    cases first with
    | nil =>
      obtain ⟨rfl, -⟩ := List.cons.inj hsymbols
      exact nomatch hconnective
    | cons s first =>
      obtain ⟨rfl, hrest⟩ := List.cons.inj hsymbols
      -- the parenthesis in front is open until the last symbol, which is no connective
      have hinitial : first <+: a ++ [.rightParen] := ⟨_, hrest.symm⟩
      obtain rfl | hinitial := List.prefix_concat_iff.mp hinitial
      · exact absurd hrest (by simp)
      · have hle := h.prefixes first hinitial
        rw [List.count_cons_self, List.count_cons_of_ne (by decide)] at hcount
        omega

end Enclosed

/-- A connective behind an enclosed operand is the first one outside. -/
theorem outer_join {a b : List Symbol} (ha : Enclosed a) {joint : Symbol}
    (hjoint : joint.isConnective = true) {first : List Symbol} {connective : Symbol} :
    Outer (a ++ joint :: b) first connective ↔ first = a ∧ connective = joint ∨
      ∃ more, first = a ++ joint :: more ∧ Outer b more connective := by
  have hnot : joint ≠ .leftParen ∧ joint ≠ .rightParen := by
    constructor <;> rintro rfl <;> exact nomatch hjoint
  have hcount (more : List Symbol) :
      (a ++ joint :: more).count .leftParen = (a ++ joint :: more).count .rightParen ↔
        more.count .leftParen = more.count .rightParen := by
    rw [List.count_append, List.count_append, ha.balanced.total, List.count_cons_of_ne hnot.1,
      List.count_cons_of_ne hnot.2, Nat.add_left_cancel_iff]
  constructor
  · rintro ⟨⟨rest, hsymbols⟩, hconnective, hlevel⟩
    obtain ⟨more, rfl, hmore⟩ | ⟨more, rfl, hmore⟩ := List.append_eq_append_iff.mp hsymbols
    · cases more with
      | nil =>
        obtain ⟨rfl, -⟩ := List.cons.inj hmore
        exact .inl ⟨List.append_nil a, rfl⟩
      | cons s more =>
        obtain ⟨rfl, rfl⟩ := List.cons.inj hmore
        exact .inr ⟨more, rfl, ⟨rest, rfl⟩, hconnective, (hcount more).mp hlevel⟩
    · cases more with
      | nil =>
        obtain ⟨rfl, -⟩ := List.cons.inj hmore
        exact .inl ⟨(List.append_nil first).symm, rfl⟩
      | cons s more =>
        -- the operand itself has none
        obtain ⟨rfl, -⟩ := List.cons.inj hmore
        exact absurd ⟨⟨more, rfl⟩, hconnective, hlevel⟩ (ha.inner first connective)
  · rintro (⟨rfl, rfl⟩ | ⟨more, rfl, ⟨rest, rfl⟩, hconnective, hlevel⟩)
    · exact ⟨⟨b, rfl⟩, hjoint, ha.balanced.total.symm⟩
    · exact ⟨⟨rest, by simp⟩, hconnective, (hcount more).mpr hlevel⟩

/-! ## Symbols of conditions -/

theorem Enclosed.call (name : String) (args : List Symbol) (hname : Plain [.name name])
    (hargs : Plain args) :
    Enclosed ([.name name, .leftParen] ++ args ++ [.rightParen]) := by
  have hparens : Enclosed (.leftParen :: (args ++ [.rightParen])) := .enclose (plain hargs).balanced
  exact (plain hname).append hparens

theorem enclosed_column {field : Field} (hfield : field.isPseudo = false) :
    Enclosed (columnSymbols field) := by
  cases field with
  | blocked | ready | label | labels => exact absurd hfield (by decide)
  | pinned =>
    exact .call "COALESCE" [.name "i", .dot, .name "pinned", .comma, .number 0] (by decide)
      (by decide)
  | assignee =>
    exact .call "COALESCE" [.name "i", .dot, .name "assignee", .comma, .quoted ""] (by decide)
      (by decide)
  | type | status | priority | title | description | id | created | updated =>
    exact .plain (by decide)

theorem plain_markSymbols (count : Nat) : Plain (markSymbols count) := by
  -- induction on the count; the first mark has no comma before it
  induction count with
  | zero => decide
  | succ n ih =>
    cases n with
    | zero => decide
    | succ m =>
      have hmarks : markSymbols (m + 1 + 1) = [.mark, .comma] ++ markSymbols (m + 1) := rfl
      intro s hs
      rw [hmarks, List.mem_append] at hs
      have hfirst : Plain [.mark, .comma] := by decide
      exact hs.elim (hfirst s) (ih s)

theorem enclosed_in (negated : Bool) {set : List Symbol}
    (h : Balanced .leftParen .rightParen set) :
    Enclosed (inSymbols negated ++ (set ++ [.rightParen])) := by
  have hword : Plain (notSymbol negated ++ [.word .inList]) := by cases negated <;> decide
  have hset := (Enclosed.plain hword).append (Enclosed.enclose h)
  simpa [inSymbols] using hset

theorem enclosed_moment (moment : Moment) : Enclosed (momentSymbols moment .mark) := by
  cases moment with
  | dayFromNow p => exact .call "date" [.quoted "now", .comma, .mark] (by decide) (by decide)
  | timeFromNow p => exact .call "datetime" [.quoted "now", .comma, .mark] (by decide) (by decide)
  | «at» p =>
    have hmark : Plain [.mark] := by decide
    exact .plain hmark

theorem enclosed_labelTest (test : LabelTest) : Enclosed test.rawSymbols := by
  cases test with
  | eq p =>
    have htest : Plain [.comparison .eq, .mark] := by decide
    exact .plain htest
  | like p =>
    have htest : Plain [.word .like, .mark] := by decide
    exact .plain htest
  | oneOf ps => exact enclosed_in false (Enclosed.plain (plain_markSymbols ps.length)).balanced

/-- The fields that have an expression of their own. -/
def ownFields : List Field := Field.all.filter fun field => !field.isPseudo

/-- The operators that are SQL's too. -/
def sqlOperators : List ComparisonOp := ComparisonOp.all.filter isSqlOperator

theorem mem_ownFields {field : Field} : field ∈ ownFields ↔ field.isPseudo = false := by
  cases field <;> decide

theorem mem_sqlOperators {op : ComparisonOp} : op ∈ sqlOperators ↔ isSqlOperator op = true := by
  cases op <;> decide

/-- The symbols of a condition on fields with an expression of their own, by operators that SQL has:
the connectives among them stand in parentheses. -/
theorem enclosed_render {c : Condition} (h : c.Uses ownFields sqlOperators) :
    ∃ raw, Unfinished.nothing.feed c.render.toList = (raw, .nothing) ∧ Enclosed raw := by
  induction c with
  | compare column op p =>
    obtain ⟨⟨field, hfield, rfl⟩, hop⟩ := h
    rw [mem_ownFields] at hfield
    rw [mem_sqlOperators] at hop
    refine ⟨_, feed_compare hfield hop p, (enclosed_column hfield).append ?_⟩
    exact .plain (by cases op <;> decide)
  | compareTime column op moment =>
    obtain ⟨⟨field, hfield, rfl⟩, hop⟩ := h
    rw [mem_ownFields] at hfield
    rw [mem_sqlOperators] at hop
    have hname : Plain [.name "datetime"] := by decide
    have hword : Plain [.comparison op] := by cases op <;> decide
    have hcall := (Enclosed.plain hname).append (.enclose (enclosed_column hfield).balanced)
    refine ⟨_, feed_compareTime hfield hop moment, ?_⟩
    simpa using hcall.append ((Enclosed.plain hword).append (enclosed_moment moment))
  | like column negated p =>
    obtain ⟨field, hfield, rfl⟩ := h
    rw [mem_ownFields] at hfield
    refine ⟨_, feed_like hfield negated p, (enclosed_column hfield).append ?_⟩
    exact .plain (by cases negated <;> decide)
  | oneOf column negated ps =>
    obtain ⟨field, hfield, rfl⟩ := h
    rw [mem_ownFields] at hfield
    refine ⟨_, feed_oneOf hfield negated ps, (enclosed_column hfield).append ?_⟩
    exact enclosed_in negated (Enclosed.plain (plain_markSymbols ps.length)).balanced
  | member negated set =>
    have hset : Plain set.symbols := by cases set <;> decide
    refine ⟨_, feed_member negated set, Enclosed.append (.plain (by decide)) ?_⟩
    exact enclosed_in negated (Enclosed.plain hset).balanced
  | labelled negated test =>
    have hsearch : Plain searchSymbols := by decide
    refine ⟨_, feed_labelled negated test, Enclosed.append (.plain (by decide)) ?_⟩
    have hquery := (Enclosed.plain hsearch).append (enclosed_labelTest test)
    simpa using enclosed_in negated hquery.balanced
  | not c ih =>
    obtain ⟨raw, hfeed, hraw⟩ := ih h
    have hnot : Plain [.word .not] := by decide
    refine ⟨_, feed_not hfeed, ?_⟩
    exact (Enclosed.plain hnot).append (.enclose hraw.balanced)
  | binary connective left right ihl ihr =>
    obtain ⟨rawL, hfeedL, hrawL⟩ := ihl h.1
    obtain ⟨rawR, hfeedR, hrawR⟩ := ihr h.2
    refine ⟨_, feed_binary connective hfeedL hfeedR, ?_⟩
    -- in parentheses the connective need not be enclosed, but only balanced
    have hword : Balanced .leftParen .rightParen [connectiveSymbol connective] :=
      .of_not_mem (by cases connective <;> decide) (by cases connective <;> decide)
    have hinner := hrawL.balanced.append (hword.append hrawR.balanced)
    simpa using Enclosed.enclose hinner

/-! ## Parentheses in texts -/

/-- The number of open parentheses behind some characters, given how many are open before. Fails
where one is closed and none is open. -/
def level : Nat → List Char → Option Nat
  | n, [] => some n
  | n, c :: rest =>
    if c = '(' then level (n + 1) rest
    else if c = ')' then
      match n with
      | 0 => none
      | n + 1 => level n rest
    else level n rest

/-- Reading the text leads from one number of open parentheses to another. -/
def Leads (text : String) (n m : Nat) : Prop := level n text.toList = some m

theorem level_append {n m : Nat} {a : List Char} (h : level n a = some m) (b : List Char) :
    level n (a ++ b) = level m b := by
  induction a generalizing n with
  | nil =>
    obtain rfl := Option.some.inj h
    rfl
  | cons c rest ih =>
    simp only [level, List.cons_append] at h ⊢
    split
    · rename_i hc
      rw [if_pos hc] at h
      exact ih h
    · rename_i hc
      rw [if_neg hc] at h
      split
      · rename_i hc'
        rw [if_pos hc'] at h
        cases n with
        | zero => cases h
        | succ n => exact ih h
      · rename_i hc'
        rw [if_neg hc'] at h
        exact ih h

theorem Leads.append {a b : String} {n m k : Nat} (ha : Leads a n m) (hb : Leads b m k) :
    Leads (a ++ b) n k := by
  rw [Leads, String.toList_append, level_append ha]
  exact hb

theorem forall_prefix_cons {α : Type} {P : List α → Prop} {a : α} {l : List α} :
    (∀ p, p <+: a :: l → P p) ↔ P [] ∧ ∀ p, p <+: l → P (a :: p) := by
  constructor
  · exact fun h => ⟨h [] List.nil_prefix, fun p hp => h _ (List.cons_prefix_cons.mpr ⟨rfl, hp⟩)⟩
  · rintro ⟨hnil, hcons⟩ p hp
    cases p with
    | nil => exact hnil
    | cons x p =>
      obtain ⟨rfl, hrest⟩ := List.cons_prefix_cons.mp hp
      exact hcons p hrest

/-- What a level says of the numbers of parentheses. -/
theorem count_of_level {n m : Nat} {l : List Char} (h : level n l = some m) :
    (∀ p, p <+: l → p.count ')' ≤ n + p.count '(') ∧ n + l.count '(' = m + l.count ')' := by
  -- one sign at a time, at whatever level: an opening one, a closing one, or another
  induction l generalizing n with
  | nil =>
    obtain rfl := Option.some.inj h
    refine ⟨fun p hp => ?_, rfl⟩
    rw [List.prefix_nil.mp hp]
    simp
  | cons c rest ih =>
    rw [forall_prefix_cons]
    simp only [level] at h
    split at h
    · rename_i hc
      obtain ⟨hinitiales, htotal⟩ := ih h
      refine ⟨⟨by simp, fun p hp => ?_⟩, ?_⟩
      · have hle := hinitiales p hp
        simp [hc]
        omega
      · simp [hc]
        omega
    · rename_i hopening
      split at h
      · rename_i hc
        cases n with
        | zero => cases h
        | succ n =>
          obtain ⟨hinitiales, htotal⟩ := ih h
          refine ⟨⟨by simp, fun p hp => ?_⟩, ?_⟩
          · have hle := hinitiales p hp
            simp [hc]
            omega
          · simp [hc]
            omega
      · rename_i hclosing
        obtain ⟨hinitiales, htotal⟩ := ih h
        refine ⟨⟨by simp, fun p hp => ?_⟩, ?_⟩
        · rw [List.count_cons_of_ne hopening, List.count_cons_of_ne hclosing]
          exact hinitiales p hp
        · rw [List.count_cons_of_ne hopening, List.count_cons_of_ne hclosing]
          exact htotal

/-- A text that leads from no open parenthesis to none is balanced. -/
theorem Leads.balanced {text : String} (h : Leads text 0 0) : Balanced '(' ')' text.toList := by
  obtain ⟨hinitiales, htotal⟩ := count_of_level h
  simp only [Nat.zero_add] at hinitiales htotal
  exact ⟨hinitiales, htotal.symm⟩

theorem leads_column (field : Field) (n : Nat) : Leads field.column n n := by
  cases field <;> rfl

theorem leads_symbol (op : ComparisonOp) (n : Nat) : Leads op.symbol n n := by
  cases op <;> rfl

theorem leads_membership (negated : Bool) (n : Nat) : Leads (membership negated) n n := by
  cases negated <;> rfl

theorem leads_set (set : IssueSet) (n : Nat) : Leads set.render n n := by
  cases set <;> rfl

theorem leads_connective (connective : Connective) (n : Nat) : Leads connective.word n n := by
  cases connective <;> rfl

theorem leads_placeholders (count n : Nat) : Leads (placeholders count) n n := by
  unfold placeholders
  induction count with
  | zero =>
    rw [List.replicate_zero, String.intercalate_nil]
    rfl
  | succ k ih =>
    have hmark : Leads "?" n n := rfl
    have hcomma : Leads ", " n n := rfl
    cases k with
    | zero =>
      rw [List.replicate_one, String.intercalate_singleton]
      exact hmark
    | succ k =>
      rw [List.replicate_succ, List.replicate_succ, String.intercalate_cons_cons,
        ← List.replicate_succ]
      exact (hmark.append hcomma).append ih

theorem leads_moment (moment : Moment) (n : Nat) : Leads moment.render n n := by
  have hdate : Leads "date('now', ?)" n n := rfl
  have htime : Leads "datetime('now', ?)" n n := rfl
  have hmark : Leads "?" n n := rfl
  cases moment with
  | dayFromNow p => exact hdate
  | timeFromNow p => exact htime
  | «at» p => exact hmark

theorem leads_labelTest (test : LabelTest) (n : Nat) : Leads test.render n n := by
  have heq : Leads "= ?" n n := rfl
  have hlike : Leads "LIKE ?" n n := rfl
  have hin : Leads "IN (" n (n + 1) := rfl
  have hclose : Leads ")" (n + 1) n := rfl
  cases test with
  | eq p => exact heq
  | like p => exact hlike
  | oneOf ps => exact (hin.append (leads_placeholders ps.length (n + 1))).append hclose

/-- The text of a condition leaves as many parentheses open as it finds. -/
theorem leads_render {c : Condition} {fields : List Field} {ops : List ComparisonOp}
    (h : c.Uses fields ops) (n : Nat) : Leads c.render n n := by
  -- what a part opens, it closes again, so the level behind it is the level in front of it
  induction c generalizing n with
  | compare column op p =>
    obtain ⟨⟨field, -, rfl⟩, -⟩ := h
    have hspace : Leads " " n n := rfl
    have hmark : Leads " ?" n n := rfl
    exact (((leads_column field n).append hspace).append (leads_symbol op n)).append hmark
  | compareTime column op moment =>
    obtain ⟨⟨field, -, rfl⟩, -⟩ := h
    have hcall : Leads "datetime(" n (n + 1) := rfl
    have hend : Leads ") " (n + 1) n := rfl
    have hspace : Leads " " n n := rfl
    have hcompared := ((hcall.append (leads_column field (n + 1))).append hend).append
      (leads_symbol op n)
    exact (hcompared.append hspace).append (leads_moment moment n)
  | like column negated p =>
    obtain ⟨field, -, rfl⟩ := h
    exact (leads_column field n).append (by cases negated <;> rfl)
  | oneOf column negated ps =>
    obtain ⟨field, -, rfl⟩ := h
    have hspace : Leads " " n n := rfl
    have hopen : Leads " (" n (n + 1) := rfl
    have hclose : Leads ")" (n + 1) n := rfl
    have hin := ((leads_column field n).append hspace).append (leads_membership negated n)
    exact ((hin.append hopen).append (leads_placeholders ps.length (n + 1))).append hclose
  | member negated set =>
    have hid : Leads "i.id " n n := rfl
    have hopen : Leads " (" n (n + 1) := rfl
    have hclose : Leads ")" (n + 1) n := rfl
    have hin := hid.append (leads_membership negated n)
    exact ((hin.append hopen).append (leads_set set (n + 1))).append hclose
  | labelled negated test =>
    have hid : Leads "i.id " n n := rfl
    have hlabel : Leads " (SELECT issue_id FROM labels WHERE label " n (n + 1) := rfl
    have hclose : Leads ")" (n + 1) n := rfl
    have hin := hid.append (leads_membership negated n)
    exact ((hin.append hlabel).append (leads_labelTest test (n + 1))).append hclose
  | not c ih =>
    have hnot : Leads "NOT (" n (n + 1) := rfl
    have hclose : Leads ")" (n + 1) n := rfl
    exact (hnot.append (ih h (n + 1))).append hclose
  | binary connective left right ihl ihr =>
    have hopen : Leads "(" n (n + 1) := rfl
    have hspace : Leads " " (n + 1) (n + 1) := rfl
    have hclose : Leads ")" (n + 1) n := rfl
    have hword := ((hopen.append (ihl h.1 (n + 1))).append hspace).append
      (leads_connective connective (n + 1))
    exact ((hword.append hspace).append (ihr h.2 (n + 1))).append hclose

end IssueQuery.Sql
