import IssueQuery.Highlight
import IssueQuery.Proofs.Token.Tiling
import Mathlib.Data.List.Induction
import Mathlib.Data.List.Nodup

/-!
# What is coloured, and how far

The coloured parts of a line are tokens. A string is measured a second time for its colour, without
regard to how it was read, and the measure is the same; which identifiers stand for a value is told
by the tokens in front of them.

* `throughQuote_eq`                  both ways to the end of a string come to the same unit;
* `InValueList`, `AwaitsValue`       the two places where an identifier stands for a value;
* `inList_after`, `awaits_after`     what is kept while a line is coloured says which place it is;
* `Text.spansOver_eq`                what is coloured of one token;
* `Text.highlight_extents`           the coloured parts of a line, and the tokens that have none.
-/

namespace IssueQuery

namespace Highlight

/-! ## How long a string is -/

variable {quote : CodeUnit} {source rest body : Text}

theorem throughQuote_append (h : QuotedBody quote source body) (after : Text) :
    throughQuote quote (source ++ after) = source.length + throughQuote quote after := by
  induction h with
  | nil => rw [List.nil_append, List.length_nil, Nat.zero_add]
  | @plain u source body hquote hslash h ih =>
    rw [List.cons_append, List.length_cons, Nat.add_right_comm, ← ih]
    -- a unit with nothing behind it is not looked at
    cases source ++ after with
    | nil => rfl
    | cons v tail => simp [throughQuote, hslash, hquote]
  | @escaped slash v source body hslash h ih =>
    simp only [List.cons_append, throughQuote, hslash, beq_self_eq_true, if_true, ih,
      List.length_cons]
    omega

/-- The way to the closing quote takes the units that belong to the string. -/
theorem throughQuote_eq (h : QuotedRest quote source rest body) (hquote : quote.toChar ≠ '\\') :
    throughQuote quote (source ++ rest) = source.length := by
  cases h with
  | @closed source body h rest =>
    have hlast : throughQuote quote (quote :: rest) = 1 := by
      cases rest with
      | nil => rfl
      | cons v tail => simp [throughQuote, hquote]
    rw [List.append_assoc, List.singleton_append, throughQuote_append h, hlast, List.length_append,
      List.length_singleton]
  | unclosed h => rw [throughQuote_append h, throughQuote, Nat.add_zero]
  | @brokenOff source body slash h hslash =>
    rw [List.append_nil, throughQuote_append h, throughQuote, List.length_append,
      List.length_singleton]

theorem stringLength_eq {literal : Text} (h : QuotedString source rest literal) :
    stringLength (source ++ rest) = source.length := by
  obtain ⟨quote, body, rfl, hquote, hrest⟩ := h
  have hslash : quote.toChar ≠ '\\' := by
    obtain hquote | hquote := hquote <;> rw [hquote] <;> decide
  rw [List.cons_append, stringLength, throughQuote_eq hrest hslash, List.length_cons]

end Highlight

/-! ## Where a token is -/

theorem Text.slice_append_drop (text : Text) {start stop : Nat} (h : start ≤ stop) :
    text.slice start stop ++ text.drop stop = text.drop start := by
  have hdrop : text.drop stop = (text.drop start).drop (stop - start) := by
    rw [List.drop_drop, Nat.add_sub_cancel' h]
  rw [slice, hdrop, List.take_append_drop]

/-- The token with its extent is what is read somewhere in a text whose first unit is at the place.
-/
def ReadIn (text : Text) (pos : Nat) (l : Token × Nat) : Prop :=
  ∃ front u rest, text = front ++ u :: rest ∧ u.isSpace = false ∧
    l = (⟨(Lexeme.scan u rest).kind, (Lexeme.scan u rest).literal, pos + front.length⟩,
      (Lexeme.scan u rest).further)

theorem ReadIn.cons {text : Text} {pos : Nat} {l : Token × Nat} (h : ReadIn text (pos + 1) l)
    (u : CodeUnit) : ReadIn (u :: text) pos l := by
  obtain ⟨front, v, rest, rfl, hspace, rfl⟩ := h
  refine ⟨u :: front, v, rest, rfl, hspace, ?_⟩
  rw [List.length_cons, Nat.add_assoc, Nat.add_comm 1]

theorem readIn_of_mem {text : Text} {skip pos : Nat} {l : Token × Nat}
    (hl : l ∈ text.lexemesFrom skip pos) : ReadIn text pos l := by
  induction text generalizing skip pos with
  | nil => simp [Text.lexemesFrom] at hl
  | cons u rest ih =>
    cases skip with
    | succ skip => exact (ih hl).cons u
    | zero =>
      rw [Text.lexemesFrom] at hl
      split at hl
      · exact (ih hl).cons u
      · rename_i hspace
        obtain rfl | hl := List.mem_cons.mp hl
        · exact ⟨[], u, rest, rfl, by simpa using hspace, rfl⟩
        · exact (ih hl).cons u

namespace Text

variable {line : Text} {l l' : Token × Nat}

/-- What is read from the place of a token on is the token, and the reading goes on behind it. -/
theorem nextToken_startOf (hl : l ∈ line.lexemes) :
    line.nextToken (startOf l) = (l.1, stopOf l) := by
  obtain ⟨front, u, rest, rfl, hspace, rfl⟩ := readIn_of_mem hl
  have hstart : 1 + front.length - 1 = front.length := Nat.add_sub_cancel_left 1 front.length
  have hplace : front.length + 1 = 1 + front.length := Nat.add_comm ..
  simp only [startOf, stopOf, hstart, nextToken, List.drop_left, List.takeWhile_cons, hspace,
    Bool.false_eq_true, if_false, List.length_nil, Nat.add_zero, hplace]

theorem lexemes_tiles (line : Text) : Tiles 1 line line.lexemes := tiles_lexemesFrom line 1

/-- A token has a place of its own, in the line. -/
theorem extent_of_mem (hl : l ∈ line.lexemes) :
    startOf l < stopOf l ∧ stopOf l ≤ line.length ∧
      Lexed l.1 (line.slice (startOf l) (stopOf l)) (line.drop (stopOf l)) := by
  obtain ⟨hplace, hstop, hlexed⟩ := line.lexemes_tiles.lexed [] rfl l hl
  refine ⟨?_, hstop, hlexed⟩
  simp only [startOf, stopOf, List.length_nil] at hplace ⊢
  omega

theorem eq_of_startOf_eq (hl : l ∈ line.lexemes) (hl' : l' ∈ line.lexemes)
    (hstart : startOf l = startOf l') : l = l' := by
  have hnodup : (line.lexemes.map startOf).Nodup := by
    refine List.pairwise_map.mpr (line.lexemes_tiles.pairwise.imp_of_mem fun hl _ hapart => ?_)
    exact Nat.ne_of_lt (Nat.lt_of_lt_of_le (extent_of_mem hl).1 hapart)
  exact List.inj_on_of_nodup_map hnodup hl hl' hstart

theorem stringLength_startOf (hl : l ∈ line.lexemes) (hstring : l.1.kind = .string) :
    startOf l + Highlight.stringLength (line.drop (startOf l)) = stopOf l := by
  obtain ⟨hproper, hstop, hlexed⟩ := extent_of_mem hl
  rw [← line.slice_append_drop (Nat.le_of_lt hproper),
    Highlight.stringLength_eq (hlexed.quoted hstring), slice, List.length_take, List.length_drop]
  omega

/-- The coloured part that a token is goes as far as the token. -/
theorem span_eq (hl : l ∈ line.lexemes) (kind : SyntaxKind) :
    Highlight.span line l.1 kind = ⟨startOf l, stopOf l, kind⟩ := by
  obtain ⟨hproper, hstop, hlexed⟩ := extent_of_mem hl
  have hstart : l.1.pos - 1 = startOf l := rfl
  simp only [Highlight.span, hstart]
  congr 1
  split
  · exact stringLength_startOf hl ‹_›
  · rename_i hkind
    rw [hlexed.verbatim hkind, slice, List.length_take, List.length_drop]
    omega

end Text

/-! ## Where an identifier stands for a value -/

section Since

variable {α : Type} {P : List α → α → Prop} {Q : α → Prop}

/-- Some element of the list is as it should be with those in front of it, and all behind it keep
to the condition. -/
def Since (P : List α → α → Prop) (Q : α → Prop) (l : List α) : Prop :=
  ∃ front x inside, l = front ++ x :: inside ∧ P front x ∧ ∀ y ∈ inside, Q y

theorem not_since_nil : ¬ Since P Q [] := by
  rintro ⟨front, x, inside, hnil, -⟩
  simp at hnil

theorem since_snoc (l : List α) (x : α) : Since P Q (l ++ [x]) ↔ P l x ∨ Since P Q l ∧ Q x := by
  constructor
  · rintro ⟨front, y, inside, hsplit, hy, hinside⟩
    obtain rfl | ⟨inside, z, rfl⟩ := inside.eq_nil_or_concat'
    · obtain ⟨rfl, hlast⟩ := List.append_inj' hsplit rfl
      obtain rfl := List.singleton_injective hlast
      exact .inl hy
    · rw [← List.cons_append, ← List.append_assoc] at hsplit
      obtain ⟨rfl, hlast⟩ := List.append_inj' hsplit rfl
      obtain rfl := List.singleton_injective hlast
      exact .inr ⟨⟨front, y, inside, rfl, hy, fun z hz => hinside z (List.mem_append_left _ hz)⟩,
        hinside x (by simp)⟩
  · rintro (hx | ⟨⟨front, y, inside, rfl, hy, hinside⟩, hx⟩)
    · exact ⟨l, x, [], rfl, hx, by simp⟩
    · refine ⟨front, y, inside ++ [x], by simp, hy, fun z hz => ?_⟩
      obtain hz | hz := List.mem_append.mp hz
      · exact hinside z hz
      · rw [List.mem_singleton.mp hz]
        exact hx

end Since

/-- The tokens end in the parentheses after `in`. -/
def InValueList : List Token → Prop :=
  Since (fun front t => t.kind = .leftParen ∧ ∃ word ∈ front.getLast?, word.kind = .keyword .inList)
    (fun t => t.kind ≠ .rightParen)

/-- Whether a token is a value that an operator can wait for, or begins something else. -/
def TokenKind.endsWait : TokenKind → Bool
  | .identifier | .string | .number => true
  | .keyword .trueWord | .keyword .falseWord => true
  | .keyword .and | .keyword .or | .keyword .not | .keyword .order => true
  | _ => false

/-- The tokens have a comparison operator that still waits for its value. -/
def AwaitsValue : List Token → Prop :=
  Since (fun _ t => t.kind.isComparison = true) (fun t => t.kind.endsWait = false)

/-- An identifier behind the tokens stands for a value. -/
def ValueExpected (before : List Token) : Prop := InValueList before ∨ AwaitsValue before

/-- Tokens without a colour: no part of the language, a reserved word, or an identifier that stands
for a value that the language does not know. -/
def Unstyled (before : List Token) (t : Token) : Prop :=
  t.kind = .illegal ∨ (∃ word, t.kind = .reserved word) ∨
    t.kind = .identifier ∧ ValueExpected before ∧ isKnownValue t.literal = false

namespace Highlight

namespace State

variable (s : State) (t : Token) {before : List Token}

/-- The state behind some tokens. -/
def after (s : State) (tokens : List Token) : State := tokens.foldl (fun s t => (s.next t).2) s

@[simp] theorem after_nil : s.after [] = s := rfl

@[simp] theorem after_cons (tokens : List Token) :
    s.after (t :: tokens) = (s.next t).2.after tokens := rfl

theorem after_append (tokens more : List Token) :
    s.after (tokens ++ more) = (s.after tokens).after more := List.foldl_append

theorem after_snoc (tokens : List Token) : s.after (tokens ++ [t]) = ((s.after tokens).next t).2 :=
  s.after_append tokens [t]

@[simp] theorem next_inList : (s.next t).2.inList = s.listAfter t.kind := by
  unfold next
  dsimp only
  split <;> rfl

@[simp] theorem next_previous : (s.next t).2.previous = t.kind := by
  unfold next
  dsimp only
  split <;> rfl

/-- An operator waits behind a token if it is one, or if one waited and still waits. -/
@[simp] theorem next_afterOperator : (s.next t).2.afterOperator =
    (t.kind.isComparison || s.afterOperator && !t.kind.endsWait) := by
  obtain ⟨kind, literal, pos⟩ := t
  obtain ⟨inList, afterOperator, previous⟩ := s
  cases kind with
  | identifier => cases inList <;> cases afterOperator <;> rfl
  | keyword word => cases word <;> cases afterOperator <;> rfl
  | _ => cases afterOperator <;> rfl

/-- The colour of an identifier, be it a value or not. -/
theorem next_identifier (hkind : t.kind = .identifier) : (s.next t).1 =
    if s.inList = true ∨ s.afterOperator = true then
      if isKnownValue t.literal then some .value else none
    else some .field := by
  have hlist : s.listAfter .identifier = s.inList := rfl
  have hoperator : s.operatorAfter .identifier = s.afterOperator := rfl
  simp only [next, hkind, hlist, hoperator, decide_true, Bool.true_and, Bool.or_eq_true]
  split <;> rfl

theorem next_other (hkind : t.kind ≠ .identifier) : (s.next t).1 = t.kind.syntaxKind? := by
  simp [next, hkind]

theorem previous_after (before : List Token) :
    (initial.after before).previous = .keyword .inList ↔
      ∃ word ∈ before.getLast?, word.kind = .keyword .inList := by
  induction before using List.reverseRecOn with
  | nil => simp [initial]
  | append_singleton before t ih => simp [after_snoc]

theorem inList_after (before : List Token) :
    (initial.after before).inList = true ↔ InValueList before := by
  induction before using List.reverseRecOn with
  | nil => exact iff_of_false Bool.false_ne_true not_since_nil
  | append_singleton before t ih =>
    rw [after_snoc, next_inList, InValueList, since_snoc, ← InValueList, ← ih, ← previous_after,
      listAfter]
    by_cases hparen : t.kind = .rightParen
    · simp [hparen]
    · simp [hparen]

theorem awaits_after (before : List Token) :
    (initial.after before).afterOperator = true ↔ AwaitsValue before := by
  induction before using List.reverseRecOn with
  | nil => exact iff_of_false Bool.false_ne_true not_since_nil
  | append_singleton before t ih =>
    rw [after_snoc, next_afterOperator, AwaitsValue, since_snoc, ← AwaitsValue, ← ih]
    simp

end State

/-! ## The coloured parts of some tokens -/

/-- The colour of a token behind others. -/
def colour (before : List Token) (t : Token) : Option SyntaxKind :=
  ((State.initial.after before).next t).1

theorem colour_identifier {before : List Token} {t : Token} (hkind : t.kind = .identifier)
    [Decidable (ValueExpected before)] : colour before t =
      if ValueExpected before then if isKnownValue t.literal then some .value else none
      else some .field := by
  rw [colour, State.next_identifier _ t hkind]
  exact if_congr (or_congr (State.inList_after before) (State.awaits_after before)) rfl rfl

theorem colour_eq_none_iff {before : List Token} {t : Token} (hproper : t.kind ≠ .endOfInput) :
    colour before t = none ↔ Unstyled before t := by
  classical
  by_cases hkind : t.kind = .identifier
  · rw [colour_identifier hkind]
    split <;> simp [Unstyled, *]
  · rw [colour, State.next_other _ t hkind]
    cases hother : t.kind with
    | keyword word => cases word <;> simp [Unstyled, hother, TokenKind.syntaxKind?]
    | endOfInput => exact absurd hother hproper
    | identifier => exact absurd hother hkind
    | _ => simp [Unstyled, hother, TokenKind.syntaxKind?]

variable {line : Text} {s : State} {lexemes : List (Token × Nat)}

theorem spans_append (line : Text) (s : State) (tokens more : List Token) :
    spans line s (tokens ++ more) = spans line s tokens ++ spans line (s.after tokens) more := by
  induction tokens generalizing s with
  | nil => rfl
  | cons t tokens ih => simp only [List.cons_append, spans, ih, List.append_assoc, State.after_cons]

/-- What is coloured is a token, as far as it goes. -/
theorem extent_of_mem_spans (hlexemes : lexemes ⊆ line.lexemes) {a : Span}
    (ha : a ∈ spans line s (lexemes.map Prod.fst)) :
    ∃ l ∈ lexemes, startOf l = a.start ∧ stopOf l = a.stop := by
  induction lexemes generalizing s with
  | nil => simp [spans] at ha
  | cons l lexemes ih =>
    obtain ⟨hl, hrest⟩ := List.cons_subset.mp hlexemes
    rw [List.map_cons, spans, List.mem_append] at ha
    obtain hfirst | ha := ha
    · obtain ⟨kind, -, rfl⟩ := Option.map_eq_some_iff.mp (Option.mem_toList.mp hfirst)
      rw [Text.span_eq hl kind]
      exact ⟨l, List.mem_cons_self, rfl, rfl⟩
    · obtain ⟨l', hl', hextent⟩ := ih hrest ha
      exact ⟨l', List.mem_cons_of_mem _ hl', hextent⟩

/-- As the tokens lie one behind the other, so do the coloured parts. -/
theorem pairwise_spans (hlexemes : lexemes ⊆ line.lexemes)
    (hapart : lexemes.Pairwise fun l l' => stopOf l ≤ startOf l') :
    (spans line s (lexemes.map Prod.fst)).Pairwise fun a b => a.stop ≤ b.start := by
  induction hapart generalizing s with
  | nil => exact .nil
  | @cons l lexemes hbehind hapart ih =>
    obtain ⟨hl, hrest⟩ := List.cons_subset.mp hlexemes
    rw [List.map_cons, spans, List.pairwise_append]
    refine ⟨?_, ih hrest, fun a ha b hb => ?_⟩
    · cases (s.next l.1).1 <;> simp
    · obtain ⟨kind, -, rfl⟩ := Option.map_eq_some_iff.mp (Option.mem_toList.mp ha)
      obtain ⟨l', hl', hstart, -⟩ := extent_of_mem_spans hrest hb
      rw [Text.span_eq hl kind, ← hstart]
      exact hbehind l' hl'

end Highlight

/-! ## A line -/

namespace Text

variable {line : Text} {l : Token × Nat} {before after : List (Token × Nat)}

/-- The coloured parts of a line that have a unit of the token. -/
def spansOver (line : Text) (l : Token × Nat) : List Span :=
  line.highlight.filter fun a => a.start < stopOf l && startOf l < a.stop

/-- What is coloured of a token is the whole of it, in the colour that it has behind the others. -/
theorem spansOver_eq (hsplit : line.lexemes = before ++ l :: after) :
    line.spansOver l = ((Highlight.colour (before.map Prod.fst) l.1).map fun kind =>
      ⟨startOf l, stopOf l, kind⟩).toList := by
  have hmem : before ⊆ line.lexemes ∧ l ∈ line.lexemes ∧ after ⊆ line.lexemes := by
    rw [hsplit]
    exact ⟨List.subset_append_left .., by simp, fun x hx => by simp [hx]⟩
  have hapart := line.lexemes_tiles.pairwise
  rw [hsplit, List.pairwise_append, List.pairwise_cons] at hapart
  obtain ⟨-, ⟨hafter, -⟩, hbefore⟩ := hapart
  have hextent := extent_of_mem hmem.2.1
  rw [spansOver, highlight, properTokens, hsplit, List.map_append, Highlight.spans_append,
    List.map_cons, Highlight.spans, List.filter_append, List.filter_append]
  -- the parts in front of the token and behind it have no unit of it
  have hfront : (Highlight.spans line .initial (before.map Prod.fst)).filter
      (fun a => a.start < stopOf l && startOf l < a.stop) = [] := by
    refine List.filter_eq_nil_iff.mpr fun a ha => ?_
    obtain ⟨l', hl', -, hstop⟩ := Highlight.extent_of_mem_spans hmem.1 ha
    have hplace := hbefore l' hl' l List.mem_cons_self
    simp
    omega
  have hback (s : Highlight.State) : (Highlight.spans line s (after.map Prod.fst)).filter
      (fun a => a.start < stopOf l && startOf l < a.stop) = [] := by
    refine List.filter_eq_nil_iff.mpr fun a ha => ?_
    obtain ⟨l', hl', hstart, -⟩ := Highlight.extent_of_mem_spans hmem.2.2 ha
    have hplace := hafter l' hl'
    simp
    omega
  rw [hfront, hback, List.nil_append, List.append_nil, Highlight.colour]
  cases ((Highlight.State.initial.after (before.map Prod.fst)).next l.1).1 with
  | none => rfl
  | some kind => simp [span_eq hmem.2.1, hextent.1]

/-- The coloured parts of a line lie one behind the other, and each is a token as far as it goes.
What is read from the place of a token on is the token, and where the reading goes on, there a
string ends for its colour as well. A token has no colour if it is no part of the language, a
reserved word, or an identifier that stands for a value that the language does not know; any other
token has one. -/
theorem highlight_extents (line : Text) :
    line.highlight.Pairwise (fun a b => a.stop ≤ b.start) ∧
    (∀ a ∈ line.highlight, a.start < a.stop ∧ a.stop ≤ line.length ∧
      ∃! l, l ∈ line.lexemes ∧ startOf l = a.start ∧ stopOf l = a.stop) ∧
    (∀ l ∈ line.lexemes, line.nextToken (startOf l) = (l.1, stopOf l) ∧
      (l.1.kind = .string →
        startOf l + Highlight.stringLength (line.drop (startOf l)) = stopOf l)) ∧
    ∀ before l after, line.lexemes = before ++ l :: after →
      (Unstyled (before.map Prod.fst) l.1 → line.spansOver l = []) ∧
      (¬ Unstyled (before.map Prod.fst) l.1 →
        ∃ kind, line.spansOver l = [⟨startOf l, stopOf l, kind⟩]) := by
  refine ⟨Highlight.pairwise_spans (List.Subset.refl _) line.lexemes_tiles.pairwise,
    fun a ha => ?_, fun l hl => ⟨nextToken_startOf hl, stringLength_startOf hl⟩,
    fun before l after hsplit => ?_⟩
  · obtain ⟨l, hl, hstart, hstop⟩ := Highlight.extent_of_mem_spans (List.Subset.refl _) ha
    have hextent := extent_of_mem hl
    refine ⟨by omega, by omega, l, ⟨hl, hstart, hstop⟩, fun l' hl' => ?_⟩
    exact eq_of_startOf_eq hl'.1 hl (hl'.2.1.trans hstart.symm)
  · have hl : l ∈ line.lexemes := by simp [hsplit]
    have hproper := (extent_of_mem hl).2.2.proper
    rw [spansOver_eq hsplit, ← Highlight.colour_eq_none_iff hproper]
    cases Highlight.colour (before.map Prod.fst) l.1 <;> simp

/-- The backslash at the end is part of the string, and a value that is not known has no colour. -/
example : (Text.ofString "title in (soon, \"a\\\"b\\").highlight =
    [⟨0, 5, .field⟩, ⟨6, 8, .keyword⟩, ⟨9, 10, .paren⟩, ⟨14, 15, .comma⟩, ⟨16, 22, .string⟩] := by
  decide +kernel

end Text

end IssueQuery
