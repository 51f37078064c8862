import IssueQuery.Proofs.Query.Layout
import IssueQuery.Proofs.Query.ParserCorrect

/-!
# Words

A word that is neither a keyword nor reserved is an identifier, and the parser takes an identifier
wherever it takes another one: only the word behind `expand` has to be one of three.

* `Text.IsWord`             how a word is written;
* `Lexeme.scan_word`        a word is read as far as it goes;
* `Grammar.Renamed`         tokens whose identifiers may differ;
* `IsWord.parse_replaced`   a word may stand where another one stood in a text that parses;
* `Text.word_reads`         a word is an identifier, in every role that identifiers have.
-/

namespace IssueQuery

open Grammar

/-! ## Words as tokens -/

namespace Text

/-- A letter or an underscore, with letters, digits, underscores and hyphens behind it. -/
def IsWord (w : Text) : Prop :=
  ∃ u more, w = u :: more ∧ (u.isLetter = true ∨ u.toChar = '_') ∧
    ∀ v ∈ more, v.isLetter = true ∨ v.isDigit = true ∨ v.toChar = '_' ∨ v.toChar = '-'

instance (w : Text) : Decidable w.IsWord :=
  decidable_of_iff
    ((match w with
      | [] => false
      | u :: more => (u.isLetter || u.toChar == '_') && more.all fun v =>
          v.isLetter || v.isDigit || v.toChar == '_' || v.toChar == '-') = true) <| by
    cases w with
    | nil => simp [IsWord]
    | cons u more =>
      simp only [IsWord, Bool.and_eq_true, Bool.or_eq_true, beq_iff_eq, List.all_eq_true, or_assoc]
      exact ⟨fun h => ⟨u, more, rfl, h⟩, fun ⟨_, _, hw, h⟩ => by cases hw; exact h⟩

/-- In lower case the text is none of the twelve keywords. -/
def NoKeyword (w : Text) : Prop := ∀ k : Keyword, w.toLower ≠ ofString k.spelling

/-- In lower case the text is none of the reserved words. -/
def NotReserved (w : Text) : Prop := ∀ r : ReservedWord, w.toLower ≠ ofString r.spelling

end Text

theorem TokenKind.ofWord_eq_identifier_iff {w : Text} (hkeyword : w.NoKeyword) :
    ofWord w = .identifier ↔ w.NotReserved := by
  have hnone : (Keyword.all.find? fun k => Text.ofString k.spelling == w.toLower) = none := by
    rw [List.find?_eq_none]
    intro k _ hk
    exact hkeyword k (eq_of_beq hk).symm
  -- keywords are looked up before reserved words
  unfold ofWord
  dsimp only
  rw [hnone]
  dsimp only
  constructor
  · intro h r hr
    have hfound : (ReservedWord.all.find? fun r => Text.ofString r.spelling == w.toLower).isSome := by
      rw [List.find?_isSome]
      exact ⟨r, by cases r <;> decide, by rw [hr]; exact beq_self_eq_true _⟩
    obtain ⟨r', hr'⟩ := Option.isSome_iff_exists.mp hfound
    rw [hr'] at h
    cases h
  · intro h
    have hfound : (ReservedWord.all.find? fun r => Text.ofString r.spelling == w.toLower) = none := by
      rw [List.find?_eq_none]
      intro r _ hr
      exact h r (eq_of_beq hr).symm
    rw [hfound]

theorem CodeUnit.isWordUnit_of_startsWord {u : CodeUnit} (h : u.startsWord = true) :
    u.isWordUnit = true := by
  have hstarts : u.isLetter = true ∨ u.toChar = '_' := by simpa [startsWord] using h
  obtain h | h := hstarts <;> simp [isWordUnit, h]

theorem CodeUnit.startsWord_plain {u : CodeUnit} (h : u.startsWord = true) :
    u.isDigit = false ∧ u.toChar ≠ '-' ∧ u.toChar ≠ '+' ∧ u.toChar ∉ Lexeme.symbols := by
  have hplain : ('-' :: '+' :: Lexeme.symbols).all (fun c => c != Char.ofNat 0 &&
      !startsWord (UInt16.ofNat c.toNat)) = true := by decide +kernel
  have hother {c : Char} (hc : c ∈ '-' :: '+' :: Lexeme.symbols) : u.toChar ≠ c := by
    intro hu
    obtain ⟨hnul, hstarts⟩ := by simpa using List.all_eq_true.mp hplain c hc
    rw [eq_ofNat_of_toChar hu hnul, hstarts] at h
    cases h
  refine ⟨?_, hother (by simp), hother (by simp), fun hmem => hother (by simp [hmem]) rfl⟩
  rw [Bool.eq_false_iff]
  intro hdigit
  have hdigits : ∀ n < 10, startsWord (UInt16.ofNat (48 + n)) = false := by decide +kernel
  have hbounds : 48 ≤ u.toChar.toNat ∧ u.toChar.toNat ≤ 57 := by
    simpa [isDigit, Char.isDigit, UInt32.le_iff_toNat_le] using hdigit
  have hcode : u = UInt16.ofNat (48 + (u.toChar.toNat - 48)) := by
    rw [Nat.add_sub_cancel' hbounds.1]
    refine eq_ofNat_of_toChar rfl fun hnul => ?_
    rw [hnul] at hbounds
    exact absurd hbounds (by decide)
  rw [hcode, hdigits _ (by omega)] at h
  cases h

namespace Lexeme

variable {u : CodeUnit}

/-- A word is read as far as it goes. -/
theorem scan_word (hstarts : u.startsWord = true) (rest : Text) :
    scan u rest = verbatim (TokenKind.ofWord (u :: rest.takeWhile CodeUnit.isWordUnit))
      (u :: rest.takeWhile CodeUnit.isWordUnit) := by
  obtain ⟨hdigit, hminus, hplus, hsymbol⟩ := CodeUnit.startsWord_plain hstarts
  rw [scan_eq_wordLike hsymbol]
  simp [wordLike, hdigit, hminus, hplus, hstarts]

end Lexeme

namespace Text

variable {w : Text}

theorem IsWord.units (h : w.IsWord) :
    ∃ u more, w = u :: more ∧ u.startsWord = true ∧ ∀ v ∈ more, v.isWordUnit = true := by
  obtain ⟨u, more, rfl, hstarts, hmore⟩ := h
  refine ⟨u, more, rfl, by simpa [CodeUnit.startsWord] using hstarts, fun v hv => ?_⟩
  obtain h | h | h | h := hmore v hv <;> simp [CodeUnit.isWordUnit, h]

/-- A word in front of anything that does not go on with it is one token. -/
theorem IsWord.lexemesFrom (h : w.IsWord) {rest : Text}
    (hrest : ∀ v ∈ rest.head?, v.isWordUnit = false) (pos : Nat) :
    (w ++ rest).lexemesFrom 0 pos =
      (⟨TokenKind.ofWord w, w, pos⟩, w.length - 1) :: rest.lexemesFrom 0 (pos + w.length) := by
  obtain ⟨u, more, rfl, hstarts, hmore⟩ := h.units
  have hrun : (more ++ rest).takeWhile CodeUnit.isWordUnit = more := by
    rw [List.takeWhile_append_of_pos hmore]
    cases rest with
    | nil => simp
    | cons v rest => simp [hrest v rfl]
  have hspace : ¬ u.isSpace = true := by
    intro hspace
    have hword := CodeUnit.isWordUnit_of_startsWord hstarts
    rw [(not_isWordUnit_of_isSpace hspace).2.2.2] at hword
    cases hword
  have hscan := Lexeme.scan_word hstarts (more ++ rest)
  rw [hrun] at hscan
  rw [List.cons_append, lexemesFrom_verbatim (by simpa using hspace) hscan, List.length_cons,
    Nat.add_sub_cancel, Nat.add_assoc, Nat.add_comm 1]

end Text

/-! ## Identifiers in accepted sequences -/

namespace Grammar

/-- Tokens of the same kinds in the same order. Identifiers may differ, but those directly behind the
word `expand` may not. -/
inductive Renamed : (behindExpand : Bool) → List Token → List Token → Prop
  | nil (behindExpand : Bool) : Renamed behindExpand [] []
  | cons {behindExpand : Bool} {t u : Token} {ts us : List Token} (hkind : u.kind = t.kind)
    (hliteral : t.kind ≠ .identifier ∨ behindExpand = true → u.literal = t.literal)
    (h : Renamed (t.kind = .keyword .expand) ts us) : Renamed behindExpand (t :: ts) (u :: us)

theorem Renamed.append {b : Bool} {ts ts' us : List Token} (h : Renamed b (ts ++ ts') us) :
    ∃ vs vs', us = vs ++ vs' ∧ Renamed b ts vs ∧ ∃ b', Renamed b' ts' vs' := by
  induction ts generalizing b us with
  | nil => exact ⟨[], us, rfl, .nil b, b, h⟩
  | cons t ts ih =>
    cases h with
    | @cons _ _ u _ us hkind hliteral h =>
      obtain ⟨vs, vs', rfl, hvs, hvs'⟩ := ih h
      exact ⟨u :: vs, vs', rfl, .cons hkind hliteral hvs, hvs'⟩

/-- Tokens with other identifiers derive from the rule as well. -/
def Renames {α : Type} (item : Rule α) : Prop :=
  ∀ {b : Bool} {ts us : List Token} {a : α}, item ts a → Renamed b ts us → ∃ a', item us a'

variable {α : Type} {item : Rule α}

theorem renames_isValue : Renames IsValue := by
  intro b ts us v h hrenamed
  cases h with
  | string ht | number ht | true ht | false ht | word ht =>
    cases hrenamed with
    | cons hkind hliteral hnil =>
      cases hnil
      have hu := hkind.trans ht
      first
        | exact ⟨_, .string hu⟩
        | exact ⟨_, .number hu⟩
        | exact ⟨_, .true hu⟩
        | exact ⟨_, .false hu⟩
        | exact ⟨_, .word hu⟩

/-- Whatever identifiers the tokens have, they derive from the rule. -/
def Robust (item : Rule α) : Rule α :=
  fun ts _ => ∀ {b : Bool} {us : List Token}, Renamed b ts us → ∃ a, item us a

theorem Robust.many {separator : TokenKind} {ts : List Token} {as : List α}
    (h : Many separator (Robust item) ts as) : Robust (Many separator item) ts as := by
  intro b us hrenamed
  induction h generalizing b us with
  | nil =>
    cases hrenamed
    exact ⟨_, .nil⟩
  | cons ht first more ih =>
    cases hrenamed with
    | cons hkind hliteral h =>
      obtain ⟨vs, vs', rfl, hvs, b', hvs'⟩ := h.append
      obtain ⟨a, ha⟩ := first hvs
      obtain ⟨as, has⟩ := ih hvs'
      exact ⟨_, .cons (hkind.trans ht) ha has⟩

theorem renames_many {separator : TokenKind} (hitem : Renames item) :
    Renames (Many separator item) := by
  intro b ts us as h hrenamed
  have hrobust : Many separator (Robust item) ts as := h.imp fun _ _ hfirst => hitem hfirst
  exact Robust.many hrobust hrenamed

theorem renames_separated {separator : TokenKind} (hitem : Renames item) :
    Renames (Separated separator item) := by
  intro b ts us as h hrenamed
  obtain ⟨first, more⟩ := h
  obtain ⟨vs, vs', rfl, hvs, b', hvs'⟩ := hrenamed.append
  obtain ⟨a, ha⟩ := hitem first hvs
  obtain ⟨as, has⟩ := renames_many hitem more hvs'
  exact ⟨_, .intro ha has⟩

theorem renames_opt (hitem : Renames item) : Renames (Opt item) := by
  intro b ts us a h hrenamed
  cases h with
  | missing =>
    cases hrenamed
    exact ⟨_, .missing⟩
  | present h =>
    obtain ⟨a, ha⟩ := hitem h hrenamed
    exact ⟨_, .present ha⟩

theorem renames_valueList : Renames ValueList := by
  intro b ts us values h hrenamed
  obtain ⟨hopen, hvalues, hclose⟩ := h
  cases hrenamed with
  | cons hkind hliteral h =>
    obtain ⟨vs, vs', rfl, hvs, b', hlast⟩ := h.append
    obtain ⟨values, hvalues⟩ := renames_separated renames_isValue hvalues hvs
    cases hlast with
    | cons hkind' hliteral' hnil =>
      cases hnil
      exact ⟨_, .intro (hkind.trans hopen) hvalues (hkind'.trans hclose)⟩

theorem renames_comparison : Renames Comparison := by
  intro b ts us leaf h hrenamed
  cases h with
  | compare hfield hoperator hvalue =>
    obtain _ | ⟨hkind, -, _ | ⟨hkind', -, h⟩⟩ := hrenamed
    obtain ⟨v, hv⟩ := renames_isValue hvalue h
    exact ⟨_, .compare (hkind.trans hfield) (hkind'.trans hoperator) hv⟩
  | oneOf hfield hin hvalues =>
    obtain _ | ⟨hkind, -, _ | ⟨hkind', -, h⟩⟩ := hrenamed
    obtain ⟨values, hvalues⟩ := renames_valueList hvalues h
    exact ⟨_, .oneOf (hkind.trans hfield) (hkind'.trans hin) hvalues⟩
  | noneOf hfield hnot hin hvalues =>
    obtain _ | ⟨hkind, -, _ | ⟨hkind', -, _ | ⟨hkind'', -, h⟩⟩⟩ := hrenamed
    obtain ⟨values, hvalues⟩ := renames_valueList hvalues h
    exact ⟨_, .noneOf (hkind.trans hfield) (hkind'.trans hnot) (hkind''.trans hin) hvalues⟩

/-- Filters joined by a word derive with other identifiers if the filters do. -/
theorem Robust.joined {separator : TokenKind} {c : Connective} {inner outer : Rule Filter}
    (hjoin : ∀ {us vs f more}, inner us f → Many separator inner vs more →
      outer (us ++ vs) (more.foldl (.binary c) f))
    {ts us : List Token} {f : Filter} {more : List Filter} (hfirst : Robust inner ts f)
    (hrest : Many separator (Robust inner) us more) :
    Robust outer (ts ++ us) (more.foldl (.binary c) f) := by
  intro b vs hrenamed
  obtain ⟨vs, vs', rfl, hvs, b', hvs'⟩ := hrenamed.append
  obtain ⟨g, hg⟩ := hfirst hvs
  obtain ⟨gs, hgs⟩ := Robust.many hrest hvs'
  exact ⟨_, hjoin hg hgs⟩

theorem Robust.compositional :
    Compositional (Robust Expression) (Robust Term) (Robust Factor) where
  expression := Robust.joined .intro
  term := Robust.joined .intro
  not := by
    intro t ts f ht h b us hrenamed
    cases hrenamed with
    | cons hkind hliteral hrest =>
      obtain ⟨g, hg⟩ := h hrest
      exact ⟨_, .not (hkind.trans ht) hg⟩
  parens := by
    intro open' close ts f hopen h hclose b us hrenamed
    obtain _ | ⟨hkind, -, hrest⟩ := hrenamed
    obtain ⟨vs, vs', rfl, hvs, b', hlast⟩ := hrest.append
    obtain ⟨g, hg⟩ := h hvs
    obtain _ | ⟨hkind', -, _ | _⟩ := hlast
    exact ⟨_, .parens (hkind.trans hopen) hg (hkind'.trans hclose)⟩
  comparison := by
    intro ts leaf h b us hrenamed
    obtain ⟨leaf, hleaf⟩ := renames_comparison h hrenamed
    exact ⟨_, .comparison hleaf⟩

theorem renames_expression : Renames Expression := by
  intro b ts us f h hrenamed
  exact Robust.compositional.of_expression h hrenamed

theorem renames_depthClause : Renames DepthClause := by
  intro b ts us d h hrenamed
  obtain ⟨ht, hdepth⟩ := h
  cases hdepth with
  | star hstar =>
    obtain _ | ⟨hkind, -, _ | ⟨hkind', -, _ | _⟩⟩ := hrenamed
    exact ⟨_, .intro (hkind.trans ht) (.star (hkind'.trans hstar))⟩
  | @number number hnumber hwhole hleast hgreatest =>
    obtain _ | ⟨hkind, -, _ | ⟨hkind', hliteral, _ | _⟩⟩ := hrenamed
    have hsame := hliteral (.inl (by rw [hnumber]; nofun))
    rw [← hsame] at hwhole hleast hgreatest
    exact ⟨_, .intro (hkind.trans ht)
      (.number (hkind'.trans hnumber) hwhole hleast hgreatest)⟩

theorem renames_expand : Renames Expand := by
  intro b ts us e h hrenamed
  obtain ⟨ht, hword, hname, hdirection, hdepth⟩ := h
  obtain _ | ⟨hkind, -, _ | ⟨hkind', hliteral, h⟩⟩ := hrenamed
  obtain ⟨d, hd⟩ := renames_opt renames_depthClause hdepth h
  -- the word for the direction stands directly behind `expand`
  rw [← hliteral (.inr (by simp [ht]))] at hname
  exact ⟨_, .intro (hkind.trans ht) (hkind'.trans hword) hname hdirection hd⟩

theorem renames_orderTerm : Renames IsOrderTerm := by
  intro b ts us term h hrenamed
  cases h with
  | plain hfield =>
    obtain _ | ⟨hkind, -, _ | _⟩ := hrenamed
    exact ⟨_, .plain (hkind.trans hfield)⟩
  | asc hfield hword =>
    obtain _ | ⟨hkind, -, _ | ⟨hkind', -, _ | _⟩⟩ := hrenamed
    exact ⟨_, .asc (hkind.trans hfield) (hkind'.trans hword)⟩
  | desc hfield hword =>
    obtain _ | ⟨hkind, -, _ | ⟨hkind', -, _ | _⟩⟩ := hrenamed
    exact ⟨_, .desc (hkind.trans hfield) (hkind'.trans hword)⟩

theorem renames_orderBy : Renames OrderBy := by
  intro b ts us terms h hrenamed
  obtain ⟨ht, hby, hterms⟩ := h
  obtain _ | ⟨hkind, -, _ | ⟨hkind', -, h⟩⟩ := hrenamed
  obtain ⟨terms, hterms⟩ := renames_separated renames_orderTerm hterms h
  exact ⟨_, .intro (hkind.trans ht) (hkind'.trans hby) hterms⟩

theorem renames_derives : Renames Derives := by
  intro b ts us q h hrenamed
  obtain ⟨hfilter, hexpand, horder⟩ := h
  obtain ⟨vs, vs', rfl, hvs, b', h⟩ := hrenamed.append
  obtain ⟨ws, ws', rfl, hws, b'', hws'⟩ := h.append
  obtain ⟨f, hf⟩ := renames_opt renames_expression hfilter hvs
  obtain ⟨e, he⟩ := renames_opt renames_expand hexpand hws
  obtain ⟨terms, hterms⟩ := renames_opt renames_orderBy horder hws'
  exact ⟨_, .intro hf he hterms⟩

/-- Tokens that differ by their places only. -/
theorem Renamed.of_bare {b : Bool} {ts us : List Token}
    (h : us.map Token.bare = ts.map Token.bare) : Renamed b ts us := by
  induction ts generalizing b us with
  | nil =>
    obtain rfl := List.map_eq_nil_iff.mp h
    exact .nil b
  | cons t ts ih =>
    cases us with
    | nil => cases h
    | cons u us =>
      obtain ⟨hfirst, hrest⟩ := List.cons.inj h
      obtain ⟨hkind, hliteral⟩ := Prod.mk.inj hfirst
      exact .cons hkind (fun _ => hliteral) (ih hrest)

/-- The same tokens in front, the last of which is not `expand`. -/
theorem Renamed.behind {ts us : List Token} (h : Renamed false ts us) {front : List Token}
    (hfront : ∀ t ∈ front.getLast?, t.kind ≠ .keyword .expand) {b : Bool}
    (hb : front = [] → b = false) : Renamed b (front ++ ts) (front ++ us) := by
  induction front generalizing b with
  | nil =>
    rw [hb rfl]
    exact h
  | cons t front ih =>
    refine .cons rfl (fun _ => rfl) (ih (fun u hu => hfront u ?_) ?_)
    · rw [List.getLast?_cons]
      cases hlast : front.getLast? with
      | none =>
        rw [hlast] at hu
        cases hu
      | some v =>
        rw [hlast] at hu
        exact hu
    · rintro rfl
      exact decide_eq_false (hfront t rfl)

end Grammar

/-! ## Words in texts -/

/-- An identifier is a word, or begins with a digit, and it goes on as long as it can. -/
theorem Lexeme.scan_identifier {u : CodeUnit} {rest : Text}
    (h : (scan u rest).kind = .identifier) :
    u.isWordUnit = true ∧
      scan u rest = verbatim .identifier (u :: rest.takeWhile CodeUnit.isWordUnit) := by
  have hscan := scan_eq_wordLike_of_kind (.inl h)
  rw [hscan] at h ⊢
  unfold wordLike at h ⊢
  dsimp only at h ⊢
  by_cases hdigit : u.isDigit = true
  · -- behind a digit: a word that is not quite a number
    rw [if_pos hdigit] at h ⊢
    unfold numeric at h ⊢
    split at h
    · cases h
    · rename_i hnumber
      rw [if_neg hnumber]
      exact ⟨by simp [CodeUnit.isWordUnit, hdigit], rfl⟩
  · -- behind a letter: the word is taken as it stands
    rw [if_neg hdigit] at h ⊢
    split at h
    · unfold numeric at h
      split at h <;> cases h
    · rename_i hsigned
      rw [if_neg hsigned]
      split at h
      · rename_i hstarts
        rw [if_pos hstarts]
        exact ⟨CodeUnit.isWordUnit_of_startsWord hstarts, congrArg (verbatim · _) h⟩
      · cases h

namespace Text

variable {w before after v : Text}

/-- What it means for an identifier to be the first token of a text. -/
theorem lexemesFrom_identifier {pos further : Nat} {more : List (Token × Nat)}
    (h : (v ++ after).lexemesFrom 0 pos = (⟨.identifier, v, pos⟩, further) :: more) :
    (∃ u ∈ v.head?, u.isWordUnit = true) ∧ (∀ u ∈ after.head?, u.isWordUnit = false) ∧
      more = after.lexemesFrom 0 (pos + v.length) := by
  generalize htext : v ++ after = text at h
  cases text with
  | nil => cases h
  | cons u rest =>
    rw [lexemesFrom] at h
    split at h
    · -- a space would put the token further on
      have hplace := (tiles_lexemesFrom rest (pos + 1)).le_pos _ (by rw [h]; exact List.mem_cons_self)
      dsimp only at hplace
      omega
    · obtain ⟨hfirst, rfl⟩ := List.cons.inj h
      obtain ⟨htoken, -⟩ := Prod.mk.inj hfirst
      obtain ⟨hkind, hliteral, -⟩ := Token.mk.inj htoken
      obtain ⟨hunit, hscan⟩ := Lexeme.scan_identifier hkind
      rw [hscan] at hliteral ⊢
      -- the token is all word units ahead, so what follows it starts with none
      obtain rfl : u :: rest.takeWhile CodeUnit.isWordUnit = v := hliteral
      obtain rfl : after = rest.dropWhile CodeUnit.isWordUnit := by
        rw [List.cons_append] at htext
        exact List.append_cancel_left
          ((List.cons.inj htext).2.trans List.takeWhile_append_dropWhile.symm)
      refine ⟨⟨u, rfl, hunit⟩, fun x hx => ?_, ?_⟩
      · have hstop := List.head?_dropWhile_not CodeUnit.isWordUnit rest
        rw [hx] at hstop
        exact hstop
      · have hskip := lexemesFrom_skip (rest.takeWhile CodeUnit.isWordUnit)
          (rest.dropWhile CodeUnit.isWordUnit) (pos + 1)
        rw [List.takeWhile_append_dropWhile] at hskip
        rw [Nat.add_right_comm] at hskip
        exact hskip

/-- Where an identifier stands in a text, another word may stand. -/
theorem IsWord.properTokens_replaced (h : w.IsWord) {front rest : List Token}
    (htokens : (before ++ (v ++ after)).properTokens =
      front ++ ⟨.identifier, v, before.length + 1⟩ :: rest) :
    ∃ rest', (before ++ (w ++ after)).properTokens =
        front ++ ⟨TokenKind.ofWord w, w, before.length + 1⟩ :: rest' ∧
      rest'.map Token.bare = rest.map Token.bare := by
  obtain ⟨ahead, others, hlexemes, rfl, hothers⟩ := List.map_eq_append_iff.mp htokens
  obtain ⟨⟨t, further⟩, more, rfl, rfl, rfl⟩ := List.map_eq_cons_iff.mp hothers
  rw [lexemes, Nat.add_comm before.length 1] at hlexemes
  rw [Nat.add_comm before.length 1]
  -- the token takes some room, so the text goes on where it starts
  have htail : v ++ after ≠ [] := by
    intro hnil
    have hplace := ((tiles_lexemesFrom (before ++ (v ++ after)) 1).lexed [] rfl
      (⟨.identifier, v, 1 + before.length⟩, further) (by rw [hlexemes]; simp)).2.1
    rw [hnil, stopOf, List.nil_append, List.append_nil] at hplace
    dsimp only at hplace
    omega
  obtain ⟨hfirst, -⟩ := lexemesFrom_replaced htail (fun u hu => .inl hu) hlexemes rfl
  obtain ⟨⟨first, hfirst', hunit⟩, hafter, hmore⟩ := lexemesFrom_identifier hfirst
  -- a word starts as an identifier does, so the tokens in front do not change
  have hreplace : MayReplace (v ++ after) (w ++ after) := by
    obtain ⟨u, others, rfl, hstarts, -⟩ := h.units
    intro x hx
    obtain rfl : u = x := Option.some.inj hx
    obtain ⟨hdigit, -, -, hsymbol⟩ := CodeUnit.startsWord_plain hstarts
    refine .inr ⟨fun hu => hsymbol (by simp [hu, Lexeme.symbols]),
      fun hu => hsymbol (by simp [hu, Lexeme.symbols]), hdigit, fun _ => ⟨first, ?_, hunit⟩⟩
    rw [List.head?_append, hfirst']
    rfl
  obtain ⟨-, hthere⟩ := lexemesFrom_replaced htail hreplace hlexemes rfl
  refine ⟨(after.lexemesFrom 0 (1 + before.length + w.length)).map Prod.fst, ?_, ?_⟩
  · rw [properTokens, lexemes, hthere, h.lexemesFrom hafter, List.map_append, List.map_cons]
  · -- the tokens behind differ in their places only
    rw [hmore, List.map_map, List.map_map]
    exact bare_lexemesFrom after 0 _ _

/-- Where an identifier stands in a text that parses, another word may stand, but for the word that
says in which direction to expand. -/
theorem IsWord.parse_replaced (h : w.IsWord) (hkind : TokenKind.ofWord w = .identifier)
    {front rest : List Token} {q : Query}
    (htokens : (before ++ (v ++ after)).properTokens =
      front ++ ⟨.identifier, v, before.length + 1⟩ :: rest)
    (hfront : ∀ t ∈ front.getLast?, t.kind ≠ .keyword .expand)
    (hparse : Query.parse (before ++ (v ++ after)) = .ok q) :
    ∃ q', Query.parse (before ++ (w ++ after)) = .ok q' := by
  obtain ⟨rest', htokens', hrest⟩ := h.properTokens_replaced htokens
  have hderives := Query.parse_eq_ok_iff.mp hparse
  rw [htokens] at hderives
  have hrenamed : Renamed false (⟨.identifier, v, before.length + 1⟩ :: rest)
      (⟨TokenKind.ofWord w, w, before.length + 1⟩ :: rest') :=
    .cons hkind (by simp) (.of_bare hrest)
  obtain ⟨q', hq'⟩ := renames_derives hderives (hrenamed.behind hfront fun _ => rfl)
  rw [← htokens'] at hq'
  exact ⟨q', Query.parse_eq_ok_iff.mpr hq'⟩

/-- A word at the end of a text is one token. -/
theorem IsWord.lexemesFrom_last (h : w.IsWord) (pos : Nat) :
    w.lexemesFrom 0 pos = [(⟨TokenKind.ofWord w, w, pos⟩, w.length - 1)] := by
  have hlexemes := @IsWord.lexemesFrom w h [] (by simp) pos
  rwa [List.append_nil] at hlexemes

/-- A word in front of a space is one token. -/
theorem IsWord.lexemesFrom_spaced (h : w.IsWord) {rest : Text}
    (hrest : ∀ v ∈ rest.head?, v.isSpace = true) (pos : Nat) :
    (w ++ rest).lexemesFrom 0 pos =
      (⟨TokenKind.ofWord w, w, pos⟩, w.length - 1) :: rest.lexemesFrom 0 (pos + w.length) :=
  h.lexemesFrom (fun v hv => (not_isWordUnit_of_isSpace (hrest v hv)).2.2.2) pos

theorem IsWord.tokens (h : w.IsWord) :
    w.tokens = [⟨TokenKind.ofWord w, w, 1⟩, w.endToken] := by
  rw [Text.tokens, properTokens, lexemes, h.lexemesFrom_last]
  rfl

/-- An operator with a space behind it is one token. -/
theorem lexemesFrom_operator (op : ComparisonOp) (rest : Text) (pos : Nat) :
    Text.lexemesFrom (op.symbol ++ (" " ++ rest)) 0 pos =
      (⟨.comparison op, op.symbol, pos⟩, (ofString op.symbol).length - 1) ::
        rest.lexemesFrom 0 (pos + (ofString op.symbol).length + 1) := by
  cases op <;> rfl

theorem lexemesFrom_orderBy (rest : Text) (pos : Nat) :
    Text.lexemesFrom ("order by " ++ rest) 0 pos =
      (⟨.keyword .order, "order", pos⟩, 4) :: (⟨.keyword .byWord, "by", pos + 6⟩, 1) ::
        rest.lexemesFrom 0 (pos + 9) := by
  rfl

section

variable (h : w.IsWord) (hkind : TokenKind.ofWord w = .identifier)
include h hkind

/-- The word is a field, and the value that the field is compared with. -/
theorem IsWord.parse_compare (op : ComparisonOp) :
    Query.parse (w ++ (" " ++ (op.symbol ++ (" " ++ w)))) =
      .ok ⟨some (.leaf (.compare w op (Parser.wordValue w))), none, []⟩ := by
  have hspace (rest : Text) (pos : Nat) :
      Text.lexemesFrom (" " ++ rest) 0 pos = rest.lexemesFrom 0 (pos + 1) := rfl
  rw [Query.parse, properTokens, lexemes, h.lexemesFrom_spaced (by rintro _ ⟨⟩; rfl), hkind,
    hspace, lexemesFrom_operator, h.lexemesFrom_last, hkind]
  rfl

/-- The word is a field, and a value in a list. -/
theorem IsWord.parse_oneOf (negated : Bool) :
    Query.parse (w ++ ((if negated then " not in (" else " in (") ++ (w ++ ")"))) =
      .ok ⟨some (.leaf (.oneOf w [Parser.wordValue w] negated)), none, []⟩ := by
  have hclose := @IsWord.lexemesFrom w h ")" (by rintro _ ⟨⟩; decide +kernel)
  simp only [hkind] at hclose
  cases negated with
  | false =>
    have hin (rest : Text) (pos : Nat) : Text.lexemesFrom (" in (" ++ rest) 0 pos =
        (⟨.keyword .inList, "in", pos + 1⟩, 1) :: (⟨.leftParen, "(", pos + 4⟩, 0) ::
          rest.lexemesFrom 0 (pos + 5) := rfl
    rw [if_neg nofun, Query.parse, properTokens, lexemes,
      h.lexemesFrom_spaced (by rintro _ ⟨⟩; rfl), hkind, hin, hclose]
    rfl
  | true =>
    have hin (rest : Text) (pos : Nat) : Text.lexemesFrom (" not in (" ++ rest) 0 pos =
        (⟨.keyword .not, "not", pos + 1⟩, 2) :: (⟨.keyword .inList, "in", pos + 5⟩, 1) ::
          (⟨.leftParen, "(", pos + 8⟩, 0) :: rest.lexemesFrom 0 (pos + 9) := rfl
    rw [if_pos rfl, Query.parse, properTokens, lexemes,
      h.lexemesFrom_spaced (by rintro _ ⟨⟩; rfl), hkind, hin, hclose]
    rfl

/-- The word is a field to order by. -/
theorem IsWord.parse_orderBy : Query.parse ("order by " ++ w) = .ok ⟨none, none, [⟨w, false⟩]⟩ := by
  rw [Query.parse, properTokens, lexemes, lexemesFrom_orderBy, h.lexemesFrom_last, hkind]
  rfl

end

end Text

/-- A word that is no keyword is an identifier, unless it is reserved. An identifier may be a field, a
value, a value in a list or a field to order by, and it may stand wherever a text that parses has an
identifier that does not say in which direction to expand. -/
theorem Text.word_reads {w : Text} (hword : w.IsWord) (hkeyword : w.NoKeyword) :
    (w.tokens = [⟨.identifier, w, 1⟩, w.endToken] ↔ w.NotReserved) ∧
      (w.NotReserved →
        (∀ op : ComparisonOp, Query.parse (w ++ (" " ++ (op.symbol ++ (" " ++ w)))) =
          .ok ⟨some (.leaf (.compare w op (Parser.wordValue w))), none, []⟩) ∧
        (∀ negated : Bool,
          Query.parse (w ++ ((if negated then " not in (" else " in (") ++ (w ++ ")"))) =
            .ok ⟨some (.leaf (.oneOf w [Parser.wordValue w] negated)), none, []⟩) ∧
        Query.parse ("order by " ++ w) = .ok ⟨none, none, [⟨w, false⟩]⟩ ∧
        ∀ (before v after : Text) (front rest : List Token) (q : Query),
          (before ++ (v ++ after)).properTokens =
            front ++ ⟨.identifier, v, before.length + 1⟩ :: rest →
          (∀ t ∈ front.getLast?, t.kind ≠ .keyword .expand) →
          Query.parse (before ++ (v ++ after)) = .ok q →
          ∃ q', Query.parse (before ++ (w ++ after)) = .ok q') := by
  have hidentifier := TokenKind.ofWord_eq_identifier_iff hkeyword
  refine ⟨?_, fun hfree => ?_⟩
  · rw [hword.tokens, ← hidentifier]
    simp
  · have hkind := hidentifier.mpr hfree
    exact ⟨hword.parse_compare hkind, hword.parse_oneOf hkind, hword.parse_orderBy hkind,
      fun _ _ _ _ _ _ htokens hfront hparse => hword.parse_replaced hkind htokens hfront hparse⟩

/-- The word `wörter_2-x` is a field to order by in place of another one. -/
theorem Text.word_reads_in_place :
    IsWord "wörter_2-x" ∧ NoKeyword "wörter_2-x" ∧ NotReserved "wörter_2-x" ∧
      Text.tokens "wörter_2-x" = [⟨.identifier, "wörter_2-x", 1⟩, ⟨.endOfInput, [], 11⟩] ∧
      ∃ q, Query.parse ("order by " ++ ("wörter_2-x" ++ " desc")) = .ok q := by
  have hword : IsWord "wörter_2-x" := by decide +kernel
  have hsmall : Text.toLower "wörter_2-x" = "wörter_2-x" := by decide +kernel
  have hkeyword : NoKeyword "wörter_2-x" := by
    intro k
    rw [hsmall]
    cases k <;> decide
  have hfree : NotReserved "wörter_2-x" := by
    intro r
    rw [hsmall]
    cases r <;> decide
  obtain ⟨htokens, hroles⟩ := word_reads hword hkeyword
  refine ⟨hword, hkeyword, hfree, htokens.mpr hfree, ?_⟩
  exact (hroles hfree).2.2.2 "order by " "id" " desc"
    [⟨.keyword .order, "order", 1⟩, ⟨.keyword .byWord, "by", 7⟩] [⟨.keyword .desc, "desc", 13⟩]
    ⟨none, none, [⟨"id", true⟩]⟩ (by decide +kernel) (by decide) rfl

/-- A word that starts with a letter is no identifier if it is reserved, although it is no keyword. -/
theorem Text.constructor_not_identifier :
    IsWord "constructor" ∧ NoKeyword "constructor" ∧
      Text.tokens "constructor" ≠ [⟨.identifier, "constructor", 1⟩, ⟨.endOfInput, [], 12⟩] ∧
      ∀ q, Query.parse ("order by " ++ "constructor") ≠ .ok q := by
  have hword : IsWord "constructor" := by decide +kernel
  have hsmall : Text.toLower "constructor" = "constructor" := by decide +kernel
  have hkind : TokenKind.ofWord "constructor" = .reserved .constructorWord := by
    rw [TokenKind.ofWord, hsmall]
    rfl
  refine ⟨hword, fun k => ?_, ?_, fun q hq => ?_⟩
  · rw [hsmall]
    cases k <;> decide
  · rw [hword.tokens, hkind]
    simp
  · have hparse : Query.parse ("order by " ++ "constructor") =
        .error ⟨.expected .fieldName, ⟨.reserved .constructorWord, "constructor", 10⟩⟩ := by
      rw [Query.parse, properTokens, lexemes, lexemesFrom_orderBy, hword.lexemesFrom_last, hkind]
      rfl
    cases hparse.symm.trans hq

end IssueQuery
