import IssueQuery.Proofs.Token.Tiling

/-!
# Tokens and what stands behind them

A token ends where it ends whatever stands behind it, as long as that does not go on with it. So a
text may be laid out anew, with any spaces between its tokens, and a word may stand in place of
another one: the tokens of the rest stay as they are.

* `MayReplace`                what may stand behind a token in place of something else;
* `Lexeme.scan_append`        a token does not depend on what stands behind it;
* `Joined`                    texts one behind the other with spaces between them;
* `Text.bare_tokens_joined`   a text that is laid out anew has the same tokens;
* `Text.lexemesFrom_replaced` so has a text in front of something that is replaced.
-/

namespace IssueQuery

/-- A text that may stand behind a token in place of another one. It begins as the other one does, or
it makes no operator longer and no number of a sign, and goes on with a word only if the other one
does. -/
def MayReplace (after after' : Text) : Prop :=
  ∀ v ∈ after'.head?, v ∈ after.head? ∨
    v.toChar ≠ '=' ∧ v.toChar ≠ '~' ∧ v.isDigit = false ∧
      (v.isWordUnit = true → ∃ w ∈ after.head?, w.isWordUnit = true)

namespace Lexeme

variable {u : CodeUnit} {more after after' : Text}

/-- A closed string does not depend on what stands behind it. -/
theorem stringBody_quotedBody {quote : CodeUnit} (hclose : quote.toChar ≠ '\\')
    {source body : Text} (h : QuotedBody quote source body) (rest : Text) :
    stringBody quote (source ++ quote :: rest) = (body, source.length + 1) := by
  induction h with
  | nil => cases rest <;> simp [stringBody]
  | @plain u source body hquote hslash h ih =>
    obtain ⟨v, tail, htail⟩ := List.exists_cons_of_ne_nil (l := source ++ quote :: rest) (by simp)
    rw [List.cons_append, htail, stringBody, if_neg hquote, if_neg (by simpa using hslash), ← htail,
      ih]
    rfl
  | @escaped slash v source body hslash h ih =>
    have hquote : slash ≠ quote := fun heq => hclose (heq ▸ hslash)
    rw [List.cons_append, List.cons_append, stringBody, if_neg hquote,
      if_pos (by simpa using hslash), ih]
    rfl

/-- A string that ends before the end of the text is closed. -/
theorem stringBody_append {quote : CodeUnit} (hclose : quote.toChar ≠ '\\')
    (hcount : (stringBody quote (more ++ after)).2 = more.length) (hafter : after ≠ []) :
    stringBody quote (more ++ after') = stringBody quote (more ++ after) := by
  obtain ⟨source, rest, htext, hlength, hrest⟩ := quotedRest_stringBody quote (more ++ after)
  obtain ⟨rfl, rfl⟩ := List.append_inj htext (hcount.symm.trans hlength)
  generalize (stringBody quote (more ++ after)).1 = body at hrest
  cases hrest with
  | @closed source _ h =>
    have hsame (rest : Text) : stringBody quote (source ++ [quote] ++ rest) =
        (body, source.length + 1) := by
      rw [List.append_assoc, List.singleton_append, stringBody_quotedBody hclose h]
    rw [hsame, hsame]
  | unclosed | brokenOff => exact absurd rfl hafter

theorem operator_append {long short : TokenKind}
    (hfurther : (operator u (more ++ after) '=' long short).further = more.length)
    (hreplace : MayReplace after after') :
    operator u (more ++ after') '=' long short = operator u (more ++ after) '=' long short := by
  cases more with
  | cons v more => rfl
  | nil =>
    -- the operator has one unit, so no longer one can be made of it
    have hshort {text : Text} (h : ∀ v ∈ text.head?, v.toChar ≠ '=') :
        operator u text '=' long short = verbatim short [u] := by
      cases text with
      | nil => rfl
      | cons v text =>
        have hv : v.toChar ≠ '=' := h v rfl
        simp [operator, hv]
    have hafter : ∀ v ∈ after.head?, v.toChar ≠ '=' := by
      rintro v hv heq
      cases after with
      | nil => cases hv
      | cons w after =>
        obtain rfl : w = v := Option.some.inj hv
        simp [operator, heq, verbatim] at hfurther
    rw [List.nil_append, List.nil_append, hshort hafter, hshort]
    intro v hv
    obtain hsame | ⟨hequals, -⟩ := hreplace v hv
    · exact hafter v hsame
    · exact hequals

/-- A run that ends where `after` begins ends where another text begins in its place. -/
theorem takeWhile_append {p : CodeUnit → Bool}
    (hlength : ((more ++ after).takeWhile p).length = more.length)
    (hafter : ∀ v ∈ after'.head?, p v = true → ∃ w ∈ after.head?, p w = true) :
    (more ++ after).takeWhile p = more ∧ (more ++ after').takeWhile p = more := by
  obtain ⟨hrun, hrest⟩ := List.append_inj List.takeWhile_append_dropWhile hlength
  have hall : ∀ v ∈ more, p v = true := hrun ▸ List.all_eq_true.mp List.all_takeWhile
  refine ⟨hrun, ?_⟩
  rw [List.takeWhile_append_of_pos hall]
  cases after' with
  | nil => rw [List.takeWhile_nil, List.append_nil]
  | cons v tail =>
    have hv : ¬ p v = true := by
      intro hv
      obtain ⟨w, hw, hpw⟩ := hafter v rfl hv
      have hstop := List.head?_dropWhile_not p (more ++ after)
      rw [hrest, hw] at hstop
      exact absurd hpw (by simpa using hstop)
    rw [List.takeWhile_cons_of_neg hv, List.append_nil]

theorem further_numeric (signed : Bool) (source : Text) :
    (numeric signed source).further = source.length - 1 := by
  obtain ⟨kind, hnumeric, -⟩ := numeric_eq signed source
  rw [hnumeric]
  rfl

theorem startsWithDigit_of_append (hreplace : MayReplace after after')
    (h : startsWithDigit (more ++ after') = true) : startsWithDigit (more ++ after) = true := by
  cases more with
  | cons v more => exact h
  | nil =>
    cases after' with
    | nil => cases h
    | cons v tail =>
      obtain hsame | ⟨-, -, hdigit, -⟩ := hreplace v rfl
      · have hhead : after.head? = some v := hsame
        simpa [startsWithDigit, hhead] using h
      · exact absurd h (by simp [startsWithDigit, hdigit])

/-- A digit behind a sign belongs to the word that the sign begins. -/
theorem startsWithDigit_append
    (hlength : ((more ++ after).takeWhile CodeUnit.isWordUnit).length = more.length)
    (h : startsWithDigit (more ++ after) = true) : startsWithDigit (more ++ after') = true := by
  cases more with
  | cons v more => exact h
  | nil =>
    cases after with
    | nil => cases h
    | cons v tail =>
      have hdigit : v.isDigit = true := h
      have hword : v.isWordUnit = true := by simp [CodeUnit.isWordUnit, hdigit]
      simp [List.takeWhile_cons_of_pos hword] at hlength

/-- A word or a number does not depend on what stands behind it. -/
theorem wordLike_append (hfurther : (wordLike u (more ++ after)).further = more.length)
    (hreplace : MayReplace after after') :
    wordLike u (more ++ after') = wordLike u (more ++ after) := by
  -- the run of word units ends inside the text, so what stands behind it is not looked at
  have hrun (hlength : ((more ++ after).takeWhile CodeUnit.isWordUnit).length = more.length) :
      (more ++ after').takeWhile CodeUnit.isWordUnit =
        (more ++ after).takeWhile CodeUnit.isWordUnit := by
    obtain ⟨hbefore, hnow⟩ := takeWhile_append hlength fun v hv hword => by
      obtain hsame | ⟨-, -, -, hother⟩ := hreplace v hv
      · exact ⟨v, hsame, hword⟩
      · exact hother hword
    rw [hbefore, hnow]
  unfold wordLike at hfurther ⊢
  dsimp only at hfurther ⊢
  by_cases hdigit : u.isDigit = true
  · simp only [hdigit, if_true, further_numeric, List.length_cons, Nat.add_sub_cancel] at hfurther ⊢
    rw [hrun hfurther]
  · simp only [hdigit, Bool.false_eq_true, if_false] at hfurther ⊢
    by_cases hsigned : ((u.toChar == '-' || u.toChar == '+') && startsWithDigit (more ++ after)) = true
    · rw [if_pos hsigned, further_numeric, List.length_cons, Nat.add_sub_cancel] at hfurther
      obtain ⟨hsign, hsecond⟩ := Bool.and_eq_true_iff.mp hsigned
      rw [if_pos hsigned, hsign, startsWithDigit_append hfurther hsecond, Bool.and_self, if_pos rfl,
        hrun hfurther]
    · -- a sign without a digit behind it does not get one by the replacement
      have hsigned' :
          ¬ ((u.toChar == '-' || u.toChar == '+') && startsWithDigit (more ++ after')) = true := by
        intro h
        obtain ⟨hsign, hsecond⟩ := Bool.and_eq_true_iff.mp h
        exact hsigned (Bool.and_eq_true_iff.mpr ⟨hsign, startsWithDigit_of_append hreplace hsecond⟩)
      rw [if_neg hsigned] at hfurther ⊢
      rw [if_neg hsigned']
      by_cases hstarts : u.startsWord = true
      · rw [if_pos hstarts] at hfurther
        rw [hrun hfurther]
      · rw [if_neg hstarts, if_neg hstarts]

/-- An exclamation mark that begins no operator. -/
theorem scan_mark (hu : u.toChar = '!') {text : Text}
    (h : ∀ v ∈ text.head?, v.toChar ≠ '=' ∧ v.toChar ≠ '~') :
    scan u text = verbatim .illegal [u] := by
  cases text with
  | nil => simp [scan, hu]
  | cons v text =>
    obtain ⟨hequals, htilde⟩ := h v rfl
    simp [scan, hu]

theorem mark_append (hu : u.toChar = '!')
    (hfurther : (scan u (more ++ after)).further = more.length)
    (hreplace : MayReplace after after') : scan u (more ++ after') = scan u (more ++ after) := by
  cases more with
  | cons v more => simp [scan, hu]
  | nil =>
    have hshort : ∀ v ∈ after.head?, v.toChar ≠ '=' ∧ v.toChar ≠ '~' := by
      intro v hv
      cases after with
      | nil => cases hv
      | cons w after =>
        obtain rfl : w = v := Option.some.inj hv
        constructor <;>
        · intro heq
          simp [scan, hu, heq, verbatim] at hfurther
    rw [List.nil_append, List.nil_append, scan_mark hu hshort, scan_mark hu]
    intro v hv
    obtain hsame | ⟨hequals, htilde, -⟩ := hreplace v hv
    · exact hshort v hsame
    · exact ⟨hequals, htilde⟩

/-- A token that ends before the end of the text does not depend on what stands behind it. -/
theorem scan_append (hfurther : (scan u (more ++ after)).further = more.length) (hafter : after ≠ [])
    (hreplace : MayReplace after after') : scan u (more ++ after') = scan u (more ++ after) := by
  by_cases hmark : u.toChar = '!'
  · exact mark_append hmark hfurther hreplace
  · unfold scan at hfurther ⊢
    split at hfurther
    case h_7 hu => exact absurd hu hmark
    case h_8 => exact operator_append hfurther hreplace
    case h_9 => exact operator_append hfurther hreplace
    case h_10 hu =>
      dsimp only at hfurther ⊢
      rw [stringBody_append (by rw [hu]; decide) hfurther hafter]
    case h_11 hu =>
      dsimp only at hfurther ⊢
      rw [stringBody_append (by rw [hu]; decide) hfurther hafter]
    case h_12 => exact wordLike_append hfurther hreplace
    -- the symbols of one unit
    all_goals rfl

/-- What is no symbol is a word or a number, if it is anything. -/
theorem scan_eq_wordLike (h : u.toChar ∉ symbols) (rest : Text) : scan u rest = wordLike u rest := by
  unfold scan
  split
  case h_12 => rfl
  all_goals
    rename_i hu
    exact absurd (by simp [hu, symbols]) h

/-- Identifiers and numbers are no symbols. -/
theorem scan_eq_wordLike_of_kind {rest : Text}
    (h : (scan u rest).kind = .identifier ∨ (scan u rest).kind = .number) :
    scan u rest = wordLike u rest := by
  unfold scan at h ⊢
  split at h
  case h_7 =>
    split at h
    · split at h <;> rcases h with h | h <;> cases h
    · rcases h with h | h <;> cases h
  case h_8 | h_9 =>
    unfold operator at h
    split at h
    · split at h <;> rcases h with h | h <;> cases h
    · rcases h with h | h <;> cases h
  case h_12 => rfl
  all_goals rcases h with h | h <;> cases h

end Lexeme

/-- A token that is its own source, in front of anything. -/
theorem Text.lexemesFrom_verbatim {u : CodeUnit} {more rest : Text} {kind : TokenKind}
    (hspace : u.isSpace = false)
    (hscan : Lexeme.scan u (more ++ rest) = Lexeme.verbatim kind (u :: more)) (pos : Nat) :
    lexemesFrom (u :: (more ++ rest)) 0 pos =
      (⟨kind, u :: more, pos⟩, more.length) :: rest.lexemesFrom 0 (pos + 1 + more.length) := by
  rw [Text.lexemesFrom, if_neg (by simp [hspace])]
  dsimp only
  rw [hscan, Lexeme.verbatim, List.length_cons, Nat.add_sub_cancel, lexemesFrom_skip]

/-! ## Texts laid out anew -/

/-- The sources of the tokens of a text, in order, where one token after the other is read. -/
inductive Cut : Text → List Text → Prop
  | nil : Cut [] []
  | space {u : CodeUnit} {rest : Text} {sources : List Text} (hspace : u.isSpace = true)
    (h : Cut rest sources) : Cut (u :: rest) sources
  | token {u : CodeUnit} {more after : Text} {sources : List Text} (hspace : u.isSpace = false)
    (hfurther : (Lexeme.scan u (more ++ after)).further = more.length) (h : Cut after sources) :
    Cut (u :: (more ++ after)) ((u :: more) :: sources)

/-- Texts one behind the other, with one or more spaces between neighbours. -/
inductive Joined : List Text → Text → Prop
  | nil : Joined [] []
  | single (source : Text) : Joined [source] source
  | cons {source next spaces text : Text} {more : List Text} (hne : spaces ≠ [])
    (hspaces : ∀ u ∈ spaces, u.isSpace = true) (h : Joined (next :: more) text) :
    Joined (source :: next :: more) (source ++ (spaces ++ text))

/-- The sources of the tokens of a text. -/
def Text.sources (text : Text) : List Text :=
  text.lexemes.map fun l => text.slice (startOf l) (stopOf l)

/-- What a token is, wherever it stands. -/
def Token.bare (t : Token) : TokenKind × Text := (t.kind, t.literal)

/-- The slice of a text at a token that begins behind `before`. -/
theorem slice_token {t : Token} {further : Nat} (before source rest : Text)
    (hpos : t.pos = before.length + 1) (hlength : source.length = further + 1) :
    (before ++ (source ++ rest)).slice (startOf (t, further)) (stopOf (t, further)) = source := by
  have hstop : stopOf (t, further) - startOf (t, further) = source.length := by
    simp only [startOf, stopOf]
    omega
  rw [Text.slice, hstop, startOf, hpos, Nat.add_sub_cancel, List.drop_left, List.take_left]

/-- The slices of a text at its tokens are what is cut out of it. -/
theorem cut_sources (before text : Text) :
    Cut text ((text.lexemesFrom 0 (before.length + 1)).map fun l =>
      (before ++ text).slice (startOf l) (stopOf l)) := by
  -- a space or a token at a time; what stands in front only moves the positions
  induction hlength : text.length using Nat.strongRecOn generalizing before text with
  | ind n ih =>
    cases text with
    | nil => exact .nil
    | cons u rest =>
      rw [List.length_cons] at hlength
      rw [Text.lexemesFrom]
      split
      · rename_i hspace
        have hrest := ih rest.length (by omega) (before ++ [u]) rest rfl
        rw [List.append_assoc, List.singleton_append, List.length_append] at hrest
        exact .space hspace hrest
      · rename_i hspace
        have hspace : u.isSpace = false := by simpa using hspace
        obtain ⟨more, after, rfl, hfurther, -⟩ := Lexeme.reads_scan hspace rest
        rw [List.length_append] at hlength
        have hrest := ih after.length (by omega) (before ++ u :: more) after rfl
        have hplace : (before ++ u :: more).length + 1 = before.length + 1 + 1 + more.length := by
          simp only [List.length_append, List.length_cons]
          omega
        rw [List.append_assoc, List.cons_append, hplace] at hrest
        dsimp only
        rw [hfurther, Text.lexemesFrom_skip, List.map_cons, ← List.cons_append,
          slice_token before (u :: more) after rfl (List.length_cons ..)]
        exact .token hspace hfurther hrest

theorem not_isWordUnit_of_isSpace {v : CodeUnit} (h : v.isSpace = true) :
    v.toChar ≠ '=' ∧ v.toChar ≠ '~' ∧ v.isDigit = false ∧ v.isWordUnit = false := by
  unfold CodeUnit.isSpace at h
  split at h
  case h_5 => cases h
  all_goals
    rename_i hv
    have hcode := CodeUnit.eq_ofNat_of_toChar hv (by decide)
    rw [CodeUnit.isDigit, hv, hcode]
    decide +kernel

theorem mayReplace_spaces {after after' : Text} (h : ∀ v ∈ after'.head?, v.isSpace = true) :
    MayReplace after after' := by
  intro v hv
  obtain ⟨hequals, htilde, hdigit, hword⟩ := not_isWordUnit_of_isSpace (h v hv)
  exact .inr ⟨hequals, htilde, hdigit, fun hother => nomatch hword.symm.trans hother⟩

/-- Texts that are cut out of one text and joined again give the tokens of that text. -/
theorem Cut.bare_joined {text : Text} {sources : List Text} (h : Cut text sources) {text' : Text}
    (hjoined : Joined sources text') (pos pos' : Nat) :
    (text'.lexemesFrom 0 pos').map (Token.bare ∘ Prod.fst) =
      (text.lexemesFrom 0 pos).map (Token.bare ∘ Prod.fst) := by
  induction h generalizing text' pos pos' with
  | nil =>
    cases hjoined
    rfl
  | space hspace h ih =>
    rw [ih hjoined (pos + 1) pos']
    simp [Text.lexemesFrom, hspace]
  | @token u more after sources hspace hfurther h ih =>
    -- the token is read again, whatever stands behind it now
    have hagain {after' : Text} (hscan : Lexeme.scan u (more ++ after') = Lexeme.scan u (more ++ after))
        (hrest : (after'.lexemesFrom 0 (pos' + 1 + more.length)).map (Token.bare ∘ Prod.fst) =
          (after.lexemesFrom 0 (pos + 1 + more.length)).map (Token.bare ∘ Prod.fst)) :
        (Text.lexemesFrom (u :: (more ++ after')) 0 pos').map (Token.bare ∘ Prod.fst) =
          (Text.lexemesFrom (u :: (more ++ after)) 0 pos).map (Token.bare ∘ Prod.fst) := by
      rw [Text.lexemesFrom, Text.lexemesFrom, if_neg (by simp [hspace]), if_neg (by simp [hspace])]
      dsimp only
      rw [hscan, hfurther, Text.lexemesFrom_skip, Text.lexemesFrom_skip, List.map_cons,
        List.map_cons, hrest]
      rfl
    by_cases hafter : after = []
    · subst hafter
      cases h
      cases hjoined
      rw [← List.append_nil (u :: more)]
      exact hagain rfl rfl
    · cases hjoined with
      | single =>
        rw [← List.append_nil (u :: more)]
        refine hagain (Lexeme.scan_append hfurther hafter (mayReplace_spaces (by simp))) ?_
        exact ih .nil _ _
      | @cons _ next spaces text' more' hne hspaces hjoined =>
        obtain ⟨v, spaces, rfl⟩ := List.exists_cons_of_ne_nil hne
        refine hagain (Lexeme.scan_append hfurther hafter (mayReplace_spaces ?_)) ?_
        · simpa using hspaces v List.mem_cons_self
        · rw [Text.lexemesFrom_spaces hspaces]
          exact ih hjoined _ _

/-- A text that is laid out anew has the same tokens, at other places. -/
theorem Text.bare_tokens_joined {text text' : Text} (h : Joined text.sources text') :
    text'.tokens.map Token.bare = text.tokens.map Token.bare := by
  have hbare := (cut_sources [] text).bare_joined h 1 1
  simp only [Text.tokens, Text.properTokens, Text.lexemes, List.map_append, List.map_map]
  rw [hbare]
  rfl

/-! ## One piece in place of another -/

theorem Text.bare_lexemesFrom (text : Text) (skip pos pos' : Nat) :
    (text.lexemesFrom skip pos').map (Token.bare ∘ Prod.fst) =
      (text.lexemesFrom skip pos).map (Token.bare ∘ Prod.fst) := by
  induction text generalizing skip pos pos' with
  | nil => rfl
  | cons u rest ih =>
    cases skip with
    | succ skip => exact ih skip (pos + 1) (pos' + 1)
    | zero =>
      rw [lexemesFrom, lexemesFrom]
      split
      · exact ih 0 (pos + 1) (pos' + 1)
      · rw [List.map_cons, List.map_cons, ih _ (pos + 1) (pos' + 1)]
        rfl

theorem Tiles.le_pos {pos : Nat} {text : Text} {lexemes : List (Token × Nat)}
    (h : Tiles pos text lexemes) : ∀ l ∈ lexemes, pos ≤ l.1.pos := by
  induction h with
  | nil => simp
  | space hspace h ih => exact fun l hl => Nat.le_of_succ_le (ih l hl)
  | token hlexed hlength h ih =>
    intro l hl
    obtain rfl | hl := List.mem_cons.mp hl
    · exact Nat.le_refl _
    · exact Nat.le_of_add_right_le (ih l hl)

theorem Tiles.lt_pos {pos : Nat} {text : Text} {first : Token × Nat} {more : List (Token × Nat)}
    (h : Tiles pos text (first :: more)) : ∀ l ∈ more, first.1.pos < l.1.pos := by
  generalize hall : first :: more = lexemes at h
  induction h with
  | nil => cases hall
  | space hspace h ih => exact ih hall
  | token hlexed hlength h ih =>
    obtain ⟨rfl, rfl⟩ := List.cons.inj hall
    intro l hl
    have hplace := h.le_pos l hl
    rw [hlength] at hplace
    dsimp only
    omega

/-- Where a token begins behind `before`, another text may stand: the tokens in front stay. -/
theorem Text.lexemesFrom_replaced {before tail tail' : Text} (htail : tail ≠ [])
    (hreplace : MayReplace tail tail') {pos : Nat} {front rest : List (Token × Nat)}
    {l : Token × Nat} (h : (before ++ tail).lexemesFrom 0 pos = front ++ l :: rest)
    (hl : l.1.pos = pos + before.length) :
    tail.lexemesFrom 0 (pos + before.length) = l :: rest ∧
      (before ++ tail').lexemesFrom 0 pos = front ++ tail'.lexemesFrom 0 (pos + before.length) := by
  -- induction on the length of what is in front, as a token takes several units at once
  induction hlength : before.length using Nat.strongRecOn generalizing before pos front with
  | ind n ih =>
    subst hlength
    have htiles := tiles_lexemesFrom (before ++ tail) pos
    rw [h] at htiles
    cases before with
    | nil =>
      -- a token in front of `l` would begin before the text does
      cases front with
      | nil => exact ⟨h, rfl⟩
      | cons first front =>
        have hfirst := htiles.le_pos first List.mem_cons_self
        have hlater := htiles.lt_pos l (by simp)
        rw [List.length_nil] at hl
        omega
    | cons u before =>
      rw [List.length_cons] at hl ih
      rw [List.cons_append, lexemesFrom] at h
      rw [List.cons_append, lexemesFrom, List.length_cons]
      split at h
      · rename_i hspace
        rw [if_pos hspace]
        have hrest := ih before.length (by omega) h (by omega) rfl
        rwa [Nat.add_assoc, Nat.add_comm 1] at hrest
      · rename_i hspace
        rw [if_neg hspace]
        obtain ⟨more, after, htext, hfurther, -⟩ :=
          Lexeme.reads_scan (by simpa using hspace) (before ++ tail)
        dsimp only at h ⊢
        rw [hfurther, htext, lexemesFrom_skip, ← htext] at h
        cases front with
        | nil =>
          obtain ⟨hfirst, -⟩ := List.cons.inj h
          rw [← hfirst] at hl
          dsimp only at hl
          omega
        | cons first front =>
          obtain ⟨rfl, hmore⟩ := List.cons.inj h
          have hplace := (tiles_lexemesFrom after (pos + 1 + more.length)).le_pos l
            (by rw [hmore]; simp)
          -- the token ends in front of the place, so what is behind it there may be replaced
          obtain ⟨before, rfl, rfl⟩ : ∃ b, before = more ++ b ∧ after = b ++ tail := by
            have hprefix : more <+: before :=
              List.prefix_of_prefix_length_le ⟨after, htext.symm⟩ (List.prefix_append _ _) (by omega)
            obtain ⟨b, rfl⟩ := hprefix
            exact ⟨b, rfl, List.append_cancel_left (htext.symm.trans (List.append_assoc ..))⟩
          have hbehind : MayReplace (before ++ tail) (before ++ tail') := by
            cases before with
            | nil => exact hreplace
            | cons v before => exact fun w hw => .inl hw
          have hscan : Lexeme.scan u (more ++ (before ++ tail')) =
              Lexeme.scan u (more ++ (before ++ tail)) :=
            Lexeme.scan_append (htext ▸ hfurther) (by simp [htail]) hbehind
          rw [List.append_assoc] at hfurther
          rw [List.length_append] at hl ih ⊢
          have hrest := ih before.length (by omega) hmore (by omega) rfl
          have hwhere : pos + 1 + more.length + before.length =
              pos + (more.length + before.length + 1) := by omega
          rw [hwhere] at hrest
          rw [List.append_assoc, List.append_assoc, hscan, hfurther, lexemesFrom_skip, hrest.2]
          exact ⟨hrest.1, rfl⟩

end IssueQuery
