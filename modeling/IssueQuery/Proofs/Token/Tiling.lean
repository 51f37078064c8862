import IssueQuery.Token.Lexer

/-!
# Tokens and the text that they are read from

Every code unit of a text is a space or belongs to one token, and every token is read as far as it
goes. What a token has to do with its source and with what stands behind it is said in `Lexed`,
without regard to how it is read; from there on tokens are laid side by side.

* `QuotedString`  how a string is written;
* `Lexed`         what a token, its source and the text behind it have to do with each other;
* `Tiles`         tokens that cover a text but for its spaces;
* `nextToken`     the token that is next, for one call after the other;
* `tokens_tile`   where the tokens of a text are, and what the calls give.
-/

namespace IssueQuery

/-! ## Tokens and their sources -/

/-- What is written between quotes and the text that it stands for. A backslash makes something else
of the unit after it, or lets it stand for itself, so that it closes nothing. -/
inductive QuotedBody (quote : CodeUnit) : (source body : Text) → Prop
  | nil : QuotedBody quote [] []
  | plain {u : CodeUnit} {source body : Text} (hquote : u ≠ quote) (hslash : u.toChar ≠ '\\')
    (h : QuotedBody quote source body) : QuotedBody quote (u :: source) (u :: body)
  | escaped {slash v : CodeUnit} {source body : Text} (hslash : slash.toChar = '\\')
    (h : QuotedBody quote source body) :
    QuotedBody quote (slash :: v :: source) (v.unescaped :: body)

/-- What stands behind an opening quote as far as it belongs to the string, what stands behind that,
and the text of the string. The string is closed, or the input ends, maybe behind a backslash. -/
inductive QuotedRest (quote : CodeUnit) : (source rest body : Text) → Prop
  | closed {source body : Text} (h : QuotedBody quote source body) (rest : Text) :
    QuotedRest quote (source ++ [quote]) rest body
  | unclosed {source body : Text} (h : QuotedBody quote source body) :
    QuotedRest quote source [] body
  | brokenOff {source body : Text} {slash : CodeUnit} (h : QuotedBody quote source body)
    (hslash : slash.toChar = '\\') : QuotedRest quote (source ++ [slash]) [] (body ++ [slash])

/-- How a string is written, with the text behind it. -/
def QuotedString (source rest literal : Text) : Prop :=
  ∃ quote body, source = quote :: body ∧ (quote.toChar = '"' ∨ quote.toChar = '\'') ∧
    QuotedRest quote body rest literal

/-- The text begins with a letter, an underscore, a digit, or a sign and a digit. -/
def BeginsWord : Text → Prop
  | [] => False
  | u :: rest => u.startsWord = true ∨ u.isDigit = true ∨
      (u.toChar = '-' ∨ u.toChar = '+') ∧ ∃ v ∈ rest.head?, v.isDigit = true

/-- The operators that can be made longer by one character, which makes another operator of them. -/
def longerOperators : List (Char × Char) := [('<', '='), ('>', '='), ('!', '='), ('!', '~')]

/-- What a token, its source and the text behind the source have to do with each other. -/
structure Lexed (t : Token) (source rest : Text) : Prop where
  starts : ∃ u more, source = u :: more ∧ u.isSpace = false
  proper : t.kind ≠ .endOfInput
  verbatim : t.kind ≠ .string → t.literal = source
  quoted : t.kind = .string → QuotedString source rest t.literal
  /-- A word or a number goes on as long as it can. -/
  word : BeginsWord (source ++ rest) → ∀ u ∈ rest.head?, u.isWordUnit = false
  /-- A short operator stands where no longer one does. -/
  operator : ∀ first second, (first, second) ∈ longerOperators →
    source.map CodeUnit.toChar = [first] → ∀ u ∈ rest.head?, u.toChar ≠ second

namespace Lexeme

variable {quote u : CodeUnit} {source rest more after body : Text} {kind : TokenKind} {c : Char}

/-! ## Strings -/

theorem QuotedRest.plain (hquote : u ≠ quote) (hslash : u.toChar ≠ '\\')
    (h : QuotedRest quote source rest body) : QuotedRest quote (u :: source) rest (u :: body) := by
  cases h with
  | closed h => exact .closed (.plain hquote hslash h) rest
  | unclosed h => exact .unclosed (.plain hquote hslash h)
  | brokenOff h hlast => exact .brokenOff (.plain hquote hslash h) hlast

theorem QuotedRest.escaped {slash v : CodeUnit} (hslash : slash.toChar = '\\')
    (h : QuotedRest quote source rest body) :
    QuotedRest quote (slash :: v :: source) rest (v.unescaped :: body) := by
  cases h with
  | closed h => exact .closed (.escaped hslash h) rest
  | unclosed h => exact .unclosed (.escaped hslash h)
  | brokenOff h hlast => exact .brokenOff (.escaped hslash h) hlast

/-- The units that a string takes behind its opening quote are those that belong to it. -/
theorem quotedRest_stringBody (quote : CodeUnit) (text : Text) :
    ∃ source rest, text = source ++ rest ∧ (stringBody quote text).2 = source.length ∧
      QuotedRest quote source rest (stringBody quote text).1 := by
  -- the cases of `stringBody`: nothing or one unit left, the closing quote, an escape, anything else
  induction text using stringBody.induct quote with
  | case1 => exact ⟨[], [], rfl, rfl, .unclosed .nil⟩
  | case2 => exact ⟨[quote], [], rfl, by simp [stringBody], by simpa [stringBody] using .closed .nil []⟩
  | case3 u hquote =>
    refine ⟨[u], [], rfl, by simp [stringBody, hquote], ?_⟩
    simp only [stringBody, if_neg hquote]
    by_cases hslash : u.toChar = '\\'
    · exact .brokenOff .nil hslash
    · exact .unclosed (.plain hquote hslash .nil)
  | case4 v tail =>
    exact ⟨[quote], v :: tail, rfl, by simp [stringBody],
      by simpa [stringBody] using .closed .nil (v :: tail)⟩
  | case5 u v tail hquote hslash _ _ _ ih =>
    obtain ⟨source, rest, rfl, hcount, hrest⟩ := ih
    refine ⟨u :: v :: source, rest, rfl, ?_, ?_⟩
    · simp [stringBody, hquote, hslash, hcount]
    · simpa [stringBody, hquote, hslash] using QuotedRest.escaped (by simpa using hslash) hrest
  | case6 u v tail hquote hslash _ _ _ ih =>
    obtain ⟨source, rest, htext, hcount, hrest⟩ := ih
    refine ⟨u :: source, rest, by rw [htext]; rfl, ?_, ?_⟩
    · simp [stringBody, hquote, hslash, hcount]
    · simpa [stringBody, hquote, hslash] using QuotedRest.plain hquote (by simpa using hslash) hrest

/-! ## One token -/

/-- What a lexeme has of the text behind its first unit, and that all is in order with it. -/
def Reads (lexeme : Lexeme) (u : CodeUnit) (text : Text) : Prop :=
  ∃ more after, text = more ++ after ∧ lexeme.further = more.length ∧
    ∀ pos, Lexed ⟨lexeme.kind, lexeme.literal, pos⟩ (u :: more) after

/-- A token that is its own source is in order if it goes on as long as it can. -/
theorem reads_verbatim (more after : Text) (hspace : u.isSpace = false)
    (hkind : kind ≠ .endOfInput ∧ kind ≠ .string)
    (hword : BeginsWord (u :: (more ++ after)) → ∀ v ∈ after.head?, v.isWordUnit = false)
    (hoperator : ∀ first second, (first, second) ∈ longerOperators → u.toChar = first →
      more = [] → ∀ v ∈ after.head?, v.toChar ≠ second) :
    Reads (verbatim kind (u :: more)) u (more ++ after) := by
  refine ⟨more, after, rfl, rfl, fun pos => ?_⟩
  exact {
    starts := ⟨u, more, rfl, hspace⟩
    proper := hkind.1
    verbatim := fun _ => rfl
    quoted := fun hstring => absurd hstring hkind.2
    word := hword
    operator := by
      intro first second hlonger hsource
      obtain ⟨hfirst, hmore⟩ := List.cons.inj hsource
      exact hoperator first second hlonger hfirst (List.map_eq_nil_iff.mp hmore) }

/-- The characters that begin neither a word nor a number, be it with a sign. -/
def symbols : List Char := ['(', ')', ',', '*', '=', '~', '!', '<', '>', '"', '\'']

theorem not_beginsWord_of_symbol (hu : u.toChar = c) (hc : c ∈ symbols) (text : Text) :
    ¬ BeginsWord (u :: text) := by
  have hplain : symbols.all (fun c => c != Char.ofNat 0 &&
      !CodeUnit.startsWord (UInt16.ofNat c.toNat) && !c.isDigit && c != '-' && c != '+') := by
    decide +kernel
  obtain ⟨⟨⟨⟨hnul, hstarts⟩, hdigit⟩, hminus⟩, hplus⟩ := by
    simpa using List.all_eq_true.mp hplain c hc
  have hcode := CodeUnit.eq_ofNat_of_toChar hu hnul
  have hother : u.isDigit = false := by rw [CodeUnit.isDigit, hu, hdigit]
  rintro (hword | hnumber | ⟨hsign | hsign, -⟩)
  · rw [hcode, hstarts] at hword
    cases hword
  · rw [hother] at hnumber
    cases hnumber
  · exact hminus (hu.symm.trans hsign)
  · exact hplus (hu.symm.trans hsign)

/-- A symbol is in order if it could not have been made longer. -/
theorem reads_symbol (more : Text) (hspace : u.isSpace = false) (hu : u.toChar = c) (hc : c ∈ symbols)
    (hkind : kind ≠ .endOfInput ∧ kind ≠ .string)
    (hlonger : ∀ second, (c, second) ∈ longerOperators → more = [] →
      ∀ v ∈ after.head?, v.toChar ≠ second) :
    Reads (verbatim kind (u :: more)) u (more ++ after) := by
  refine reads_verbatim more after hspace hkind
    (fun hword => absurd hword (not_beginsWord_of_symbol hu hc _)) ?_
  rintro _ second hmem rfl hmore
  exact hlonger second (hu ▸ hmem) hmore

theorem reads_operator (hspace : u.isSpace = false) (hu : u.toChar = c)
    (hc : c = '<' ∨ c = '>') (long short : ComparisonOp) (text : Text) :
    Reads (operator u text '=' (.comparison long) (.comparison short)) u text := by
  have hsymbol : c ∈ symbols := by
    obtain rfl | rfl := hc <;> decide
  -- the only longer operator ends in an equals sign
  have honly : ∀ second, (c, second) ∈ longerOperators → second = '=' := by
    obtain rfl | rfl := hc <;> simp [longerOperators]
  unfold operator
  split
  · rename_i v rest
    split
    · exact reads_symbol [v] hspace hu hsymbol ⟨nofun, nofun⟩ fun _ _ hnil => nomatch hnil
    · rename_i hv
      refine reads_symbol [] hspace hu hsymbol ⟨nofun, nofun⟩ ?_
      rintro second hmem - w hw
      obtain rfl : v = w := by simpa using hw
      rw [honly second hmem]
      simpa using hv
  · exact reads_symbol [] hspace hu hsymbol ⟨nofun, nofun⟩ fun _ _ _ _ hnone => nomatch hnone

theorem ofWord_proper (word : Text) :
    TokenKind.ofWord word ≠ .endOfInput ∧ TokenKind.ofWord word ≠ .string := by
  unfold TokenKind.ofWord
  dsimp only
  split
  · exact ⟨nofun, nofun⟩
  · split <;> exact ⟨nofun, nofun⟩

theorem numeric_eq (signed : Bool) (source : Text) :
    ∃ kind, numeric signed source = verbatim kind source ∧ kind ≠ .endOfInput ∧ kind ≠ .string := by
  unfold numeric
  split
  · exact ⟨.number, rfl, nofun, nofun⟩
  · cases signed
    · exact ⟨.identifier, rfl, nofun, nofun⟩
    · exact ⟨.illegal, rfl, nofun, nofun⟩

/-- Words and numbers are read as far as they go. -/
theorem reads_wordLike (hspace : u.isSpace = false)
    (hsymbol : ∀ first second, (first, second) ∈ longerOperators → u.toChar ≠ first)
    (text : Text) : Reads (wordLike u text) u text := by
  have hrun {kind : TokenKind} (hkind : kind ≠ .endOfInput ∧ kind ≠ .string) :
      Reads (verbatim kind (u :: text.takeWhile CodeUnit.isWordUnit)) u text := by
    have hreads := reads_verbatim (text.takeWhile CodeUnit.isWordUnit)
      (text.dropWhile CodeUnit.isWordUnit) hspace hkind ?_
      fun first second hmem hfirst => absurd hfirst (hsymbol first second hmem)
    · rwa [List.takeWhile_append_dropWhile] at hreads
    · intro _ v hv
      have hstop := List.head?_dropWhile_not CodeUnit.isWordUnit text
      rw [hv] at hstop
      exact hstop
  unfold wordLike
  dsimp only
  split
  · obtain ⟨kind, hnumeric, hkind⟩ := numeric_eq false (u :: text.takeWhile CodeUnit.isWordUnit)
    rw [hnumeric]
    exact hrun hkind
  · rename_i hdigit
    split
    · obtain ⟨kind, hnumeric, hkind⟩ := numeric_eq true (u :: text.takeWhile CodeUnit.isWordUnit)
      rw [hnumeric]
      exact hrun hkind
    · rename_i hsigned
      split
      · exact hrun (ofWord_proper _)
      · -- nothing that a word or a number could begin with
        rename_i hstarts
        refine reads_verbatim [] text hspace ⟨nofun, nofun⟩ ?_
          fun first second hmem hfirst => absurd hfirst (hsymbol first second hmem)
        rintro (hword | hnumber | ⟨hsign, v, hv, hsecond⟩)
        · exact absurd hword hstarts
        · exact absurd hnumber hdigit
        · refine absurd ?_ hsigned
          have hhead : text.head? = some v := hv
          simpa [startsWithDigit, hhead, hsecond] using hsign

theorem reads_string (hspace : u.isSpace = false) (hu : u.toChar = '"' ∨ u.toChar = '\'')
    (text : Text) :
    Reads ⟨.string, (stringBody u text).1, (stringBody u text).2⟩ u text := by
  obtain ⟨source, rest, rfl, hcount, hrest⟩ := quotedRest_stringBody u text
  have hsymbol : u.toChar ∈ symbols ∧ ∀ second, (u.toChar, second) ∉ longerOperators := by
    obtain hu | hu := hu <;> simp [hu, symbols, longerOperators]
  refine ⟨source, rest, rfl, hcount, fun pos => ?_⟩
  exact {
    starts := ⟨u, source, rfl, hspace⟩
    proper := nofun
    verbatim := fun hother => absurd rfl hother
    quoted := fun _ => ⟨u, source, rfl, hu, hrest⟩
    word := fun hword => absurd hword (not_beginsWord_of_symbol rfl hsymbol.1 _)
    operator := by
      intro first second hlonger hsource
      obtain ⟨rfl, -⟩ := List.cons.inj hsource
      exact absurd hlonger (hsymbol.2 second) }

/-- What is read behind a unit that is no space is a token in order. -/
theorem reads_scan (hspace : u.isSpace = false) (text : Text) : Reads (scan u text) u text := by
  have hshort {c : Char} {kind : TokenKind} (hu : u.toChar = c) (hc : c ∈ symbols)
      (hkind : kind ≠ .endOfInput ∧ kind ≠ .string)
      (honly : ∀ second, (c, second) ∉ longerOperators) :
      Reads (verbatim kind [u]) u text :=
    reads_symbol [] hspace hu hc hkind fun second hmem => absurd hmem (honly second)
  unfold scan
  split
  · exact hshort ‹_› (by decide) ⟨nofun, nofun⟩ (by simp [longerOperators])
  · exact hshort ‹_› (by decide) ⟨nofun, nofun⟩ (by simp [longerOperators])
  · exact hshort ‹_› (by decide) ⟨nofun, nofun⟩ (by simp [longerOperators])
  · exact hshort ‹_› (by decide) ⟨nofun, nofun⟩ (by simp [longerOperators])
  · exact hshort ‹_› (by decide) ⟨nofun, nofun⟩ (by simp [longerOperators])
  · exact hshort ‹_› (by decide) ⟨nofun, nofun⟩ (by simp [longerOperators])
  · -- an exclamation mark, of which two operators can be made
    rename_i hu
    split
    · rename_i v rest
      split
      · exact reads_symbol [v] hspace hu (by decide) ⟨nofun, nofun⟩
          fun _ _ hnil => nomatch hnil
      · exact reads_symbol [v] hspace hu (by decide) ⟨nofun, nofun⟩
          fun _ _ hnil => nomatch hnil
      · rename_i hequals htilde
        refine reads_symbol [] hspace hu (by decide) ⟨nofun, nofun⟩ ?_
        rintro second hmem - w hw
        obtain rfl : v = w := by simpa using hw
        obtain rfl | rfl : second = '=' ∨ second = '~' := by simpa [longerOperators] using hmem
        · exact hequals
        · exact htilde
    · exact reads_symbol [] hspace hu (by decide) ⟨nofun, nofun⟩
        fun _ _ _ _ hnone => nomatch hnone
  · exact reads_operator hspace ‹_› (.inl rfl) .le .lt text
  · exact reads_operator hspace ‹_› (.inr rfl) .ge .gt text
  · exact reads_string hspace (.inl ‹_›) text
  · exact reads_string hspace (.inr ‹_›) text
  · refine reads_wordLike hspace ?_ text
    rintro first second hmem rfl
    simp [longerOperators] at hmem
    simp_all

end Lexeme

/-! ## The tokens of a text -/

/-- The offset of the first unit of a token. -/
def startOf (l : Token × Nat) : Nat := l.1.pos - 1

/-- The offset behind the last unit of a token. -/
def stopOf (l : Token × Nat) : Nat := l.1.pos + l.2

/-- The units of a text from an offset on and before another one. -/
def Text.slice (text : Text) (start stop : Nat) : Text := (text.drop start).take (stop - start)

/-- The tokens cover a text whose first unit is at the place, spaces apart. -/
inductive Tiles : (pos : Nat) → Text → List (Token × Nat) → Prop
  | nil (pos : Nat) : Tiles pos [] []
  | space {pos : Nat} {u : CodeUnit} {rest : Text} {lexemes : List (Token × Nat)}
    (hspace : u.isSpace = true) (h : Tiles (pos + 1) rest lexemes) : Tiles pos (u :: rest) lexemes
  | token {t : Token} {further : Nat} {source rest : Text} {lexemes : List (Token × Nat)}
    (hlexed : Lexed t source rest) (hlength : source.length = further + 1)
    (h : Tiles (t.pos + source.length) rest lexemes) :
    Tiles t.pos (source ++ rest) ((t, further) :: lexemes)

theorem tiles_lexemesFrom (text : Text) (pos : Nat) : Tiles pos text (text.lexemesFrom 0 pos) := by
  -- induction on the length, as a token takes several units at once
  induction hlength : text.length using Nat.strongRecOn generalizing text pos with
  | ind n ih =>
    cases text with
    | nil => exact .nil pos
    | cons u rest =>
      rw [List.length_cons] at hlength
      rw [Text.lexemesFrom]
      split
      · rename_i hspace
        exact .space hspace (ih rest.length (by omega) rest (pos + 1) rfl)
      · rename_i hspace
        obtain ⟨more, after, rfl, hfurther, hlexed⟩ := Lexeme.reads_scan (by simpa using hspace) rest
        dsimp only
        rw [hfurther, Text.lexemesFrom_skip]
        rw [List.length_append] at hlength
        have hrest := ih after.length (by omega) after (pos + (u :: more).length) rfl
        have hplace : pos + 1 + more.length = pos + (u :: more).length := by
          rw [List.length_cons]
          omega
        rw [hplace]
        exact .token (hlexed pos) (List.length_cons ..) hrest

namespace Tiles

variable {pos : Nat} {text : Text} {lexemes : List (Token × Nat)}

/-- Each token is where it says it is, with a text in front of the tiles. -/
theorem lexed (h : Tiles pos text lexemes) (before : Text) (hpos : pos = before.length + 1) :
    ∀ l ∈ lexemes, before.length + 1 ≤ l.1.pos ∧ stopOf l ≤ (before ++ text).length ∧
      Lexed l.1 ((before ++ text).slice (startOf l) (stopOf l)) ((before ++ text).drop (stopOf l)) := by
  induction h generalizing before with
  | nil => simp
  | @space pos u rest lexemes hspace h ih =>
    intro l hl
    obtain ⟨hplace, hstop, hlexed⟩ := ih (before ++ [u]) (by simp [hpos]) l hl
    rw [List.append_assoc, List.singleton_append] at hstop hlexed
    rw [List.length_append] at hplace
    exact ⟨by omega, hstop, hlexed⟩
  | @token t further source rest lexemes hlexed hlength h ih =>
    intro l hl
    -- the first token lies right behind what is in front, the others lie behind it
    obtain rfl | hl := List.mem_cons.mp hl
    · have hstart : startOf (t, further) = before.length := by simp [startOf, hpos]
      have hstop : stopOf (t, further) = before.length + source.length := by
        simp only [stopOf, hpos, hlength]
        omega
      have hslice : (before ++ (source ++ rest)).slice before.length
          (before.length + source.length) = source := by
        rw [Text.slice, List.drop_left, Nat.add_sub_cancel_left, List.take_left]
      have hdrop : (before ++ (source ++ rest)).drop (before.length + source.length) = rest := by
        rw [← List.append_assoc, ← List.length_append, List.drop_left]
      rw [hstart, hstop, hslice, hdrop, List.length_append, List.length_append]
      exact ⟨Nat.le_of_eq hpos.symm, by omega, hlexed⟩
    · obtain ⟨hplace, hstop, hlexed⟩ :=
        ih (before ++ source) (by rw [List.length_append, hpos]; omega) l hl
      rw [List.append_assoc] at hstop hlexed
      rw [List.length_append] at hplace
      exact ⟨by omega, hstop, hlexed⟩

/-- Each token ends before the next one begins. -/
theorem pairwise (h : Tiles pos text lexemes) :
    lexemes.Pairwise fun l l' => stopOf l ≤ startOf l' := by
  induction h with
  | nil => exact .nil
  | space hspace h ih => exact ih
  | @token t further source rest lexemes hlexed hlength h ih =>
    refine List.pairwise_cons.mpr ⟨fun l hl => ?_, ih⟩
    -- what is in front of the tiles that follow does not matter, only how much it is
    have hplace := (h.lexed (List.replicate (t.pos + further) 0)
      (by rw [List.length_replicate, hlength, Nat.add_assoc]) l hl).1
    rw [List.length_replicate] at hplace
    simp only [stopOf, startOf]
    omega

/-- A unit that no token covers is a space. -/
theorem isSpace (h : Tiles pos text lexemes) (before : Text) (hpos : pos = before.length + 1)
    {i : Nat} {u : CodeUnit} (hi : before.length ≤ i) (hu : (before ++ text)[i]? = some u) :
    u.isSpace = true ∨ ∃ l ∈ lexemes, startOf l ≤ i ∧ i < stopOf l := by
  -- a place lies in the first tile, or behind it
  induction h generalizing before with
  | nil =>
    rw [List.append_nil, List.getElem?_eq_none hi] at hu
    cases hu
  | @space pos v rest lexemes hspace h ih =>
    by_cases hfirst : i = before.length
    · rw [hfirst, List.getElem?_append_right (Nat.le_refl _), Nat.sub_self] at hu
      obtain rfl : v = u := Option.some.inj hu
      exact .inl hspace
    · refine ih (before ++ [v]) (by simp [hpos]) ?_ (by simpa using hu)
      rw [List.length_append, List.length_singleton]
      omega
  | @token t further source rest lexemes hlexed hlength h ih =>
    by_cases hinside : i < before.length + source.length
    · refine .inr ⟨(t, further), List.mem_cons_self, ?_⟩
      simp only [startOf, stopOf]
      omega
    · obtain hspace | ⟨l, hl, hcovers⟩ := ih (before ++ source)
        (by rw [List.length_append, hpos]; omega) (by rw [List.length_append]; omega)
        (by simpa using hu)
      · exact .inl hspace
      · exact .inr ⟨l, List.mem_cons_of_mem _ hl, hcovers⟩

end Tiles

/-! ## One call after the other -/

namespace Text

/-- The token that is next when `offset` units have been read, and how many have been read then. At
the end of the text it is the end of the input. -/
def nextToken (text : Text) (offset : Nat) : Token × Nat :=
  let start := offset + ((text.drop offset).takeWhile CodeUnit.isSpace).length
  match text.drop start with
  | [] => (⟨.endOfInput, [], start + 1⟩, start)
  | u :: rest =>
    let lexeme := Lexeme.scan u rest
    (⟨lexeme.kind, lexeme.literal, start + 1⟩, start + 1 + lexeme.further)

/-- The tokens that a number of calls give when `offset` units have been read. -/
def calls (text : Text) : (count offset : Nat) → List Token
  | 0, _ => []
  | count + 1, offset =>
    let (t, offset) := text.nextToken offset
    t :: calls text count offset

theorem lexemesFrom_spaces {spaces : Text} (hspaces : ∀ u ∈ spaces, u.isSpace = true) (rest : Text)
    (pos : Nat) : lexemesFrom (spaces ++ rest) 0 pos = lexemesFrom rest 0 (pos + spaces.length) := by
  induction spaces generalizing pos with
  | nil => rfl
  | cons u spaces ih =>
    rw [List.cons_append, lexemesFrom, if_pos (hspaces u List.mem_cons_self),
      ih fun v hv => hspaces v (List.mem_cons_of_mem _ hv)]
    simp only [List.length_cons]
    congr 1
    omega

/-- The calls give the tokens that are left, and then the end of the input for ever. -/
theorem calls_eq (before rest : Text) (count : Nat) :
    let text := before ++ rest
    let left := (rest.lexemesFrom 0 (before.length + 1)).map Prod.fst ++ [text.endToken]
    text.calls count before.length =
      left.take count ++ List.replicate (count - left.length) text.endToken := by
  intro text left
  induction count generalizing before rest with
  | zero => simp [calls]
  | succ count ih =>
    -- the spaces in front of the next token are passed over
    obtain ⟨spaces, tail, hrest, hspaces, htail⟩ : ∃ spaces tail, rest = spaces ++ tail ∧
        rest.takeWhile CodeUnit.isSpace = spaces ∧ rest.dropWhile CodeUnit.isSpace = tail :=
      ⟨_, _, List.takeWhile_append_dropWhile.symm, rfl, rfl⟩
    have hall : ∀ u ∈ spaces, u.isSpace = true :=
      hspaces ▸ List.all_eq_true.mp List.all_takeWhile
    have htext : text = (before ++ spaces) ++ tail := by
      rw [List.append_assoc, ← hrest]
    have hstart : before.length + ((text.drop before.length).takeWhile CodeUnit.isSpace).length =
        (before ++ spaces).length := by
      rw [List.drop_left, hspaces, List.length_append]
    have hleft : left = (tail.lexemesFrom 0 ((before ++ spaces).length + 1)).map Prod.fst ++
        [text.endToken] := by
      show (rest.lexemesFrom 0 (before.length + 1)).map Prod.fst ++ [text.endToken] = _
      rw [hrest, lexemesFrom_spaces hall, List.length_append, Nat.add_right_comm]
    have hnext : text.drop (before ++ spaces).length = tail := by rw [htext, List.drop_left]
    rw [calls, nextToken, hstart, hnext]
    cases tail with
    | nil =>
      -- the end of the input, and all that follows is the end again
      have hend : text.endToken = ⟨.endOfInput, [], (before ++ spaces).length + 1⟩ := by
        rw [htext, List.append_nil]
        rfl
      have hlater := ih (before ++ spaces) []
      rw [← htext] at hlater
      simp only [lexemesFrom, List.map_nil, List.nil_append] at hleft hlater
      rw [hleft, ← hend]
      dsimp only
      rw [hlater]
      cases count <;> simp [List.replicate_succ]
    | cons u tail =>
      have hspace : u.isSpace = false := by
        have hstop := List.head?_dropWhile_not CodeUnit.isSpace rest
        rw [htail] at hstop
        exact hstop
      obtain ⟨more, after, rfl, hfurther, -⟩ := Lexeme.reads_scan hspace tail
      have hplace : (before ++ spaces ++ u :: more).length =
          (before ++ spaces).length + 1 + more.length := by
        simp only [List.length_append, List.length_cons]
        omega
      have hlater := ih (before ++ spaces ++ u :: more) after
      have htext' : before ++ spaces ++ u :: more ++ after = text := by
        rw [htext, List.append_assoc, List.cons_append]
      rw [htext', hplace] at hlater
      rw [hleft, lexemesFrom, hspace]
      dsimp only
      rw [hfurther, lexemesFrom_skip, hlater,
        Nat.add_right_comm ((before ++ spaces).length + 1) 1 more.length]
      simp

end Text

/-- Where the tokens of a text are. Asking for one token after the other gives them, with one end of
the input behind them that comes again and again. Each of them has at least one unit, and ends before
the next one begins; every unit that belongs to none is a space. The source of a token begins at its
place, and it is its literal, or it is a string that stands for its literal; it goes on as long as it
can. -/
theorem Text.tokens_tile (text : Text) :
    (∀ count, text.calls count 0 =
      text.tokens.take count ++ List.replicate (count - text.tokens.length) text.endToken) ∧
    text.tokens = text.lexemes.map Prod.fst ++ [⟨.endOfInput, [], text.length + 1⟩] ∧
    text.lexemes.Pairwise (fun l l' => l.1.pos < l'.1.pos ∧ stopOf l ≤ startOf l') ∧
    (∀ l ∈ text.lexemes, startOf l + 1 = l.1.pos ∧ startOf l < stopOf l ∧ stopOf l ≤ text.length ∧
      Lexed l.1 (text.slice (startOf l) (stopOf l)) (text.drop (stopOf l))) ∧
    ∀ i u, text[i]? = some u →
      u.isSpace = true ∨ ∃ l ∈ text.lexemes, startOf l ≤ i ∧ i < stopOf l := by
  have htiles : Tiles 1 text text.lexemes := tiles_lexemesFrom text 1
  have hlexed := htiles.lexed [] rfl
  refine ⟨Text.calls_eq [] text, rfl, ?_, fun l hl => ?_, fun i u hu => ?_⟩
  · refine htiles.pairwise.imp_of_mem fun {l l'} hl hl' hstop => ⟨?_, hstop⟩
    obtain ⟨hplace, -⟩ := hlexed l' hl'
    simp only [startOf, stopOf] at hstop
    omega
  · obtain ⟨hplace, hstop, hsource⟩ := hlexed l hl
    simp only [startOf, stopOf, List.length_nil, List.nil_append] at hplace hstop hsource ⊢
    exact ⟨by omega, by omega, hstop, hsource⟩
  · exact htiles.isSpace [] rfl (Nat.zero_le i) hu

end IssueQuery
