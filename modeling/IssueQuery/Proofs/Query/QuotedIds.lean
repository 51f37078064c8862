import IssueQuery.Proofs.Query.ParserCorrect
import IssueQuery.Proofs.Query.FixedText
import IssueQuery.Query.OfIds

/-!
# Queries for given issues, read back

The query for given identifiers quotes them, and the scanner takes the quotes off again. The two do
not know the same escapes: quoting also writes `\b`, `\f` and `\u001f`, of which the scanner drops
the backslash alone. So the query is always one that parses and makes sense, and it asks for the
identifiers exactly if none of them has a character of those.

* `Text.readBack`         what becomes of a text that is quoted and scanned;
* `stringBody_quoted`     the scanner makes just that of it;
* `Text.readBack_eq_self` the texts that come back as they were;
* `idQuery_selects`       what the query for given identifiers selects.
-/

namespace IssueQuery

open Grammar

namespace Text

/-- What the scanner makes of a quoted unit that is not part of a surrogate pair. It resolves the
escapes of quotes, backslashes, tabs and line ends; of any other escape it drops the backslash. -/
def readBackUnit (u : CodeUnit) : Text :=
  match u.toChar with
  | '\x08' => "b"
  | '\x0c' => "f"
  | '\t' | '\n' | '\r' => [u]
  | _ => if u.toNat < 0x20 || u.isSurrogate then (numericEscape u).tail else [u]

/-- What the scanner makes of a quoted text. -/
def readBack : Text → Text
  | [] => []
  | [u] => readBackUnit u
  | u :: v :: rest =>
    if u.isHighSurrogate && v.isLowSurrogate then u :: v :: readBack rest
    else readBackUnit u ++ readBack (v :: rest)

/-- A code point that is no control character other than a tab or a line end, and no surrogate. -/
def IsClean (n : Nat) : Prop :=
  (0x20 ≤ n ∨ n = 0x09 ∨ n = 0x0A ∨ n = 0x0D) ∧ ¬ (0xD800 ≤ n ∧ n < 0xE000)

instance (n : Nat) : Decidable (IsClean n) := inferInstanceAs (Decidable (_ ∧ _))

/-- No control character but tabs and line ends, and no lone surrogate. -/
def Clean (text : Text) : Prop := ∀ n ∈ text.codePoints, IsClean n

end Text

/-! ## Scanning what was quoted -/

namespace Lexeme

/-- A double quote. -/
def doubleQuote : CodeUnit := 0x22

/-- The text and the number of units with more in front. -/
def InFront (text : Text) (count : Nat) (body : Text × Nat) : Text × Nat :=
  (text ++ body.1, count + body.2)

theorem stringBody_close (rest : Text) :
    stringBody doubleQuote (doubleQuote :: rest) = ([], 1) := by
  cases rest <;> simp [stringBody]

/-- A unit that is no quote and no backslash stands for itself. -/
theorem stringBody_plain {u v : CodeUnit} (hquote : u ≠ doubleQuote) (hslash : u.toChar ≠ '\\')
    (rest : Text) :
    stringBody doubleQuote (u :: v :: rest) =
      InFront [u] 1 (stringBody doubleQuote (v :: rest)) := by
  simp [stringBody, hquote, hslash, InFront, Nat.add_comm]

/-- A backslash and the unit after it. -/
theorem stringBody_escape (v : CodeUnit) (rest : Text) :
    stringBody doubleQuote (0x5C :: v :: rest) =
      InFront [v.unescaped] 2 (stringBody doubleQuote rest) := by
  have hslash : CodeUnit.toChar 0x5C = '\\' := by decide
  have hquote : (0x5C : CodeUnit) ≠ doubleQuote := by decide
  simp [stringBody, hquote, hslash, InFront, Nat.add_comm]

theorem inFront_inFront (text text' : Text) (count count' : Nat) (body : Text × Nat) :
    InFront text count (InFront text' count' body) =
      InFront (text ++ text') (count + count') body := by
  simp [InFront, Nat.add_assoc]

theorem hexDigit_plain : ∀ n < 16,
    Text.hexDigit n ≠ doubleQuote ∧ (Text.hexDigit n).toChar ≠ '\\' := by
  decide

/-- Of an escape with a number only the backslash goes. -/
theorem stringBody_numericEscape (u v : CodeUnit) (rest : Text) :
    stringBody doubleQuote (Text.numericEscape u ++ v :: rest) =
      InFront (Text.numericEscape u).tail (Text.numericEscape u).length
        (stringBody doubleQuote (v :: rest)) := by
  have hbound : u.toNat < 65536 := u.toNat_lt
  obtain ⟨hquote₁, hslash₁⟩ := hexDigit_plain (u.toNat / 0x1000) (by omega)
  obtain ⟨hquote₂, hslash₂⟩ := hexDigit_plain (u.toNat / 0x100 % 0x10) (by omega)
  obtain ⟨hquote₃, hslash₃⟩ := hexDigit_plain (u.toNat / 0x10 % 0x10) (by omega)
  obtain ⟨hquote₄, hslash₄⟩ := hexDigit_plain (u.toNat % 0x10) (by omega)
  show stringBody doubleQuote (0x5C :: 0x75 :: _ :: _ :: _ :: _ :: v :: rest) = _
  rw [stringBody_escape, stringBody_plain hquote₁ hslash₁, stringBody_plain hquote₂ hslash₂,
    stringBody_plain hquote₃ hslash₃, stringBody_plain hquote₄ hslash₄]
  simp only [inFront_inFront]
  rfl

/-- The scanner reads a quoted unit back. -/
theorem stringBody_quotedUnit (u v : CodeUnit) (rest : Text) :
    stringBody doubleQuote (Text.quotedUnit u ++ v :: rest) =
      InFront (Text.readBackUnit u) (Text.quotedUnit u).length
        (stringBody doubleQuote (v :: rest)) := by
  have hcode {c : Char} (h : u.toChar = c) (hc : c ≠ Char.ofNat 0) : u = UInt16.ofNat c.toNat :=
    CodeUnit.eq_ofNat_of_toChar h hc
  by_cases hescaped : u.toChar ∈ ['"', '\\', '\x08', '\t', '\n', '\x0c', '\r']
  · -- an escape of two units, the second of which is resolved or stands for itself
    simp only [List.mem_cons, List.not_mem_nil, or_false] at hescaped
    obtain h | h | h | h | h | h | h := hescaped <;>
      rw [hcode h (by decide)] <;> exact stringBody_escape _ _
  · simp only [List.mem_cons, List.not_mem_nil, or_false, not_or] at hescaped
    obtain ⟨hquote, hslash, hb, ht, hn, hf, hr⟩ := hescaped
    have hquoted : Text.quotedUnit u =
        if u.toNat < 0x20 || u.isSurrogate then Text.numericEscape u else [u] := by
      unfold Text.quotedUnit
      split <;> first | contradiction | rfl
    have hread : Text.readBackUnit u =
        if u.toNat < 0x20 || u.isSurrogate then (Text.numericEscape u).tail else [u] := by
      unfold Text.readBackUnit
      split <;> first | contradiction | rfl
    rw [hquoted, hread]
    by_cases hnumeric : (u.toNat < 0x20 || u.isSurrogate) = true
    · simp only [hnumeric, if_true]
      exact stringBody_numericEscape u v rest
    · simp only [hnumeric]
      refine stringBody_plain (fun heq => hquote ?_) hslash rest
      rw [heq]
      decide

/-- The scanner reads a quoted text back, and takes the closing quote with it. -/
theorem stringBody_quoted (text rest : Text) :
    stringBody doubleQuote (text.quotedBody ++ doubleQuote :: rest) =
      (text.readBack, text.quotedBody.length + 1) := by
  -- behind the text there is at least the closing quote
  have hbehind (text : Text) : ∃ v more, text.quotedBody ++ doubleQuote :: rest = v :: more :=
    List.exists_cons_of_ne_nil (by simp)
  induction text using Text.quotedBody.induct with
  | case1 => exact stringBody_close rest
  | case2 u =>
    rw [Text.quotedBody, stringBody_quotedUnit, stringBody_close]
    simp [InFront, Text.readBack]
  | case3 u v tail hpair ih =>
    -- both halves of a pair stand for themselves
    have hplain {w : CodeUnit} (hw : 0xD800 ≤ w.toNat) : w ≠ doubleQuote ∧ w.toChar ≠ '\\' := by
      constructor
      · rintro rfl
        exact absurd hw (by decide)
      · intro heq
        rw [CodeUnit.eq_ofNat_of_toChar heq (by decide)] at hw
        exact absurd hw (by decide)
    have hsurrogates : 0xD800 ≤ u.toNat ∧ 0xD800 ≤ v.toNat := by
      simp [CodeUnit.isHighSurrogate, CodeUnit.isLowSurrogate] at hpair
      omega
    obtain ⟨w, more, hmore⟩ := hbehind tail
    rw [Text.quotedBody, if_pos hpair, Text.readBack, if_pos hpair, List.cons_append,
      List.cons_append, stringBody_plain (hplain hsurrogates.1).1 (hplain hsurrogates.1).2, hmore,
      stringBody_plain (hplain hsurrogates.2).1 (hplain hsurrogates.2).2, ← hmore, ih]
    simp [InFront]
    omega
  | case4 u v tail hpair ih =>
    obtain ⟨w, more, hmore⟩ := hbehind (v :: tail)
    rw [Text.quotedBody, if_neg hpair, Text.readBack, if_neg hpair, List.append_assoc, hmore,
      stringBody_quotedUnit, ← hmore, ih]
    simp [InFront, Nat.add_assoc]

end Lexeme

namespace Text

/-! ## The tokens of the query -/

/-- A quoted text is one token, which stands for what is read back. -/
theorem lexemesFrom_quoted (text rest : Text) (pos : Nat) :
    lexemesFrom (text.quoted ++ rest) 0 pos =
      (⟨.string, text.readBack, pos⟩, text.quotedBody.length + 1) ::
        lexemesFrom rest 0 (pos + text.quoted.length) := by
  -- the scan of a string reads the body back; the quotes are its first and its last unit
  have hbody := Lexeme.stringBody_quoted text rest
  have hskip := lexemesFrom_skip (text.quotedBody ++ [Lexeme.doubleQuote]) rest (pos + 1)
  rw [List.append_assoc, List.singleton_append, List.length_append, List.length_singleton] at hskip
  have hsource : text.quoted ++ rest =
      Lexeme.doubleQuote :: (text.quotedBody ++ Lexeme.doubleQuote :: rest) := by
    show ([_] ++ text.quotedBody ++ [_]) ++ rest = _
    simp only [List.append_assoc, List.cons_append, List.nil_append]
    rfl
  have hlength : text.quoted.length = text.quotedBody.length + 2 := by
    show ([_] ++ text.quotedBody ++ [_]).length = _
    simp
  have hscan : Lexeme.scan Lexeme.doubleQuote (text.quotedBody ++ Lexeme.doubleQuote :: rest) =
      ⟨.string, text.readBack, text.quotedBody.length + 1⟩ := by
    have hscan : ∀ rest, Lexeme.scan Lexeme.doubleQuote rest =
        ⟨.string, (Lexeme.stringBody Lexeme.doubleQuote rest).1,
          (Lexeme.stringBody Lexeme.doubleQuote rest).2⟩ := fun _ => rfl
    rw [hscan, hbody]
  have hspace : Lexeme.doubleQuote.isSpace = false := by decide
  rw [hsource, lexemesFrom, hspace, hscan]
  simp only [Bool.false_eq_true, if_false, hskip, hlength]
  -- the positions behind the string agree
  congr 2
  omega

theorem join_cons (separator first : Text) (more : List Text) :
    join separator (first :: more) = first ++ more.flatMap fun text => separator ++ text := by
  induction more generalizing first with
  | nil => simp [join]
  | cons second rest ih =>
    have hrest := ih second
    simp only [join, List.intersperse_cons_cons, List.flatten_cons, List.flatMap_cons,
      List.append_assoc] at hrest ⊢
    rw [hrest]

end Text

/-- The value that a quoted text is read as. -/
def Value.ofQuoted (text : Text) : Value := Parser.stringValue text.readBack

theorem Value.text_ofQuoted (text : Text) : (ofQuoted text).text = text.readBack := by
  unfold ofQuoted Parser.stringValue
  split <;> rfl

/-- What follows the first identifier of a list. -/
def furtherIds (more : List Text) : Text :=
  ((more.map Text.quoted).flatMap fun text => Text.ofString ", " ++ text) ++ Text.ofString ")"

theorem many_furtherIds (more : List Text) (pos : Nat) :
    ∃ ts close, ((furtherIds more).lexemesFrom 0 pos).map Prod.fst = ts ++ [close] ∧
      Many .comma IsValue ts (more.map Value.ofQuoted) ∧ close.kind = .rightParen := by
  induction more generalizing pos with
  | nil => exact ⟨[], ⟨.rightParen, ")", pos⟩, rfl, .nil, rfl⟩
  | cons id rest ih =>
    obtain ⟨ts, close, htokens, hmany, hclose⟩ := ih (pos + 2 + id.quoted.length)
    have hcomma (text : Text) : Text.lexemesFrom (", " ++ text) 0 pos =
        (⟨.comma, ",", pos⟩, 0) :: text.lexemesFrom 0 (pos + 2) := rfl
    have hsource : furtherIds (id :: rest) = ", " ++ (id.quoted ++ furtherIds rest) := by
      simp [furtherIds]
    refine ⟨⟨.comma, ",", pos⟩ :: ([⟨.string, id.readBack, pos + 2⟩] ++ ts), close, ?_,
      .cons rfl (.string rfl) hmany, hclose⟩
    rw [hsource, hcomma, Text.lexemesFrom_quoted, List.map_cons, List.map_cons, htokens]
    rfl

/-- The leaf that the query for given identifiers is read as. -/
def Leaf.ofIds : List Text → Leaf
  | [id] => .compare "id" .eq (.ofQuoted id)
  | ids => .oneOf "id" (ids.map .ofQuoted) false

theorem comparison_idQuery (first : Text) (more : List Text) :
    Comparison (idQuery (first :: more)).properTokens (.ofIds (first :: more)) := by
  -- one id is compared with, and several are a list
  cases more with
  | nil =>
    have hfront (text : Text) : Text.lexemesFrom ("id = " ++ text) 0 1 =
        (⟨.identifier, "id", 1⟩, 1) :: (⟨.comparison .eq, "=", 4⟩, 0) ::
          text.lexemesFrom 0 6 := rfl
    have htokens : (idQuery [first]).properTokens =
        [⟨.identifier, "id", 1⟩, ⟨.comparison .eq, "=", 4⟩, ⟨.string, first.readBack, 6⟩] := by
      have hquoted := Text.lexemesFrom_quoted first [] 6
      rw [List.append_nil] at hquoted
      rw [Text.properTokens, Text.lexemes, idQuery, hfront, hquoted]
      rfl
    rw [htokens]
    exact .compare rfl rfl (.string rfl)
  | cons second rest =>
    have hfront (text : Text) : Text.lexemesFrom ("id in (" ++ text) 0 1 =
        (⟨.identifier, "id", 1⟩, 1) :: (⟨.keyword .inList, "in", 4⟩, 1) ::
          (⟨.leftParen, "(", 7⟩, 0) :: text.lexemesFrom 0 8 := rfl
    obtain ⟨ts, close, htokens, hmany, hclose⟩ :=
      many_furtherIds (second :: rest) (8 + first.quoted.length)
    have hsource : idQuery (first :: second :: rest) =
        "id in (" ++ (first.quoted ++ furtherIds (second :: rest)) := by
      show "id in (" ++ Text.join ", " _ ++ ")" = _
      rw [List.map_cons, Text.join_cons, furtherIds]
      simp only [List.append_assoc]
    have hall : (idQuery (first :: second :: rest)).properTokens =
        ⟨.identifier, "id", 1⟩ :: ⟨.keyword .inList, "in", 4⟩ :: ⟨.leftParen, "(", 7⟩ ::
          (([⟨.string, first.readBack, 8⟩] ++ ts) ++ [close]) := by
      rw [Text.properTokens, Text.lexemes, hsource, hfront, Text.lexemesFrom_quoted]
      simp only [List.map_cons, htokens]
      rfl
    rw [hall]
    exact .oneOf rfl rfl (.intro rfl (.intro (.string rfl) hmany) hclose)

theorem parse_idQuery (first : Text) (more : List Text) :
    Query.parse (idQuery (first :: more)) =
      .ok ⟨some (.leaf (.ofIds (first :: more))), none, []⟩ := by
  have hderives : Derives (idQuery (first :: more)).properTokens
      ⟨some (.leaf (.ofIds (first :: more))), none, []⟩ := by
    have hexpression : Expression (((idQuery (first :: more)).properTokens ++ []) ++ [])
        (.leaf (.ofIds (first :: more))) :=
      .intro (.intro (.comparison (comparison_idQuery first more)) .nil) .nil
    have hquery := Derives.intro (.present hexpression) .missing .missing
    simpa using hquery
  rw [Query.parse, Parser.query_complete hderives]
  rfl

/-! ## Which texts come back -/

namespace Text

/-- A unit other than a backspace or a form feed is escaped by its number unless it is clean. -/
theorem isClean_iff {u : CodeUnit} :
    IsClean u.toNat ↔ u.toChar = '\t' ∨ u.toChar = '\n' ∨ u.toChar = '\r' ∨
      (u.toNat < 0x20 || u.isSurrogate) = false := by
  have hcode {c : Char} (h : u.toChar = c) (hc : c ≠ Char.ofNat 0) : u.toNat = c.toNat % 2 ^ 16 := by
    rw [CodeUnit.eq_ofNat_of_toChar h hc]
    exact UInt16.toNat_ofNat'
  constructor
  · rintro ⟨hvisible | htab | hfeed | hreturn, hsurrogate⟩
    · refine .inr (.inr (.inr ?_))
      simp [CodeUnit.isSurrogate]
      omega
    · exact .inl (by rw [CodeUnit.toChar, htab])
    · exact .inr (.inl (by rw [CodeUnit.toChar, hfeed]))
    · exact .inr (.inr (.inl (by rw [CodeUnit.toChar, hreturn])))
  · -- the three controls that are written as they are, and everything else above them
    rintro (h | h | h | h)
    · rw [hcode h (by decide)]
      decide
    · rw [hcode h (by decide)]
      decide
    · rw [hcode h (by decide)]
      decide
    · simp [CodeUnit.isSurrogate] at h
      unfold IsClean
      omega

theorem readBackUnit_of_clean {u : CodeUnit} (h : IsClean u.toNat) : readBackUnit u = [u] := by
  have hcontrol {c : Char} (hchar : u.toChar = c) (hc : c ≠ Char.ofNat 0)
      (hclean : ¬ IsClean (UInt16.ofNat c.toNat).toNat) : False :=
    hclean (CodeUnit.eq_ofNat_of_toChar hchar hc ▸ h)
  unfold readBackUnit
  split
  · exact (hcontrol ‹_› (by decide) (by decide)).elim
  · exact (hcontrol ‹_› (by decide) (by decide)).elim
  · rfl
  · rfl
  · rfl
  · obtain htab | hfeed | hreturn | hplain := isClean_iff.mp h
    · contradiction
    · contradiction
    · contradiction
    · simp [hplain]

/-- Of any other unit the first that comes back is another one. -/
theorem readBackUnit_of_not_clean {u : CodeUnit} (h : ¬ IsClean u.toNat) :
    ∃ v rest, v ≠ u ∧ readBackUnit u = v :: rest := by
  have hescaped : (u.toNat < 0x20 || u.isSurrogate) = true := by
    by_contra hplain
    exact h (isClean_iff.mpr (.inr (.inr (.inr (Bool.eq_false_iff.mpr hplain)))))
  unfold readBackUnit
  split
  · rename_i hchar
    exact ⟨0x62, [], by rw [CodeUnit.eq_ofNat_of_toChar hchar (by decide)]; decide, rfl⟩
  · rename_i hchar
    exact ⟨0x66, [], by rw [CodeUnit.eq_ofNat_of_toChar hchar (by decide)]; decide, rfl⟩
  · exact absurd (isClean_iff.mpr (.inl ‹_›)) h
  · exact absurd (isClean_iff.mpr (.inr (.inl ‹_›))) h
  · exact absurd (isClean_iff.mpr (.inr (.inr (.inl ‹_›)))) h
  · -- an escape by number starts with `u`, which is clean
    rw [if_pos hescaped]
    exact ⟨0x75, _, fun heq => h (heq ▸ by decide), rfl⟩

/-- Exactly the clean texts come back as they were. -/
theorem readBack_eq_self {text : Text} : text.readBack = text ↔ text.Clean := by
  -- a unit that does not come back as itself shows in the first place where the texts differ
  have hfront {u : CodeUnit} {back rest : Text} :
      readBackUnit u ++ back = u :: rest ↔ IsClean u.toNat ∧ back = rest := by
    by_cases h : IsClean u.toNat
    · simp [readBackUnit_of_clean h, h]
    · obtain ⟨v, more, hne, hback⟩ := readBackUnit_of_not_clean h
      simp [hback, h, hne]
  induction text using readBack.induct with
  | case1 => simp [readBack, Clean, codePoints]
  | case2 u =>
    have hone : readBackUnit u ++ [] = [u] ↔ IsClean u.toNat ∧ [] = [] := hfront
    rw [List.append_nil] at hone
    simp [readBack, Clean, codePoints, hone]
  | case3 u v rest hpair ih =>
    have hvalue : IsClean (CodeUnit.pairValue u v) := by
      unfold IsClean CodeUnit.pairValue
      omega
    simp only [readBack, if_pos hpair, List.cons.injEq, true_and, ih, Clean, codePoints,
      List.forall_mem_cons, hvalue]
  | case4 u v rest hpair ih =>
    simp only [readBack, if_neg hpair, hfront, ih, Clean, codePoints, List.forall_mem_cons]

end Text

/-! ## What the query selects -/

theorem check_ofIds (ids : List Text) : (Leaf.ofIds ids).check = .ok () := by
  have hlist (values : List Value) : values.forM (Field.checkValue .id) = .ok () := by
    induction values with
    | nil => rfl
    | cons v rest ih => exact ih
  unfold Leaf.ofIds
  split
  · rfl
  · exact hlist _

/-- A query for one or more identifiers always parses, makes sense, and asks for issues whose
identifier is what is read back of one of them. These are exactly the given ones if and only if none
of them has a control character other than tabs and line ends, or a lone surrogate. -/
theorem idQuery_selects (first : Text) (more : List Text) :
    let ids := first :: more
    ∃ q s, Query.parse (idQuery ids) = .ok q ∧ q.check = .ok () ∧ q.select = .ok s ∧
      s.whereText =
        (if more = [] then "i.id = ?" else "i.id IN (" ++ Sql.placeholders ids.length ++ ")") ∧
      s.params = ids.map (fun id => .text id.readBack) ∧
      (s.params = ids.map Sql.Param.text ↔ ∀ id ∈ ids, id.Clean) := by
  dsimp only
  have hcheck : Query.check ⟨some (.leaf (.ofIds (first :: more))), none, []⟩ = .ok () := by
    show (do let _ ← (do let _ ← (Leaf.ofIds (first :: more)).check; pure ()); _) = _
    rw [check_ofIds]
    rfl
  -- one id becomes a comparison and several a list, with one parameter each
  obtain ⟨s, hselect, hwhere, hparams⟩ : ∃ s : Selection,
      Query.select ⟨some (.leaf (.ofIds (first :: more))), none, []⟩ = .ok s ∧
      s.whereText = (if more = [] then "i.id = ?"
        else "i.id IN (" ++ Sql.placeholders (first :: more).length ++ ")") ∧
      s.params = (first :: more).map fun id => .text id.readBack := by
    cases more with
    | nil =>
      refine ⟨⟨some (.compare "i.id" .eq (.text (Value.ofQuoted first).text)), []⟩, rfl, rfl, ?_⟩
      simp [Selection.params, Sql.Condition.params, Value.text_ofQuoted]
    | cons second rest =>
      let values := (first :: second :: rest).map Value.ofQuoted
      refine ⟨⟨some (.oneOf "i.id" false (values.map (Field.bind .id))), []⟩, rfl, ?_, ?_⟩
      · simp [Selection.whereText, Sql.Condition.render, Sql.membership, values]
      · have hbind (v : Value) : Field.bind .id v = .text v.text := rfl
        simp [Selection.params, Sql.Condition.params, values, hbind, Value.text_ofQuoted]
  refine ⟨_, s, parse_idQuery first more, hcheck, hselect, hwhere, hparams, ?_⟩
  rw [hparams, List.map_inj_left]
  -- a parameter is the id itself if quoting loses nothing of it
  simp only [Sql.Param.text.injEq, Text.readBack_eq_self]

/-- The query for an issue whose identifier is a backspace asks for another one. -/
theorem idQuery_misses_backspace :
    ¬ ∀ (first : Text) (more : List Text), ∃ q s,
      Query.parse (idQuery (first :: more)) = .ok q ∧ q.check = .ok () ∧ q.select = .ok s ∧
      s.params = (first :: more).map Sql.Param.text := by
  intro hall
  obtain ⟨q, s, hparse, -, hselect, hparams⟩ := hall [0x08] []
  have hq : q = ⟨some (.leaf (.compare "id" .eq (.string "b" "b"))), none, []⟩ := by
    rw [parse_idQuery] at hparse
    exact (Except.ok.inj hparse).symm
  have hs : s = ⟨some (.compare "i.id" .eq (.text "b")), []⟩ := by
    rw [hq] at hselect
    exact (Except.ok.inj hselect).symm
  rw [hs] at hparams
  exact absurd hparams (by decide)

end IssueQuery
