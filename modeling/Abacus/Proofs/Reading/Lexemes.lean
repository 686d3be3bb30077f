import Abacus.Proofs.Decimal.Written
import Abacus.Proofs.Reading.Items

/-!
# Texts and their lexemes

`Lexes text lexemes` says how a text is cut, without places in it: blanks are dropped, and at each
place the longest lexeme is taken.  A lexer follows it (`tokenize_of_lexes`), so for a text that is
put together from pieces it is enough to say what each piece is cut into.  A piece can be put before
another one if its last lexeme cannot grow: `Lexes.number`, `Lexes.ident` and `Lexes.symbol`.
-/

namespace Abacus

/-- The kind and the characters of a token. -/
abbrev Lexeme := TokenKind × List Char

/-- What a token is apart from its place. -/
def Token.lexeme (token : Token) : Lexeme := (token.kind, token.text.toList)

/-- The text is cut into these lexemes. -/
inductive Lexes : List Char → List Lexeme → Prop
  | finish {cs : List Char} (h : cs.dropWhile isSeparator = []) : Lexes cs []
  | lexeme {cs text : List Char} {kind : TokenKind} {lexemes : List Lexeme}
      (h : lexeme? (cs.dropWhile isSeparator) = some (kind, text))
      (rest : Lexes ((cs.dropWhile isSeparator).drop text.length) lexemes) :
      Lexes cs ((kind, text) :: lexemes)

/-! ## A lexer follows the lexemes -/

theorem Lexer.Gives.unique {lexer : Lexer} {items items' : List Lexed} (h : lexer.Gives items)
    (h' : lexer.Gives items') : items = items' := by
  induction h generalizing items' with
  | nil hnext =>
    cases h' with
    | nil _ => rfl
    | cons hnext' _ => simp [hnext] at hnext'
  | cons hnext _ ih =>
    cases h' with
    | nil hnext' => simp [hnext] at hnext'
    | cons hnext' rest' =>
      obtain ⟨rfl, rfl⟩ : _ ∧ _ := by simpa using hnext.symm.trans hnext'
      rw [ih rest']

theorem Cursor.skipSeparators_rest (cursor : Cursor) :
    cursor.skipSeparators.rest = cursor.rest.dropWhile isSeparator := by
  have hdrop := @List.drop_left _ (cursor.rest.takeWhile isSeparator)
    (cursor.rest.dropWhile isSeparator)
  rw [List.takeWhile_append_dropWhile] at hdrop
  exact hdrop

theorem Lexes.gives {cs : List Char} {lexemes : List Lexeme} (h : Lexes cs lexemes)
    {cursor : Cursor} (hrest : cursor.rest = cs) :
    ∃ tokens finish, (⟨cursor, false⟩ : Lexer).Gives ((tokens ++ [finish]).map .ok) ∧
      tokens.map Token.lexeme = lexemes ∧ finish.kind = .finish := by
  induction h generalizing cursor with
  | finish h =>
    have hskip : cursor.skipSeparators.rest = [] := by
      rw [cursor.skipSeparators_rest, hrest, h]
    refine ⟨[], ⟨.finish, "", cursor.skipSeparators.spanOf 0⟩, ?_, rfl, rfl⟩
    have hafter : (⟨cursor.skipSeparators, true⟩ : Lexer).Gives [] :=
      .nil (Lexer.next?_of_finished rfl)
    refine .cons ?_ hafter
    simp [Lexer.next?, hskip]
  | @lexeme cs text kind lexemes h _ ih =>
    have hskip : cursor.skipSeparators.rest = cs.dropWhile isSeparator := by
      rw [cursor.skipSeparators_rest, hrest]
    have hne : cs.dropWhile isSeparator ≠ [] := by
      intro hnil
      rw [hnil] at h
      cases h
    have hrest' : (cursor.skipSeparators.advance text.length).rest =
        (cs.dropWhile isSeparator).drop text.length := by
      simp [Cursor.advance, hskip]
    obtain ⟨tokens, finish, hgives, hlexemes, hfinish⟩ := ih hrest'
    refine ⟨⟨kind, String.ofList text, cursor.skipSeparators.spanOf text.length⟩ :: tokens, finish,
      .cons ?_ hgives, ?_, hfinish⟩
    · simp [Lexer.next?, hskip, hne, h]
    · simp [Token.lexeme, hlexemes]

/-- The tokens of a text are its lexemes and the end. -/
theorem tokenize_of_lexes {source : List Char} {lexemes : List Lexeme} (h : Lexes source lexemes) :
    ∃ tokens finish, tokenize source = (tokens ++ [finish]).map .ok ∧
      tokens.map Token.lexeme = lexemes ∧ finish.kind = .finish := by
  have hstart : (Cursor.start source).rest = source := rfl
  obtain ⟨tokens, finish, hgives, hlexemes, hfinish⟩ := h.gives hstart
  exact ⟨tokens, finish, (gives_tokenize source).unique hgives, hlexemes, hfinish⟩

/-! ## Texts in pieces -/

namespace Lexes

variable {cs : List Char} {lexemes : List Lexeme}

/-- A blank is not seen. -/
theorem blank_iff {c : Char} (hc : isSeparator c = true) :
    Lexes (c :: cs) lexemes ↔ Lexes cs lexemes := by
  have hdrop : (c :: cs).dropWhile isSeparator = cs.dropWhile isSeparator :=
    List.dropWhile_cons_of_pos hc
  constructor
  · intro h
    cases h with
    | finish h => exact .finish (by rw [← hdrop, h])
    | lexeme h rest => exact .lexeme (by rw [← hdrop, h]) (by rwa [← hdrop])
  · intro h
    cases h with
    | finish h => exact .finish (by rw [hdrop, h])
    | lexeme h rest => exact .lexeme (by rw [hdrop, h]) (by rwa [hdrop])

theorem blank (h : Lexes cs lexemes) {c : Char} (hc : isSeparator c = true) :
    Lexes (c :: cs) lexemes :=
  (blank_iff hc).mpr h

theorem blanks_iff {blanks : List Char} (hblanks : ∀ c ∈ blanks, isSeparator c = true) :
    Lexes (blanks ++ cs) lexemes ↔ Lexes cs lexemes := by
  induction blanks with
  | nil => rfl
  | cons c blanks ih =>
    obtain ⟨hc, hblanks⟩ := List.forall_mem_cons.mp hblanks
    rw [List.cons_append, blank_iff hc, ih hblanks]

/-- A lexeme that is taken before the rest of a text. -/
theorem piece (h : Lexes cs lexemes) {kind : TokenKind} {c : Char} {text : List Char}
    (hc : isSeparator c = false) (hlexeme : lexeme? (c :: text ++ cs) = some (kind, c :: text)) :
    Lexes (c :: text ++ cs) ((kind, c :: text) :: lexemes) := by
  have hdrop : (c :: text ++ cs).dropWhile isSeparator = c :: text ++ cs := by
    rw [List.cons_append, List.dropWhile_cons_of_neg (by simp [hc])]
  refine .lexeme (by rw [hdrop, hlexeme]) ?_
  rw [hdrop, List.drop_left]
  exact h

end Lexes

/-- A run of characters with a property, before one without it. -/
theorem takeWhile_run {p : Char → Bool} {run cs : List Char} (hrun : ∀ c ∈ run, p c = true)
    (hstop : ∀ c ∈ cs.head?, p c = false) :
    (run ++ cs).takeWhile p = run ∧ (run ++ cs).dropWhile p = cs := by
  rw [List.takeWhile_append_of_pos hrun, List.dropWhile_append_of_pos hrun]
  cases cs with
  | nil => simp
  | cons c cs =>
    have hc : p c = false := hstop c rfl
    simp [hc]

theorem numeral?_eq_none {c : Char} (hdigit : c.isDigit = false) (hpoint : c ≠ '.')
    (cs : List Char) : numeral? (c :: cs) = none := by
  simp [numeral?, mantissa?, hdigit, hpoint]

theorem symbolKind?_facts {c : Char} {kind : TokenKind} (h : symbolKind? c = some kind) :
    isSeparator c = false ∧ c.isDigit = false ∧ c ≠ '.' ∧ c.isAlpha = false := by
  unfold symbolKind? at h
  -- one case for each of the ten characters, and one for all others
  split at h
  all_goals first | contradiction | decide

theorem lexeme?_symbol {c : Char} {kind : TokenKind} (hc : symbolKind? c = some kind)
    (cs : List Char) : lexeme? (c :: cs) = some (kind, [c]) := by
  obtain ⟨_, hdigit, hpoint, halpha⟩ := symbolKind?_facts hc
  simp [lexeme?, numeral?_eq_none hdigit hpoint, halpha, hc]

/-- A character that is a token by itself. -/
theorem Lexes.symbol {cs : List Char} {lexemes : List Lexeme} (h : Lexes cs lexemes) {c : Char}
    {kind : TokenKind} (hc : symbolKind? c = some kind) :
    Lexes (c :: cs) ((kind, [c]) :: lexemes) := by
  have hlexeme : lexeme? (c :: ([] ++ cs)) = some (kind, [c]) := lexeme?_symbol hc cs
  exact h.piece (symbolKind?_facts hc).1 hlexeme

/-- Where a character is a token by itself, the text behind it is cut apart from it. -/
theorem Lexes.of_symbol {c : Char} {cs : List Char} {lexemes : List Lexeme}
    (h : Lexes (c :: cs) lexemes) {kind : TokenKind} (hc : symbolKind? c = some kind) :
    ∃ more, lexemes = (kind, [c]) :: more ∧ Lexes cs more := by
  have hdrop : (c :: cs).dropWhile isSeparator = c :: cs :=
    List.dropWhile_cons_of_neg (by simp [(symbolKind?_facts hc).1])
  cases h with
  | finish h =>
    rw [hdrop] at h
    cases h
  | lexeme h rest =>
    rw [hdrop, lexeme?_symbol hc] at h
    obtain ⟨rfl, rfl⟩ := Prod.mk.inj (Option.some.inj h)
    rw [hdrop] at rest
    exact ⟨_, rfl, rest⟩

theorem isSeparator_facts {c : Char} (h : isSeparator c = true) :
    c.isDigit = false ∧ c.isAlpha = false := by
  simp only [isSeparator, Bool.or_eq_true, beq_iff_eq] at h
  rcases h with (((rfl | rfl) | rfl) | rfl) | rfl <;> decide

theorem isAlpha_facts {c : Char} (h : c.isAlpha = true) :
    isSeparator c = false ∧ c.isDigit = false ∧ c ≠ '.' := by
  refine ⟨?_, ?_, ?_⟩
  · cases hc : isSeparator c with
    | false => rfl
    | true => simp [(isSeparator_facts hc).2] at h
  · cases hc : c.isDigit with
    | false => rfl
    | true =>
      have hrange := isDigit_iff.mp hc
      simp only [Char.isAlpha, Char.isUpper, Char.isLower, Bool.or_eq_true, Bool.and_eq_true,
        decide_eq_true_eq, ge_iff_le, UInt32.le_iff_toNat_le] at h
      have hval : c.val.toNat = c.toNat := rfl
      simp at h
      omega
  · intro heq
    rw [heq] at h
    cases h

theorem isDigit_not_separator {c : Char} (h : c.isDigit = true) : isSeparator c = false := by
  cases hc : isSeparator c with
  | false => rfl
  | true => simp [(isSeparator_facts hc).1] at h

/-- A run of letters before something else. -/
theorem Lexes.ident {cs : List Char} {lexemes : List Lexeme} (h : Lexes cs lexemes)
    {letters : List Char} (hne : letters ≠ []) (hletters : ∀ c ∈ letters, c.isAlpha = true)
    (hstop : ∀ c ∈ cs.head?, c.isAlpha = false) :
    Lexes (letters ++ cs) ((.ident, letters) :: lexemes) := by
  cases letters with
  | nil => exact absurd rfl hne
  | cons c letters =>
    obtain ⟨hseparator, hdigit, hpoint⟩ := isAlpha_facts (hletters c (List.mem_cons_self ..))
    refine h.piece hseparator ?_
    obtain ⟨htake, _⟩ := takeWhile_run hletters hstop
    rw [lexeme?, htake, List.cons_append, numeral?_eq_none hdigit hpoint]

/-- What may follow a literal. -/
def EndsLiteral (cs : List Char) : Prop := ∀ c ∈ cs.head?, c = ' ' ∨ c = ')' ∨ c = ','

theorem EndsLiteral.facts {cs : List Char} (h : EndsLiteral cs) :
    ∀ c ∈ cs.head?, c.isDigit = false ∧ c ≠ '.' ∧ c ≠ 'e' ∧ c ≠ 'E' ∧ c.isAlpha = false := by
  intro c hc
  rcases h c hc with rfl | rfl | rfl <;> decide

theorem exponentPart_of_endsLiteral {cs : List Char} (h : EndsLiteral cs) :
    exponentPart cs = [] := by
  cases cs with
  | nil => rfl
  | cons c cs =>
    obtain ⟨_, _, he, hE, _⟩ := h.facts c rfl
    simp [exponentPart, he, hE]

/-- Digits around a point are a mantissa. -/
theorem mantissa?_append {whole fraction cs : List Char} (hne : whole ≠ [])
    (hwhole : AllDigits whole) (hfraction : AllDigits fraction) (hends : EndsLiteral cs) :
    mantissa? (whole ++ pointPart fraction ++ cs) = some (whole ++ pointPart fraction) := by
  have hstop : ∀ c ∈ cs.head?, c.isDigit = false := fun c hc => (hends.facts c hc).1
  unfold pointPart
  split
  · obtain ⟨htake, hdrop⟩ := takeWhile_run hwhole hstop
    rw [List.append_nil, mantissa?, htake, hdrop]
    cases cs with
    | nil => simp [hne]
    | cons c cs => simp [(hends.facts c rfl).2.1, hne]
  · rename_i hfractionNe
    have hpoint : ∀ c ∈ ('.' :: (fraction ++ cs)).head?, c.isDigit = false := by simp
    obtain ⟨htake, hdrop⟩ := takeWhile_run hwhole hpoint
    rw [List.append_assoc, List.cons_append, mantissa?, htake, hdrop]
    simp [(takeWhile_run hfraction hstop).1, hfractionNe]

/-- The numeral at the start is the written decimal, if that is not negative. -/
theorem numeral?_toChars {value : Decimal} (hvalue : value.isNegative = false) {cs : List Char}
    (hends : EndsLiteral cs) : numeral? (value.toChars ++ cs) = some value.toChars := by
  obtain ⟨whole, fraction, hne, hwhole, hfraction, _, _, heq⟩ := value.toChars_eq
  have hchars : value.toChars = whole ++ pointPart fraction := by
    simpa [Decimal.signChars, hvalue] using heq
  rw [hchars, numeral?, mantissa?_append hne hwhole hfraction hends]
  simp [exponentPart_of_endsLiteral hends]

/-- A written decimal that is not negative, before the end of a term. -/
theorem Lexes.number {cs : List Char} {lexemes : List Lexeme} (h : Lexes cs lexemes)
    {value : Decimal} (hvalue : value.isNegative = false) (hends : EndsLiteral cs) :
    Lexes (value.toChars ++ cs) ((.number, value.toChars) :: lexemes) := by
  obtain ⟨whole, fraction, hne, hwhole, hfraction, _, _, heq⟩ := value.toChars_eq
  have hchars : value.toChars = whole ++ pointPart fraction := by
    simpa [Decimal.signChars, hvalue] using heq
  have hnumeral := numeral?_toChars hvalue hends
  cases hvalueChars : value.toChars with
  | nil => simp [hchars, hne] at hvalueChars
  | cons c text =>
    rw [hvalueChars] at hnumeral
    refine h.piece (isDigit_not_separator ?_) (by rw [lexeme?, hnumeral])
    cases whole with
    | nil => exact absurd rfl hne
    | cons d whole =>
      have hcons : d :: (whole ++ pointPart fraction) = c :: text := hchars.symm.trans hvalueChars
      rw [← (List.cons.inj hcons).1]
      exact hwhole d (List.mem_cons_self ..)

/-! ## Numerals are literals -/

theorem mantissa?_eq_some {cs mantissa : List Char} (h : mantissa? cs = some mantissa) :
    ∃ whole fraction, AllDigits whole ∧ AllDigits fraction ∧ (whole ≠ [] ∨ fraction ≠ []) ∧
      mantissa = Decimal.mantissaChars false whole fraction := by
  have hrun : ∀ ds : List Char, AllDigits (ds.takeWhile Char.isDigit) := fun ds c hc =>
    List.mem_takeWhile_imp hc
  have hplain : ∀ whole : List Char,
      (if (!whole.isEmpty) = true then some whole else none) = some mantissa →
      AllDigits whole → ∃ whole fraction, AllDigits whole ∧ AllDigits fraction ∧
        (whole ≠ [] ∨ fraction ≠ []) ∧
        mantissa = Decimal.mantissaChars false whole fraction := by
    intro whole hwhole hdigits
    obtain ⟨hne, heq⟩ := Option.ite_none_right_eq_some.mp hwhole
    refine ⟨whole, [], hdigits, .nil, Or.inl (by simpa using hne), ?_⟩
    simpa [Decimal.mantissaChars, pointPart] using (Option.some.inj heq).symm
  unfold mantissa? at h
  split at h
  · rename_i rest _
    dsimp only at h
    split at h
    · rename_i hne
      have hne : rest.takeWhile Char.isDigit ≠ [] := by simpa using hne
      refine ⟨cs.takeWhile Char.isDigit, rest.takeWhile Char.isDigit, hrun _, hrun _, Or.inr hne, ?_⟩
      simpa [Decimal.mantissaChars, pointPart, hne] using (Option.some.inj h).symm
    · exact hplain _ h (hrun cs)
  · simp only [List.isEmpty_nil, Bool.not_true, Bool.false_eq_true, if_false] at h
    exact hplain _ h (hrun cs)

theorem exponentPart_cases (cs : List Char) :
    exponentPart cs = [] ∨
      ∃ letter suffix, exponentPart cs = letter :: suffix ∧ (letter == 'e' || letter == 'E') = true ∧
        ∀ c ∈ suffix, IsNumeralChar c := by
  unfold exponentPart
  split
  · rename_i letter rest
    split
    · rename_i hletter
      dsimp only
      split
      · exact Or.inl rfl
      · refine Or.inr ⟨letter, _, rfl, hletter, ?_⟩
        intro c hc
        rcases List.mem_append.mp hc with hc | hc
        · have hsign := (List.mem_filter.mp hc).2
          simp only [Bool.or_eq_true, beq_iff_eq] at hsign
          rcases hsign with rfl | rfl
          · exact Or.inr (by decide)
          · exact Or.inr (by decide)
        · exact Or.inl (List.mem_takeWhile_imp hc)
    · exact Or.inl rfl
  · exact Or.inl rfl

/-- A numeral is split before its exponent. -/
theorem splitExponent_numeral {whole fraction : List Char} (hwhole : AllDigits whole)
    (hfraction : AllDigits fraction) (rest : List Char) :
    (∃ exponent, Decimal.splitExponent
        (Decimal.mantissaChars false whole fraction ++ exponentPart rest) =
      .ok (Decimal.mantissaChars false whole fraction, exponent)) ∨
    Decimal.splitExponent (Decimal.mantissaChars false whole fraction ++ exponentPart rest) =
      .error .exponent := by
  have hno := Decimal.not_exponent_mantissaChars hwhole hfraction false
  rcases exponentPart_cases rest with hnil | ⟨letter, suffix, hcons, hletter, _⟩
  · rw [hnil, List.append_nil, Decimal.splitExponent, splitFirst_eq_none hno]
    exact Or.inl ⟨0, rfl⟩
  · rw [hcons, Decimal.splitExponent, splitFirst_append hno hletter]
    dsimp only
    cases exponent? suffix with
    | none => exact Or.inr rfl
    | some exponent => exact Or.inl ⟨exponent, rfl⟩

theorem isNumeralChar_exponentPart (cs : List Char) : ∀ c ∈ exponentPart cs, IsNumeralChar c := by
  intro c hc
  rcases exponentPart_cases cs with hnil | ⟨letter, suffix, hcons, hletter, hsuffix⟩
  · rw [hnil] at hc
    cases hc
  · rw [hcons] at hc
    rcases List.mem_cons.mp hc with rfl | hc
    · simp only [Bool.or_eq_true, beq_iff_eq] at hletter
      rcases hletter with rfl | rfl
      · exact Or.inr (by decide)
      · exact Or.inr (by decide)
    · exact hsuffix c hc

theorem isNumeralChar_numeral {cs text : List Char} (h : numeral? cs = some text) :
    ∀ c ∈ text, IsNumeralChar c := by
  obtain ⟨mantissa, hmantissa, rfl⟩ := Option.map_eq_some_iff.mp h
  obtain ⟨whole, fraction, hwhole, hfraction, _, rfl⟩ := mantissa?_eq_some hmantissa
  exact List.forall_mem_append.mpr
    ⟨Decimal.isNumeralChar_mantissaChars hwhole hfraction, isNumeralChar_exponentPart _⟩

/-- A numeral that is a decimal is none below zero. -/
theorem numeral?_literal {cs text : List Char} (h : numeral? cs = some text) {value : Decimal}
    (hvalue : Decimal.ofText? (String.ofList text) = .ok value) :
    value.isNegative = false ∧ ScaleInRange value.scale := by
  have htrim : trimBlanks text = text :=
    trimBlanks_eq_self fun c hc => isBlank_of_isNumeralChar (isNumeralChar_numeral h c hc)
  rw [Decimal.ofText?, String.toList_ofList, htrim] at hvalue
  obtain ⟨mantissa, hmantissa, rfl⟩ := Option.map_eq_some_iff.mp h
  obtain ⟨whole, fraction, hwhole, hfraction, hne, rfl⟩ := mantissa?_eq_some hmantissa
  generalize cs.drop (Decimal.mantissaChars false whole fraction).length = rest at hvalue
  rcases splitExponent_numeral hwhole hfraction rest with ⟨exponent, hsplit⟩ | hsplit
  · rw [Decimal.ofChars?_of_splitExponent hwhole hfraction hne hsplit] at hvalue
    split at hvalue
    · rename_i hrange
      cases hvalue
      exact ⟨by simp [Decimal.isNegative, signed], hrange⟩
    · cases hvalue
  · rw [Decimal.ofChars?, hsplit] at hvalue
    cases hvalue

/-- The literals among the tokens of a text are not negative and have a scale in range. -/
theorem Token.Spelled.literal {token : Token} (h : token.Spelled) (hkind : token.kind = .number)
    {value : Decimal} (hvalue : Decimal.ofText? token.text = .ok value) :
    value.isNegative = false ∧ ScaleInRange value.scale := by
  obtain ⟨cs, text, hlexeme, htext⟩ := h.resolve_left (by simp [hkind])
  rw [htext] at hvalue
  rcases lexeme?_cases hlexeme with ⟨_, hnumeral⟩ | ⟨hident, _⟩ | ⟨c, _, hc⟩
  · exact numeral?_literal hnumeral hvalue
  · exact absurd (hkind.symm.trans hident) (by decide)
  · rw [hkind] at hc
    unfold symbolKind? at hc
    split at hc <;> simp at hc

/-- A run of ASCII letters. -/
def IsName (name : String) : Prop := name.toList ≠ [] ∧ ∀ c ∈ name.toList, c.isAlpha = true

theorem Token.Spelled.name {token : Token} (h : token.Spelled) (hkind : token.kind = .ident) :
    IsName token.text := by
  obtain ⟨cs, text, hlexeme, htext⟩ := h.resolve_left (by simp [hkind])
  rcases lexeme?_cases hlexeme with ⟨hnumber, _⟩ | ⟨_, heq, hne⟩ | ⟨c, _, hc⟩
  · exact absurd (hkind.symm.trans hnumber) (by decide)
  · rw [IsName, htext, String.toList_ofList]
    exact ⟨hne, fun c hc => List.mem_takeWhile_imp (heq ▸ hc)⟩
  · rw [hkind] at hc
    unfold symbolKind? at hc
    split at hc <;> simp at hc

end Abacus
