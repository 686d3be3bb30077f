import Abacus.Proofs.Decimal.Literal
import Abacus.Proofs.Reading.Appended

/-!
# The longest lexeme

`IsLexeme kind text` is the language of each kind of token: numerals, runs of letters and single
characters.  Two lexemes that start one text are of the same kind, and what a lexer takes starts with every
lexeme that the text starts with (`IsLexeme.taken`).  So it takes the longest one, and there is none where
it takes nothing: `lexeme?_eq_some_iff`, `lexeme?_eq_none_iff`.
-/

namespace Abacus

/-- The digits of a numeral: a whole number, one with a fraction, or a fraction alone. -/
inductive IsMantissa : List Char → Prop
  | whole {whole : List Char} (hwhole : IsDigits whole) : IsMantissa whole
  | fraction {whole fraction : List Char} (hwhole : IsDigits whole) (hfraction : IsDigits fraction) :
      IsMantissa (whole ++ '.' :: fraction)
  | point {fraction : List Char} (hfraction : IsDigits fraction) : IsMantissa ('.' :: fraction)

/-- The exponent of a numeral: a letter, an optional sign and digits. -/
inductive IsScaling : List Char → Prop
  | intro {letter : Char} {sign digits : List Char} {negative : Bool}
      (hletter : IsExponentLetter letter) (hsign : IsSign sign negative) (hdigits : IsDigits digits) :
      IsScaling (letter :: sign ++ digits)

/-- A mantissa with an optional exponent. -/
inductive IsNumeral : List Char → Prop
  | plain {mantissa : List Char} (hmantissa : IsMantissa mantissa) : IsNumeral mantissa
  | scaled {mantissa exponent : List Char} (hmantissa : IsMantissa mantissa)
      (hexponent : IsScaling exponent) : IsNumeral (mantissa ++ exponent)

/-- The characters are those of a token of the kind. -/
inductive IsLexeme : TokenKind → List Char → Prop
  | number {text : List Char} (hnumeral : IsNumeral text) : IsLexeme .number text
  | ident {text : List Char} (hne : text ≠ []) (hletters : ∀ c ∈ text, c.isAlpha = true) :
      IsLexeme .ident text
  | operator {c : Char} (hc : c ∈ ['*', '/', '%', '^']) : IsLexeme .operator [c]
  | sign {c : Char} (hc : c ∈ ['+', '-']) : IsLexeme .sign [c]
  | leftParen : IsLexeme .leftParen ['(']
  | rightParen : IsLexeme .rightParen [')']
  | equals : IsLexeme .equals ['=']
  | comma : IsLexeme .comma [',']

/-- The text starts with this lexeme, and with no longer one. -/
structure IsLongest (cs : List Char) (kind : TokenKind) (text : List Char) : Prop where
  lexeme : IsLexeme kind text
  starts : text <+: cs
  longest : ∀ kind' text', IsLexeme kind' text' → text' <+: cs → text'.length ≤ text.length

/-! ## Numerals -/

theorem isDigits_takeWhile {cs : List Char} (hne : cs.takeWhile Char.isDigit ≠ []) :
    IsDigits (cs.takeWhile Char.isDigit) :=
  ⟨hne, fun _ hc => List.mem_takeWhile_imp hc⟩

theorem isMantissa_of_mantissa? {cs mantissa : List Char} (h : mantissa? cs = some mantissa) :
    IsMantissa mantissa := by
  obtain ⟨whole, fraction, hwhole, hfraction, hne, rfl⟩ := mantissa?_eq_some h
  simp only [Decimal.mantissaChars, Bool.false_eq_true, if_false, List.nil_append, pointPart]
  split
  · rename_i hnil
    rw [List.append_nil]
    exact .whole ⟨hne.resolve_right (not_not_intro hnil), hwhole⟩
  · rename_i hfractionNe
    cases whole with
    | nil => exact .point ⟨hfractionNe, hfraction⟩
    | cons c whole => exact .fraction ⟨by simp, hwhole⟩ ⟨hfractionNe, hfraction⟩

theorem IsMantissa.mem {mantissa : List Char} (h : IsMantissa mantissa) {c : Char}
    (hc : c ∈ mantissa) : c.isDigit = true ∨ c = '.' := by
  cases h with
  | whole hwhole => exact .inl (hwhole.2 c hc)
  | fraction hwhole hfraction =>
    rcases List.mem_append.mp hc with hc | hc
    · exact .inl (hwhole.2 c hc)
    · exact (List.mem_cons.mp hc).symm.imp (hfraction.2 c) id
  | point hfraction => exact (List.mem_cons.mp hc).symm.imp (hfraction.2 c) id

theorem IsMantissa.not_letter {mantissa : List Char} (h : IsMantissa mantissa) {c : Char}
    (hc : c ∈ mantissa) : ¬IsExponentLetter c := by
  intro hletter
  rcases h.mem hc with hdigit | hpoint
  · rcases hletter with rfl | rfl <;> cases hdigit
  · exact hletter.ne_point hpoint

/-- Digits at the start are taken, with what belongs to them. -/
theorem mantissa?_of_digits {cs : List Char} (hne : cs.takeWhile Char.isDigit ≠ []) :
    ∃ mantissa, mantissa? cs = some mantissa ∧ cs.takeWhile Char.isDigit <+: mantissa := by
  have hempty : (!(cs.takeWhile Char.isDigit).isEmpty) = true := by
    rw [List.isEmpty_eq_false_iff.mpr hne]
    rfl
  simp only [mantissa?, hempty, if_true]
  split
  · split
    · exact ⟨_, rfl, List.prefix_append ..⟩
    · exact ⟨_, rfl, List.prefix_rfl⟩
  · exact ⟨_, rfl, List.prefix_rfl⟩

/-- A point with a digit behind it is taken, with all digits there. -/
theorem mantissa?_of_point {whole fraction : List Char} (hwhole : AllDigits whole)
    (hfraction : IsDigits fraction) (more : List Char) :
    mantissa? (whole ++ '.' :: (fraction ++ more)) =
      some (whole ++ '.' :: (fraction ++ more.takeWhile Char.isDigit)) := by
  have hpoint : ∀ c ∈ ('.' :: (fraction ++ more)).head?, c.isDigit = false := by simp
  obtain ⟨htake, hdrop⟩ := takeWhile_run hwhole hpoint
  rw [mantissa?, htake, hdrop]
  simp [List.takeWhile_append_of_pos hfraction.2, hfraction.1]

/-- A text that starts with a mantissa has one taken that starts with it. -/
theorem IsMantissa.taken {mantissa cs : List Char} (h : IsMantissa mantissa)
    (hstarts : mantissa <+: cs) : ∃ found, mantissa? cs = some found ∧ mantissa <+: found := by
  obtain ⟨more, rfl⟩ := hstarts
  cases h with
  | whole hwhole =>
    have htake : (mantissa ++ more).takeWhile Char.isDigit = mantissa ++ more.takeWhile Char.isDigit :=
      List.takeWhile_append_of_pos hwhole.2
    have hne : (mantissa ++ more).takeWhile Char.isDigit ≠ [] := by simp [htake, hwhole.1]
    obtain ⟨found, hfound, hdigits⟩ := mantissa?_of_digits hne
    rw [htake] at hdigits
    exact ⟨found, hfound, (List.prefix_append ..).trans hdigits⟩
  | @fraction whole fraction hwhole hfraction =>
    rw [List.append_assoc, List.cons_append]
    refine ⟨_, mantissa?_of_point hwhole.2 hfraction more, ?_⟩
    rw [← List.cons_append, ← List.append_assoc]
    exact List.prefix_append ..
  | @point fraction hfraction =>
    rw [List.cons_append]
    exact ⟨_, mantissa?_of_point .nil hfraction more, List.prefix_append ('.' :: fraction) _⟩

/-- The sign that an exponent starts with, if it has one. -/
def signOf (cs : List Char) : List Char := cs.head?.toList.filter fun c => c == '+' || c == '-'

theorem signOf_of_isSign {sign body : List Char} {negative : Bool} (hsign : IsSign sign negative)
    (hbody : sign = [] → ∀ c ∈ body.head?, c ∉ ['+', '-']) : signOf (sign ++ body) = sign := by
  cases hsign with
  | plus | minus => rfl
  | none =>
    cases body with
    | nil => rfl
    | cons c body => simpa [signOf] using hbody rfl c rfl

theorem exists_isSign_signOf (cs : List Char) : ∃ negative, IsSign (signOf cs) negative := by
  obtain ⟨sign, body, negative, rfl, hsign, hbody⟩ := exists_sign cs
  rw [signOf_of_isSign hsign hbody]
  exact ⟨negative, hsign⟩

theorem isScaling_exponentPart {cs : List Char} (h : exponentPart cs ≠ []) :
    IsScaling (exponentPart cs) := by
  revert h
  unfold exponentPart
  split
  · rename_i letter rest
    split
    · rename_i hletter
      dsimp only
      split
      · exact fun h => absurd rfl h
      · rename_i hdigits
        intro _
        obtain ⟨negative, hsign⟩ := exists_isSign_signOf rest
        exact .intro (isExponentLetter_iff.mp hletter) hsign
          (isDigits_takeWhile (mt List.isEmpty_iff.mpr hdigits))
    · exact fun h => absurd rfl h
  · exact fun h => absurd rfl h

/-- A text that starts with an exponent has one taken that starts with it. -/
theorem IsScaling.taken {exponent cs : List Char} (h : IsScaling exponent)
    (hstarts : exponent <+: cs) : exponent <+: exponentPart cs := by
  obtain ⟨more, rfl⟩ := hstarts
  cases h with
  | @intro letter sign digits negative hletter hsign hdigits =>
    have hbody : sign = [] → ∀ c ∈ (digits ++ more).head?, c ∉ ['+', '-'] := by
      intro _ c hc
      rw [List.head?_append_of_ne_nil _ hdigits.1] at hc
      exact not_sign_of_isDigit (hdigits.2 c (List.mem_of_mem_head? hc))
    have hsignOf : ((sign ++ (digits ++ more)).head?.toList.filter fun c => c == '+' || c == '-') =
        sign := signOf_of_isSign hsign hbody
    have htake : (digits ++ more).takeWhile Char.isDigit = digits ++ more.takeWhile Char.isDigit :=
      List.takeWhile_append_of_pos hdigits.2
    have hempty : (digits ++ more.takeWhile Char.isDigit).isEmpty = false := by simp [hdigits.1]
    rw [List.cons_append, List.cons_append, List.append_assoc, exponentPart,
      if_pos (isExponentLetter_iff.mpr hletter)]
    simp only [hsignOf, List.drop_left, htake, hempty, Bool.false_eq_true, if_false]
    rw [← List.append_assoc]
    exact List.prefix_append (letter :: sign ++ digits) _

theorem isNumeral_of_numeral? {cs text : List Char} (h : numeral? cs = some text) :
    IsNumeral text := by
  obtain ⟨mantissa, hmantissa, rfl⟩ := Option.map_eq_some_iff.mp h
  have hplain := isMantissa_of_mantissa? hmantissa
  by_cases hexponent : exponentPart (cs.drop mantissa.length) = []
  · rw [hexponent, List.append_nil]
    exact .plain hplain
  · exact .scaled hplain (isScaling_exponentPart hexponent)

/-- A text that starts with a numeral has one taken that starts with it. -/
theorem IsNumeral.taken {numeral cs : List Char} (h : IsNumeral numeral) (hstarts : numeral <+: cs) :
    ∃ found, numeral? cs = some found ∧ numeral <+: found := by
  cases h with
  | plain hmantissa =>
    obtain ⟨mantissa, hfound, hmore⟩ := hmantissa.taken hstarts
    exact ⟨_, Option.map_eq_some_iff.mpr ⟨mantissa, hfound, rfl⟩,
      hmore.trans (List.prefix_append ..)⟩
  | @scaled mantissa exponent hmantissa hexponent =>
    obtain ⟨more, rfl⟩ := hstarts
    rw [List.append_assoc]
    obtain ⟨found, hfound, hmore⟩ := hmantissa.taken (List.prefix_append mantissa (exponent ++ more))
    obtain rfl : found = mantissa := by
      obtain ⟨tail, rfl⟩ := hmore
      cases hexponent with
      | @intro letter sign digits negative hletter =>
        cases tail with
        | nil => rw [List.append_nil]
        | cons c tail =>
          -- a longer mantissa would have the letter of the exponent in it
          have hprefix := mantissa?_isPrefix hfound
          rw [List.prefix_append_right_inj] at hprefix
          obtain ⟨rfl, _⟩ := List.cons_prefix_cons.mp hprefix
          have hmem : c ∈ mantissa ++ c :: tail := List.mem_append_right _ List.mem_cons_self
          exact absurd hletter ((isMantissa_of_mantissa? hfound).not_letter hmem)
    refine ⟨_, Option.map_eq_some_iff.mpr ⟨found, hfound, rfl⟩, ?_⟩
    rw [List.drop_left]
    exact List.prefix_append_right_inj found |>.mpr (hexponent.taken (List.prefix_append ..))

/-! ## Lexemes -/

theorem isLexeme_of_symbolKind? {c : Char} {kind : TokenKind} (h : symbolKind? c = some kind) :
    IsLexeme kind [c] := by
  unfold symbolKind? at h
  split at h <;> simp only [Option.some.injEq, reduceCtorEq] at h <;> subst h
  · exact .operator (by decide)
  · exact .operator (by decide)
  · exact .operator (by decide)
  · exact .operator (by decide)
  · exact .sign (by decide)
  · exact .sign (by decide)
  · exact .leftParen
  · exact .rightParen
  · exact .equals
  · exact .comma

theorem isLexeme_of_lexeme? {cs text : List Char} {kind : TokenKind}
    (h : lexeme? cs = some (kind, text)) : IsLexeme kind text := by
  rcases lexeme?_cases h with ⟨rfl, hnumeral⟩ | ⟨rfl, htext, hne⟩ | ⟨c, rfl, hc⟩
  · exact .number (isNumeral_of_numeral? hnumeral)
  · refine .ident hne ?_
    rw [htext]
    exact fun c hc => List.mem_takeWhile_imp hc
  · exact isLexeme_of_symbolKind? hc

/-- A run of letters at the start is taken. -/
theorem lexeme?_of_letters {letters cs : List Char} (hne : letters ≠ [])
    (hletters : ∀ c ∈ letters, c.isAlpha = true) (hstarts : letters <+: cs) :
    ∃ found, lexeme? cs = some (.ident, found) ∧ letters <+: found := by
  obtain ⟨more, rfl⟩ := hstarts
  have htake : (letters ++ more).takeWhile Char.isAlpha = letters ++ more.takeWhile Char.isAlpha :=
    List.takeWhile_append_of_pos hletters
  refine ⟨_, ?_, List.prefix_append letters (more.takeWhile Char.isAlpha)⟩
  rw [lexeme?, htake]
  cases letters with
  | nil => exact absurd rfl hne
  | cons c letters =>
    obtain ⟨_, hdigit, hpoint⟩ := isAlpha_facts (hletters c List.mem_cons_self)
    rw [List.cons_append, numeral?_eq_none hdigit hpoint]
    rfl

/-- A text that starts with a lexeme has one of the same kind taken that starts with it. -/
theorem IsLexeme.taken {kind : TokenKind} {text cs : List Char} (h : IsLexeme kind text)
    (hstarts : text <+: cs) : ∃ found, lexeme? cs = some (kind, found) ∧ text <+: found := by
  have hsymbol : ∀ {c : Char}, text = [c] → symbolKind? c = some kind →
      ∃ found, lexeme? cs = some (kind, found) ∧ text <+: found := by
    intro c htext hc
    subst htext
    obtain ⟨more, rfl⟩ := hstarts
    exact ⟨[c], lexeme?_symbol hc more, List.prefix_rfl⟩
  cases h with
  | number hnumeral =>
    obtain ⟨found, hfound, hmore⟩ := hnumeral.taken hstarts
    exact ⟨found, by rw [lexeme?, hfound], hmore⟩
  | ident hne hletters => exact lexeme?_of_letters hne hletters hstarts
  | operator hc =>
    simp only [List.mem_cons, List.not_mem_nil, or_false] at hc
    rcases hc with rfl | rfl | rfl | rfl <;> exact hsymbol rfl rfl
  | sign hc =>
    simp only [List.mem_cons, List.not_mem_nil, or_false] at hc
    rcases hc with rfl | rfl <;> exact hsymbol rfl rfl
  | leftParen | rightParen | equals | comma => exact hsymbol rfl rfl

/-- What a lexer takes is the longest lexeme. -/
theorem lexeme?_eq_some_iff {cs text : List Char} {kind : TokenKind} :
    lexeme? cs = some (kind, text) ↔ IsLongest cs kind text := by
  constructor
  · intro h
    refine ⟨isLexeme_of_lexeme? h, lexeme?_isPrefix h, ?_⟩
    intro kind' text' hlexeme hstarts
    obtain ⟨found, hfound, hmore⟩ := hlexeme.taken hstarts
    obtain ⟨_, rfl⟩ := Prod.mk.inj (Option.some.inj (hfound.symm.trans h))
    exact hmore.length_le
  · intro h
    obtain ⟨found, hfound, hmore⟩ := h.lexeme.taken h.starts
    have hle := h.longest kind found (isLexeme_of_lexeme? hfound) (lexeme?_isPrefix hfound)
    rw [hfound, hmore.eq_of_length_le hle]

/-- Nothing is taken where no lexeme starts. -/
theorem lexeme?_eq_none_iff {cs : List Char} :
    lexeme? cs = none ↔ ∀ kind text, IsLexeme kind text → ¬text <+: cs := by
  constructor
  · intro h kind text hlexeme hstarts
    obtain ⟨found, hfound, _⟩ := hlexeme.taken hstarts
    rw [h] at hfound
    cases hfound
  · intro h
    cases hlexeme : lexeme? cs with
    | none => rfl
    | some lexeme => exact absurd (lexeme?_isPrefix hlexeme) (h _ _ (isLexeme_of_lexeme? hlexeme))

/-! ## The ends of a lexeme -/

/-- A numeral ends with digits. -/
theorem IsNumeral.ends {text : List Char} (h : IsNumeral text) :
    ∃ front digits, text = front ++ digits ∧ IsDigits digits := by
  cases h with
  | plain hmantissa =>
    cases hmantissa with
    | whole hwhole => exact ⟨[], text, rfl, hwhole⟩
    | @fraction whole fraction hwhole hfraction =>
      exact ⟨whole ++ ['.'], fraction, by simp, hfraction⟩
    | @point fraction hfraction => exact ⟨['.'], fraction, rfl, hfraction⟩
  | @scaled mantissa exponent hmantissa hexponent =>
    cases hexponent with
    | @intro letter sign digits negative hletter hsign hdigits =>
      exact ⟨mantissa ++ letter :: sign, digits, by simp, hdigits⟩

namespace IsLongest

variable {cs text : List Char} {kind : TokenKind}

theorem ne_nil (h : IsLongest cs kind text) : text ≠ [] :=
  lexeme?_ne_nil (lexeme?_eq_some_iff.mpr h)

/-- There is no separator in a lexeme. -/
theorem not_separator (h : IsLongest cs kind text) : ∀ c ∈ text, isSeparator c = false := by
  intro c hc
  rcases lexeme?_cases (lexeme?_eq_some_iff.mpr h) with ⟨_, hnumeral⟩ | ⟨_, htext, _⟩ | ⟨d, rfl, hd⟩
  · rcases isNumeralChar_numeral hnumeral c hc with hdigit | hother
    · exact isDigit_not_separator hdigit
    · simp only [List.mem_cons, List.not_mem_nil, or_false] at hother
      rcases hother with rfl | rfl | rfl | rfl | rfl <;> decide
  · rw [htext] at hc
    exact (isAlpha_facts (List.mem_takeWhile_imp hc)).1
  · rw [List.mem_singleton.mp hc]
    exact (symbolKind?_facts hd).1

/-- Only a run of letters ends with a letter, and no letter follows it. -/
theorem not_alpha {more : List Char} (h : IsLongest (text ++ more) kind text) :
    ∀ c ∈ text.getLast?, c.isAlpha = true → ∀ d ∈ more.head?, d.isAlpha = false := by
  intro c hc halpha d hd
  rcases lexeme?_cases (lexeme?_eq_some_iff.mpr h) with ⟨_, hnumeral⟩ | ⟨_, htext, _⟩ | ⟨e, rfl, he⟩
  · obtain ⟨front, digits, rfl, hdigits⟩ := (isNumeral_of_numeral? hnumeral).ends
    rw [List.getLast?_append_of_ne_nil _ hdigits.1] at hc
    have hdigit := hdigits.2 c (List.mem_of_getLast? hc)
    simp [(isAlpha_facts halpha).2.1] at hdigit
  · obtain ⟨others, rfl⟩ := List.head?_eq_some_iff.mp hd
    have hletters : ∀ e ∈ text, e.isAlpha = true := by
      intro e he
      rw [htext] at he
      exact List.mem_takeWhile_imp he
    apply Bool.eq_false_of_not_eq_true
    intro hletter
    have hlonger : IsLexeme .ident (text ++ [d]) := by
      refine .ident (by simp) ?_
      exact List.forall_mem_append.mpr ⟨hletters, List.forall_mem_singleton.mpr hletter⟩
    have hle := h.longest .ident (text ++ [d]) hlonger ⟨others, by simp⟩
    simp at hle
  · obtain rfl : e = c := by simpa using hc
    simp [(symbolKind?_facts he).2.2.2] at halpha

end IsLongest

end Abacus
