import Abacus.Proofs.Reading.Offence
import Abacus.Proofs.Reading.Overflow
import Abacus.Proofs.Reading.Tiling

/-!
# Literals of source texts

A lexer, a reader of decimals and a writer of decimals each know what a number looks like.  What the lexer
takes as a number has digits around a point and an exponent (`NumeralParts`), so the reader can refuse it for
the size of its exponent or its scale alone (`ofChars?_of_parts`), and a text is refused for such a number
exactly if it stands where a number can stand (`parse?_malformedNumber_iff`).  What the writer makes of a
decimal that is not negative is one token again (`next?_toChars`).

The main statement is `literals_agree`.
-/

namespace Abacus

open Reading

/-! ## The parts of a numeral -/

/-- An optional exponent with its letter, and the integer that it is, of any size. -/
inductive ScalingPart : List Char → Int → Prop
  | none : ScalingPart [] 0
  | some {letter : Char} {suffix : List Char} {n : Int} (hletter : IsExponentLetter letter)
      (hsuffix : WritesInteger suffix n) : ScalingPart (letter :: suffix) n

/-- The digits of a numeral before and behind its point, and its exponent. -/
inductive NumeralParts : List Char → List Char → List Char → Int → Prop
  | intro {whole point fraction exponent : List Char} {n : Int} (hwhole : AllDigits whole)
      (hpoint : FractionPart point fraction) (hfraction : AllDigits fraction)
      (hne : whole ≠ [] ∨ fraction ≠ []) (hexponent : ScalingPart exponent n) :
      NumeralParts (whole ++ point ++ exponent) whole fraction n

/-- The exponent and the scale are integers of 32 bits. -/
def InRange (fraction : List Char) (n : Int) : Prop :=
  (-2147483648 ≤ n ∧ n ≤ 2147483647) ∧ ScaleInRange (fraction.length - n)

theorem IsScaling.exists_part {exponent : List Char} (h : IsScaling exponent) :
    ∃ n, ScalingPart exponent n := by
  cases h with
  | intro hletter hsign hdigits => exact ⟨_, .some hletter (.intro hsign hdigits)⟩

theorem IsMantissa.exists_parts {mantissa exponent : List Char} {n : Int} (h : IsMantissa mantissa)
    (hexponent : ScalingPart exponent n) :
    ∃ whole fraction, NumeralParts (mantissa ++ exponent) whole fraction n := by
  cases h with
  | whole hwhole =>
    have hparts := NumeralParts.intro hwhole.2 .none .nil (.inl hwhole.1) hexponent
    rw [List.append_nil] at hparts
    exact ⟨_, _, hparts⟩
  | fraction hwhole hfraction =>
    exact ⟨_, _, .intro hwhole.2 (.some _) hfraction.2 (.inl hwhole.1) hexponent⟩
  | point hfraction => exact ⟨_, _, .intro .nil (.some _) hfraction.2 (.inr hfraction.1) hexponent⟩

theorem IsNumeral.exists_parts {text : List Char} (h : IsNumeral text) :
    ∃ whole fraction n, NumeralParts text whole fraction n := by
  cases h with
  | plain hmantissa =>
    obtain ⟨whole, fraction, hparts⟩ := hmantissa.exists_parts .none
    rw [List.append_nil] at hparts
    exact ⟨whole, fraction, 0, hparts⟩
  | scaled hmantissa hexponent =>
    obtain ⟨n, hpart⟩ := hexponent.exists_part
    obtain ⟨whole, fraction, hparts⟩ := hmantissa.exists_parts hpart
    exact ⟨whole, fraction, n, hparts⟩

/-! ## Reading a numeral -/

/-- A text writes one integer at most. -/
theorem WritesInteger.unique {cs : List Char} {n m : Int} (h : WritesInteger cs n)
    (h' : WritesInteger cs m) : n = m := by
  have heq : ∀ {cs n}, WritesInteger cs n → n = signed (splitSign cs).1 (digitValue (splitSign cs).2) := by
    intro cs n h
    cases h with
    | intro hsign hdigits =>
      rw [splitSign_of_isSign hsign fun _ c hc =>
        not_sign_of_isDigit (hdigits.2 c (List.mem_of_mem_head? hc))]
  rw [heq h, heq h']

theorem WritesInteger.isNumeralChar {cs : List Char} {n : Int} (h : WritesInteger cs n) :
    ∀ c ∈ cs, IsNumeralChar c := by
  cases h with
  | intro hsign hdigits =>
    exact List.forall_mem_append.mpr
      ⟨fun c hc => .of_sign (hsign.mem hc), fun c hc => .inl (hdigits.2 c hc)⟩

namespace NumeralParts

variable {text whole fraction : List Char} {n : Int}

theorem isNumeralChar (h : NumeralParts text whole fraction n) : ∀ c ∈ text, IsNumeralChar c := by
  cases h with
  | intro hwhole hpoint hfraction hne hexponent =>
    refine List.forall_mem_append.mpr ⟨List.forall_mem_append.mpr ⟨fun c hc => .inl (hwhole c hc), ?_⟩, ?_⟩
    · cases hpoint with
      | none => exact List.forall_mem_nil _
      | some => exact List.forall_mem_cons.mpr ⟨.inr (by decide), fun c hc => .inl (hfraction c hc)⟩
    · cases hexponent with
      | none => exact List.forall_mem_nil _
      | some hletter hsuffix =>
        refine List.forall_mem_cons.mpr ⟨.inr ?_, hsuffix.isNumeralChar⟩
        rcases hletter with rfl | rfl <;> decide

/-- The sides of the point are the digits, if the exponent is in range. -/
theorem sides (h : NumeralParts text whole fraction n) (hrange : -2147483648 ≤ n ∧ n ≤ 2147483647) :
    Decimal.Sides text false whole fraction n := by
  cases h with
  | @intro whole point fraction exponent n hwhole hpoint hfraction hne hexponent =>
    have hpart : ExponentPart exponent n := by
      cases hexponent with
      | none => exact .none
      | some hletter hsuffix => exact .some hletter ⟨hsuffix, hrange⟩
    refine ⟨⟨[], point, exponent, rfl, .none, fun _ c hc => ?_, hpoint, hpart⟩, fun hmem => ?_, ?_⟩
    · exact not_sign_of_isDigit (hwhole c (List.mem_of_mem_head? hc))
    · cases hwhole '.' hmem
    · intro c hc hletter
      have hdigit := hwhole.append hfraction c hc
      rcases hletter with rfl | rfl <;> cases hdigit

/-- An exponent out of range is none. -/
theorem hasBadExponent (h : NumeralParts text whole fraction n)
    (hrange : ¬(-2147483648 ≤ n ∧ n ≤ 2147483647)) : Decimal.HasBadExponent text := by
  cases h with
  | intro hwhole hpoint hfraction hne hexponent =>
    cases hexponent with
    | none => exact absurd (by decide) hrange
    | some hletter hsuffix =>
      refine ⟨_, _, _, rfl, hletter, fun m hm => hrange ?_⟩
      rw [hsuffix.unique hm.1]
      exact hm.2

/-- A numeral is read as the number that its digits write, if its exponent and its scale are in range. -/
theorem ofChars?_eq (h : NumeralParts text whole fraction n) :
    (InRange fraction n → Decimal.ofChars? text =
      .ok ⟨digitValue (whole ++ fraction), fraction.length - n⟩) ∧
    (¬InRange fraction n → Decimal.ofChars? text = .error .exponent) := by
  by_cases hrange : -2147483648 ≤ n ∧ n ≤ 2147483647
  · rw [Decimal.ofChars?_of_sides (h.sides hrange)]
    cases h with
    | intro hwhole _ hfraction hne _ =>
      rw [if_neg (by tauto), if_pos (List.all_eq_true.mpr (hwhole.append hfraction))]
      constructor
      · intro hinRange
        rw [if_pos hinRange.2]
        rfl
      · intro hinRange
        exact if_neg fun hscale => hinRange ⟨hrange, hscale⟩
  · rw [Decimal.ofChars?_of_hasBadExponent (h.hasBadExponent hrange)]
    exact ⟨fun hinRange => absurd hinRange.1 hrange, fun _ => rfl⟩

theorem ofText?_eq {text : String} (h : NumeralParts text.toList whole fraction n) :
    Decimal.ofText? text = Decimal.ofChars? text.toList := by
  rw [Decimal.ofText?, trimBlanks_eq_self fun c hc => isBlank_of_isNumeralChar (h.isNumeralChar c hc)]

end NumeralParts

/-- The reader of decimals takes a numeral with these parts: it refuses it for its exponent or its scale
alone, and makes no negative number of it. -/
structure IsTaken (text : String) (fraction : List Char) (n : Int) : Prop where
  error : ∀ why, Decimal.ofText? text = .error why → why = .exponent
  refused_iff : (∃ why, Decimal.ofText? text = .error why) ↔ ¬InRange fraction n
  not_negative : ∀ value, Decimal.ofText? text = .ok value → value.isNegative = false

theorem NumeralParts.isTaken {text : String} {whole fraction : List Char} {n : Int}
    (h : NumeralParts text.toList whole fraction n) : IsTaken text fraction n := by
  obtain ⟨hok, herror⟩ := h.ofChars?_eq
  rw [← h.ofText?_eq] at hok herror
  by_cases hrange : InRange fraction n
  · have hread := hok hrange
    refine ⟨fun why hwhy => ?_, ⟨fun hex => ?_, fun hnot => absurd hrange hnot⟩, fun value hvalue => ?_⟩
    · cases hread.symm.trans hwhy
    · obtain ⟨why, hwhy⟩ := hex
      cases hread.symm.trans hwhy
    · obtain rfl := Except.ok.inj (hread.symm.trans hvalue)
      simp [Decimal.isNegative]
  · have hread := herror hrange
    refine ⟨fun why hwhy => ?_, ⟨fun _ => hrange, fun _ => ⟨_, hread⟩⟩, fun value hvalue => ?_⟩
    · exact (Except.error.inj (hread.symm.trans hwhy)).symm
    · cases hread.symm.trans hvalue

/-! ## Reporting a numeral -/

namespace Reading

variable {g : Grammar} {items : List Lexed} {k : Nat} {token number : Token} {source : List Char}

/-- A literal that is no decimal is the first offence, if another one in its place were none. -/
theorem firstOffence_of_not_isReadable (hitem : items[k]? = some (.ok token))
    (hunreadable : ¬IsReadable token) (hviable : Viable (items.take k ++ [.ok number])) :
    FirstOffence items k (.ok token) := by
  have hk : k < items.length := (List.getElem?_eq_some_iff.mp hitem).1
  refine ⟨hitem, fun l hl => ?_, fun hnext => ?_⟩
  · have hfront := hviable.take l
    rwa [List.take_append_of_le_length (by rw [List.length_take]; omega), List.take_take,
      Nat.min_eq_left hl] at hfront
  · rw [List.take_add_one, hitem] at hnext
    have hmem : Except.ok token ∈ items.take k ++ (some (Except.ok token)).toList := by simp
    obtain ⟨found, hfound, hvalid⟩ := hnext.mem hmem
    obtain rfl := Except.ok.inj hfound
    exact hunreadable hvalid.readable

/-- A text with a literal that is no decimal is refused. -/
theorem parse?_eq_error_of_not_isReadable (hitem : (tokenize source)[k]? = some (.ok token))
    (hunreadable : ¬IsReadable token) : ∃ error, Statement.parse? g source = .error error := by
  cases hparse : Statement.parse? g source with
  | error error => exact ⟨error, rfl⟩
  | ok statement =>
    obtain ⟨tokens, htokens, hreadable, _⟩ :=
      (parse?_eq_ok_iff.mp hparse).derives (ended_tokenize source) (spelled_tokenize source)
    have hmem := List.mem_of_getElem? hitem
    rw [htokens] at hmem
    obtain ⟨found, hfound, heq⟩ := List.mem_map.mp hmem
    obtain rfl := Except.ok.inj heq
    exact absurd (hreadable found hfound) hunreadable

/-- A text in which no priority overflows is refused for a literal exactly if that is no decimal, and the
tokens before it can be gone on with by another literal. -/
theorem parse?_malformedNumber_iff {span : Span} :
    Statement.parse? g source = .error (.refused ⟨span, .malformedNumber⟩) ↔
      Statement.parse? g source ≠ .error .overflow ∧
      ∃ k token number, (tokenize source)[k]? = some (.ok token) ∧ token.kind = .number ∧
        token.span = span ∧ (∃ why, Decimal.ofText? token.text = .error why) ∧
        number.kind = .number ∧ Viable ((tokenize source).take k ++ [.ok number]) := by
  have hrefused : ∀ error, Statement.parse? g source = .error (.refused error) →
      ∃ k item, FirstOffence (tokenize source) k item ∧ Blames error item ∧
        (error.val.isLexical = true ↔ LexicalOffence (tokenize source) k item) := fun error h =>
    (parse?_eq_error_iff.mp h).blames_firstOffence (ended_tokenize source) (spelled_tokenize source)
      (pairwise_tokenize source)
  constructor
  · intro h
    refine ⟨by simp [h], ?_⟩
    obtain ⟨k, item, hfirst, hblames, hlexical⟩ := hrefused _ h
    cases hblames with
    | @number token why hkind hvalue =>
      obtain ⟨span, hspan⟩ | ⟨found, number, hfound, _, _, hnumber, hviable⟩ := hlexical.mp rfl
      · cases hspan
      · exact ⟨k, token, number, hfirst.item, hkind, rfl, ⟨why, hvalue⟩, hnumber, hviable⟩
    | token token hother => cases hother
  · intro h
    obtain ⟨hoverflow, k, token, number, hitem, hkind, rfl, hwhy, hnumber, hviable⟩ := h
    have hunreadable : ¬IsReadable token := not_isReadable_iff.mpr ⟨hkind, hwhy⟩
    obtain ⟨why, herror⟩ := parse?_eq_error_of_not_isReadable (g := g) hitem hunreadable
    cases why with
    | overflow => exact absurd herror hoverflow
    | refused error =>
      obtain ⟨l, item, hfirst, hblames, hlexical⟩ := hrefused error herror
      have hhere := firstOffence_of_not_isReadable hitem hunreadable hviable
      obtain rfl := hfirst.unique hhere
      obtain rfl : Except.ok token = item :=
        Option.some.inj (hhere.item.symm.trans hfirst.item)
      have hoffence := hlexical.mpr (.inr ⟨token, number, rfl, hkind, hunreadable, hnumber, hviable⟩)
      cases hblames with
      | number => exact herror
      | token _ hother =>
        rw [hother] at hoffence
        cases hoffence

end Reading

/-! ## Writing a numeral -/

/-- A decimal that is not negative is written as a longest lexeme before what ends a literal. -/
theorem isLongest_toChars {value : Decimal} (hvalue : value.isNegative = false) {more : List Char}
    (hends : EndsLiteral more) : IsLongest (value.toChars ++ more) .number value.toChars :=
  lexeme?_eq_some_iff.mp (by rw [lexeme?, numeral?_toChars hvalue hends])

/-- Lexer, reader and writer agree on literals.  What the lexer takes as a number has digits around a point
and an exponent, and the reader refuses it exactly if the exponent or the scale is no integer of 32 bits, with
no other reason; it is never negative.  The text is refused for it if the reader refuses it, where a number
can stand, and never for anything else, unless a priority overflows, which only the greatest one does.  What
is written of a decimal that is not negative is one number, before the end of the input and before what ends
a literal. -/
theorem literals_agree (g : Grammar) (source : List Char) :
    (∀ token, .ok token ∈ tokenize source → token.kind = .number →
      (∃ whole fraction n, NumeralParts token.text.toList whole fraction n) ∧
        ∀ whole fraction n, NumeralParts token.text.toList whole fraction n →
          IsTaken token.text fraction n) ∧
    ((∀ op, ¬ Reading.AtTop g op) → Statement.parse? g source ≠ .error .overflow) ∧
    (∀ span, Statement.parse? g source = .error (.refused ⟨span, .malformedNumber⟩) ↔
      Statement.parse? g source ≠ .error .overflow ∧
      ∃ k token number, (tokenize source)[k]? = some (.ok token) ∧ token.kind = .number ∧
        token.span = span ∧ (∃ why, Decimal.ofText? token.text = .error why) ∧
        number.kind = .number ∧ Viable ((tokenize source).take k ++ [.ok number])) ∧
    ∀ (value : Decimal) (before more : List Char), value.isNegative = false → EndsLiteral more →
      (Lexer.behind before (value.toChars ++ more)).next? =
        some (.ok ⟨.number, value.toText, .behind before value.toChars⟩,
          .behind (before ++ value.toChars) more) := by
  refine ⟨fun token hmem hkind => ?_, fun h => parse?_ne_overflow h source,
    fun span => parse?_malformedNumber_iff, ?_⟩
  · obtain ⟨front, more, _, hbetween⟩ :=
      (tiles_tokenize source).between (by simp [LettersApart]) hmem (by simp [hkind])
    exact ⟨(hbetween.number hkind).1.exists_parts, fun _ _ _ hparts => hparts.isTaken⟩
  · intro value before more hvalue hends
    have hnext := Lexer.next?_token before (List.forall_mem_nil _) (isLongest_toChars hvalue hends)
    rw [List.append_nil] at hnext
    exact hnext

end Abacus
