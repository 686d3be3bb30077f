import Abacus.Proofs.Decimal.Value
import Abacus.Proofs.Decimal.Written

/-!
# What reads as a decimal

A text that reads as a decimal has only signs, digits, points and letters of exponents, and blanks
around them (`isNumeralChar_of_ofText?`).  What writes a decimal has its value if it reads as a decimal at
all, and two decimals that are written in the same way are equal.  A decimal with a scale in range always
reads back (`reads_as_written`).
-/

namespace Abacus

/-! ## Characters -/

/-- Only blanks are trimmed. -/
theorem mem_trimBlanks {cs : List Char} {c : Char} (hc : c ∈ cs) (hblank : isBlank c = false) :
    c ∈ trimBlanks cs := by
  have hdrop : ∀ more : List Char, c ∈ more → c ∈ more.dropWhile isBlank := by
    intro more hmem
    induction more with
    | nil => exact hmem
    | cons d more ih =>
      by_cases hd : isBlank d = true
      · rw [List.dropWhile_cons_of_pos hd]
        rcases List.mem_cons.mp hmem with rfl | hmem
        · rw [hblank] at hd
          cases hd
        · exact ih hmem
      · rwa [List.dropWhile_cons_of_neg hd]
  exact List.mem_reverse.mpr (hdrop _ (List.mem_reverse.mpr (hdrop cs hc)))

/-- A text is the part before the split, the character that is split at, and the part after it. -/
theorem splitFirst_eq {stop : Char → Bool} {cs before : List Char} {after : Option (List Char)}
    (h : splitFirst stop cs = (before, after)) :
    (after = none ∧ cs = before) ∨
      ∃ c rest, stop c = true ∧ after = some rest ∧ cs = before ++ c :: rest := by
  induction cs generalizing before with
  | nil =>
    obtain ⟨rfl, rfl⟩ := Prod.mk.inj h
    exact .inl ⟨rfl, rfl⟩
  | cons c cs ih =>
    rw [splitFirst] at h
    split at h
    · rename_i hc
      obtain ⟨rfl, rfl⟩ := Prod.mk.inj h
      exact .inr ⟨c, cs, hc, rfl, rfl⟩
    · obtain ⟨rfl, rfl⟩ := Prod.mk.inj h
      rcases ih rfl with ⟨hnone, hcs⟩ | ⟨d, rest, hd, hsome, hcs⟩
      · exact .inl ⟨hnone, congrArg (c :: ·) hcs⟩
      · exact .inr ⟨d, rest, hd, hsome, congrArg (c :: ·) hcs⟩

theorem mem_splitSign {cs : List Char} {c : Char} (h : c ∈ cs) :
    c ∈ ['+', '-'] ∨ c ∈ (splitSign cs).2 := by
  unfold splitSign
  split
  · rcases List.mem_cons.mp h with rfl | hrest
    · exact .inl (by decide)
    · exact .inr hrest
  · rcases List.mem_cons.mp h with rfl | hrest
    · exact .inl (by decide)
    · exact .inr hrest
  · exact .inr h

theorem IsNumeralChar.of_sign {c : Char} (h : c ∈ ['+', '-']) : IsNumeralChar c := by
  refine .inr ?_
  simp only [List.mem_cons, List.not_mem_nil, or_false] at h ⊢
  tauto

/-- An exponent has a sign and digits. -/
theorem isNumeralChar_exponent? {cs : List Char} {exponent : Int} (h : exponent? cs = some exponent) :
    ∀ c ∈ cs, IsNumeralChar c := by
  intro c hc
  unfold exponent? at h
  simp only [Option.ite_none_left_eq_some] at h
  have hdigits := h.1
  simp only [Bool.or_eq_true, Bool.not_eq_true', not_or, Bool.not_eq_false, List.all_eq_true] at hdigits
  rcases mem_splitSign hc with hsign | hrest
  · exact .of_sign hsign
  · exact .inl (hdigits.2 c hrest)

namespace Decimal

/-- What stands before an exponent has a sign, and digits around a point. -/
theorem isNumeralChar_mantissa {mantissa : List Char} (hwhole : AllDigits (mantissaDigits mantissa).1)
    (hfraction : AllDigits (mantissaDigits mantissa).2) : ∀ c ∈ mantissa, IsNumeralChar c := by
  intro c hc
  rcases mem_splitSign hc with hsign | hrest
  · exact .of_sign hsign
  · unfold mantissaDigits at hwhole hfraction
    cases hsplit : splitFirst (· == '.') (splitSign mantissa).2 with
    | mk whole fraction =>
      rw [hsplit] at hwhole hfraction
      obtain ⟨_, hcs⟩ | ⟨point, rest, hpoint, rfl, hcs⟩ := splitFirst_eq hsplit
      · rw [hcs] at hrest
        exact .inl (hwhole c hrest)
      · rw [hcs] at hrest
        rcases List.mem_append.mp hrest with hmem | hmem
        · exact .inl (hwhole c hmem)
        · rcases List.mem_cons.mp hmem with rfl | hmem
          · rw [beq_iff_eq.mp hpoint]
            exact .inr (by decide)
          · exact .inl (hfraction c hmem)

theorem isNumeralChar_of_splitExponent {cs mantissa : List Char} {exponent : Int}
    (h : splitExponent cs = .ok (mantissa, exponent)) (hmantissa : ∀ c ∈ mantissa, IsNumeralChar c) :
    ∀ c ∈ cs, IsNumeralChar c := by
  unfold splitExponent at h
  intro c hc
  cases hsplit : splitFirst (fun c => c == 'e' || c == 'E') cs with
  | mk before after =>
    rw [hsplit] at h
    obtain ⟨rfl, rfl⟩ | ⟨mark, rest, hmark, rfl, rfl⟩ := splitFirst_eq hsplit
    · obtain ⟨rfl, rfl⟩ := Prod.mk.inj (Except.ok.inj h)
      exact hmantissa c hc
    · dsimp only at h
      split at h
      · rename_i hexponent
        obtain ⟨rfl, rfl⟩ := Prod.mk.inj (Except.ok.inj h)
        rcases List.mem_append.mp hc with hmem | hmem
        · exact hmantissa c hmem
        · rcases List.mem_cons.mp hmem with rfl | hmem
          · refine .inr ?_
            simp only [Bool.or_eq_true, beq_iff_eq] at hmark
            rcases hmark with rfl | rfl <;> decide
          · exact isNumeralChar_exponent? hexponent c hmem
      · cases h

/-- A text that reads as a decimal has the characters of numerals, and blanks. -/
theorem isNumeralChar_of_ofText? {text : String} {z : Decimal} (h : ofText? text = .ok z) :
    ∀ c ∈ text.toList, isBlank c = false → IsNumeralChar c := by
  intro c hc hblank
  obtain ⟨mantissa, exponent, hsplit, hwhole, hfraction, _⟩ := ofChars?_eq_ok h
  have hmantissa := isNumeralChar_mantissa hwhole hfraction
  exact isNumeralChar_of_splitExponent hsplit hmantissa c (mem_trimBlanks hc hblank)

/-! ## Values -/

/-- Written at scale zero at least, a decimal has its value. -/
theorem value_rewritten (x : Decimal) :
    value ⟨x.unscaled * 10 ^ (-x.scale).toNat, max x.scale 0⟩ = x.value := by
  have hplaces : (-x.scale).toNat = (max x.scale 0 - x.scale).toNat := by omega
  rw [hplaces]
  exact value_unscaledAt (le_max_left ..)

/-- What writes a decimal reads as its value. -/
theorem value_of_ofText?_toText {x z : Decimal} (h : ofText? x.toText = .ok z) :
    z.value = x.value := by
  rw [eq_of_ofText?_toText h, value_rewritten]

/-- Decimals that are written in the same way are equal. -/
theorem value_eq_of_toText_eq {x y : Decimal} (h : x.toText = y.toText) : x.value = y.value := by
  rw [← value_rewritten x, ← value_rewritten y, ← ofMantissa_toChars, ← ofMantissa_toChars,
    String.ofList_injective h]

/-! ## Written and read -/

theorem not_mem_toChars (x : Decimal) {c : Char} (hdigit : c.isDigit = false) (hpoint : c ≠ '.')
    (hminus : c ≠ '-') : c ∉ x.toChars := by
  obtain ⟨whole, fraction, _, hwhole, hfraction, _, _, heq⟩ := x.toChars_eq
  have hchars : x.toChars = mantissaChars x.isNegative whole fraction := heq
  intro hc
  rw [hchars] at hc
  rcases mem_mantissaChars hwhole hfraction hc with h | h | h
  · rw [hdigit] at h
    cases h
  · exact hpoint h
  · exact hminus h

/-- A decimal that is written reads back: exactly, if its scale is not negative, and otherwise as the same
number at scale zero.  The text has a sign, one digit at least, and behind a point as many digits as the
scale says.  It has no exponent. -/
theorem reads_as_written {x : Decimal} (h : ScaleInRange x.scale) :
    (∃ z, ofText? x.toText = .ok z ∧ (0 ≤ x.scale → z = x) ∧
      (x.scale < 0 → z.scale = 0 ∧ z.value = x.value)) ∧
    (∃ whole fraction, x.toText.toList = x.signChars ++ whole ++ pointPart fraction ∧
      whole ≠ [] ∧ AllDigits whole ∧ AllDigits fraction ∧
      (fraction.length : Int) = max x.scale 0) ∧
    'e' ∉ x.toText.toList ∧ 'E' ∉ x.toText.toList := by
  have hread := ofText?_toText h
  have htext : x.toText.toList = x.toChars := String.toList_ofList
  obtain ⟨whole, fraction, hne, hwhole, hfraction, hlength, _, hchars⟩ := x.toChars_eq
  refine ⟨⟨_, hread, ?_, ?_⟩, ⟨whole, fraction, ?_, hne, hwhole, hfraction, ?_⟩, ?_, ?_⟩
  · intro hscale
    have hplaces : (-x.scale).toNat = 0 := by omega
    rw [hplaces, Int.pow_zero, Int.mul_one, max_eq_left hscale]
  · intro hscale
    exact ⟨max_eq_right hscale.le, value_rewritten x⟩
  · rw [htext, hchars]
  · rw [hlength]
    omega
  · rw [htext]
    exact x.not_mem_toChars (by decide) (by decide) (by decide)
  · rw [htext]
    exact x.not_mem_toChars (by decide) (by decide) (by decide)

/-- Zeros are filled in behind the point of `-0.005`, and before the end of `-1200`. -/
theorem reads_as_written_of_zeros :
    ofText? "-0.005" = .ok ⟨-5, 3⟩ ∧
      ∃ z, ofText? "-1200" = .ok z ∧ z.scale = 0 ∧ z.value = value ⟨-12, -2⟩ := by
  obtain ⟨⟨z, hz, hsame, _⟩, _⟩ := reads_as_written (x := ⟨-5, 3⟩) (by decide)
  obtain ⟨⟨w, hw, _, hvalue⟩, _⟩ := reads_as_written (x := ⟨-12, -2⟩) (by decide)
  have htext : toText ⟨-5, 3⟩ = "-0.005" := by decide
  have htext' : toText ⟨-12, -2⟩ = "-1200" := by decide
  refine ⟨?_, w, ?_, hvalue (by decide)⟩
  · rw [← htext, hz, hsame (by decide)]
  · rw [← htext', hw]

end Decimal

end Abacus
