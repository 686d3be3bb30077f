import Abacus.Decimal.Text
import Mathlib

/-!
# Written decimals read back

The written form of a decimal is a sign, one digit at least and, if the scale is positive, a point
with as many digits as the scale says (`toChars_eq`).  Digits around a point read as the number that
they write (`ofChars?_numeral`).  Together: a decimal reads back as itself, or at scale zero if its
own scale is negative, which is `ofText?_toText`.
-/

namespace Abacus

/-- All characters are digits. -/
def AllDigits (cs : List Char) : Prop := ∀ c ∈ cs, c.isDigit = true

theorem AllDigits.nil : AllDigits [] := by
  simp [AllDigits]

theorem AllDigits.append {cs more : List Char} (h : AllDigits cs) (h' : AllDigits more) :
    AllDigits (cs ++ more) := by
  intro c hc
  rcases List.mem_append.mp hc with hc | hc
  · exact h c hc
  · exact h' c hc

theorem allDigits_toDigits (n : Nat) : AllDigits (Nat.toDigits 10 n) :=
  fun _ hc => Nat.isDigit_of_mem_toDigits (by decide) (by decide) hc

theorem allDigits_zeros (n : Nat) : AllDigits (List.replicate n '0') := by
  intro c hc
  rw [List.eq_of_mem_replicate hc]
  decide

theorem digitValue_append_zeros (digits : List Char) (n : Nat) :
    digitValue (digits ++ List.replicate n '0') = digitValue digits * 10 ^ n := by
  rw [digitValue, Nat.ofDigitChars_append, Nat.ofDigitChars_replicate_zero, Nat.mul_comm]
  rfl

theorem digitValue_zeros_append (digits : List Char) (n : Nat) :
    digitValue (List.replicate n '0' ++ digits) = digitValue digits := by
  rw [digitValue, Nat.ofDigitChars_append, Nat.ofDigitChars_replicate_zero, Nat.mul_zero]
  rfl

/-- What stands behind the digits before the point. -/
def pointPart (fraction : List Char) : List Char :=
  if fraction = [] then [] else '.' :: fraction

/-! ## Writing -/

namespace Decimal

/-- The sign that a decimal is written with. -/
def signChars (x : Decimal) : List Char := if x.isNegative then ['-'] else []

/-- The written form: a sign, digits, and a point with as many digits as the scale says. -/
theorem toChars_eq (x : Decimal) :
    ∃ whole fraction, whole ≠ [] ∧ AllDigits whole ∧ AllDigits fraction ∧
      fraction.length = x.scale.toNat ∧
      digitValue (whole ++ fraction) = x.unscaled.natAbs * 10 ^ (-x.scale).toNat ∧
      x.toChars = x.signChars ++ whole ++ pointPart fraction := by
  have hdigits := allDigits_toDigits x.unscaled.natAbs
  by_cases hscale : x.scale ≤ 0
  · refine ⟨Nat.toDigits 10 x.unscaled.natAbs ++
      if x.isZero then [] else List.replicate (-x.scale).toNat '0', [], ?_, ?_, .nil, ?_, ?_, ?_⟩
    · simp [Nat.toDigits_ne_nil]
    · refine hdigits.append ?_
      split
      · exact .nil
      · exact allDigits_zeros _
    · simp
      omega
    · split
      · rename_i hzero
        have hzero : x.unscaled = 0 := by simpa [isZero] using hzero
        rw [List.append_nil, List.append_nil, digitValue_toDigits, hzero]
        simp
      · rw [List.append_nil, digitValue_append_zeros, digitValue_toDigits]
    · simp [toChars, hscale, signChars, pointPart]
  · have hplaces : (-x.scale).toNat = 0 := by omega
    generalize hpadded : List.replicate (x.scale.toNat + 1 -
      (Nat.toDigits 10 x.unscaled.natAbs).length) '0' ++ Nat.toDigits 10 x.unscaled.natAbs = padded
    have hlength : x.scale.toNat + 1 ≤ padded.length := by
      rw [← hpadded, List.length_append, List.length_replicate]
      omega
    have hall : AllDigits padded := hpadded ▸ (allDigits_zeros _).append hdigits
    have hfraction : (padded.drop (padded.length - x.scale.toNat)).length = x.scale.toNat := by
      rw [List.length_drop]
      omega
    refine ⟨padded.take (padded.length - x.scale.toNat),
      padded.drop (padded.length - x.scale.toNat), ?_, ?_, ?_, hfraction, ?_, ?_⟩
    · intro hnil
      have htake := congrArg List.length hnil
      rw [List.length_take, List.length_nil] at htake
      omega
    · exact fun c hc => hall c (List.mem_of_mem_take hc)
    · exact fun c hc => hall c (List.mem_of_mem_drop hc)
    · rw [List.take_append_drop, ← hpadded, digitValue_zeros_append, digitValue_toDigits, hplaces,
        Nat.pow_zero, Nat.mul_one]
    · have hne : padded.drop (padded.length - x.scale.toNat) ≠ [] := by
        intro hnil
        rw [hnil, List.length_nil] at hfraction
        omega
      simp only [toChars, hscale, if_false, hpadded, pointPart, if_neg hne, signChars,
        List.append_assoc]

end Decimal

/-! ## Reading -/

theorem isDigit_ne {c d : Char} (hc : c.isDigit = true) (hd : d.isDigit = false) : c ≠ d := by
  intro heq
  rw [heq, hd] at hc
  cases hc

theorem isDigit_iff {c : Char} : c.isDigit = true ↔ 48 ≤ c.toNat ∧ c.toNat ≤ 57 := by
  simp only [Char.isDigit, Bool.and_eq_true, decide_eq_true_eq, ge_iff_le, UInt32.le_iff_toNat_le]
  rfl

/-- The characters that a numeral can have. -/
def IsNumeralChar (c : Char) : Prop := c.isDigit = true ∨ c ∈ ['.', '+', '-', 'e', 'E']

theorem isBlank_of_isNumeralChar {c : Char} (h : IsNumeralChar c) : isBlank c = false := by
  rcases h with h | h
  · have hrange := isDigit_iff.mp h
    simp [isBlank]
    omega
  · simp only [List.mem_cons, List.not_mem_nil, or_false] at h
    rcases h with rfl | rfl | rfl | rfl | rfl <;> decide

theorem trimBlanks_eq_self {cs : List Char} (h : ∀ c ∈ cs, isBlank c = false) :
    trimBlanks cs = cs := by
  have hdrop : ∀ more : List Char, (∀ c ∈ more, isBlank c = false) →
      more.dropWhile isBlank = more := by
    intro more hmore
    cases more with
    | nil => rfl
    | cons c more => rw [List.dropWhile_cons_of_neg (by simp [hmore c (List.mem_cons_self ..)])]
  rw [trimBlanks, hdrop cs h, hdrop cs.reverse (fun c hc => h c (List.mem_reverse.mp hc)),
    List.reverse_reverse]

theorem splitFirst_eq_none {stop : Char → Bool} {cs : List Char} (h : ∀ c ∈ cs, stop c = false) :
    splitFirst stop cs = (cs, none) := by
  induction cs with
  | nil => rfl
  | cons c cs ih =>
    rw [splitFirst, if_neg (by simp [h c (List.mem_cons_self ..)]),
      ih fun d hd => h d (List.mem_cons_of_mem _ hd)]

theorem splitFirst_append {stop : Char → Bool} {cs : List Char} (h : ∀ c ∈ cs, stop c = false)
    {c : Char} (hc : stop c = true) (more : List Char) :
    splitFirst stop (cs ++ c :: more) = (cs, some more) := by
  induction cs with
  | nil => rw [List.nil_append, splitFirst, if_pos hc]
  | cons d cs ih =>
    rw [List.cons_append, splitFirst, if_neg (by simp [h d (List.mem_cons_self ..)]),
      ih fun d hd => h d (List.mem_cons_of_mem _ hd)]

/-- Digits around a point are split there. -/
theorem splitFirst_point {whole : List Char} (hwhole : AllDigits whole) (fraction : List Char) :
    (splitFirst (· == '.') (whole ++ pointPart fraction)).1 = whole ∧
      (splitFirst (· == '.') (whole ++ pointPart fraction)).2.getD [] = fraction := by
  have hno : ∀ c ∈ whole, (c == '.') = false := by
    intro c hc
    simpa using isDigit_ne (hwhole c hc) (by decide)
  unfold pointPart
  split
  · rename_i hnil
    rw [List.append_nil, splitFirst_eq_none hno]
    exact ⟨rfl, hnil.symm⟩
  · rw [splitFirst_append hno (by decide)]
    exact ⟨rfl, rfl⟩

namespace Decimal

/-- What stands before an exponent. -/
def mantissaChars (negative : Bool) (whole fraction : List Char) : List Char :=
  (if negative then ['-'] else []) ++ whole ++ pointPart fraction

theorem mem_mantissaChars {negative : Bool} {whole fraction : List Char}
    (hwhole : AllDigits whole) (hfraction : AllDigits fraction) {c : Char}
    (hc : c ∈ mantissaChars negative whole fraction) : c.isDigit = true ∨ c = '.' ∨ c = '-' := by
  unfold mantissaChars pointPart at hc
  rcases List.mem_append.mp hc with hc | hc
  · rcases List.mem_append.mp hc with hc | hc
    · split at hc
      · exact Or.inr (Or.inr (List.mem_singleton.mp hc))
      · cases hc
    · exact Or.inl (hwhole c hc)
  · split at hc
    · cases hc
    · rcases List.mem_cons.mp hc with hpoint | hc
      · exact Or.inr (Or.inl hpoint)
      · exact Or.inl (hfraction c hc)

theorem isNumeralChar_mantissaChars {negative : Bool} {whole fraction : List Char}
    (hwhole : AllDigits whole) (hfraction : AllDigits fraction) :
    ∀ c ∈ mantissaChars negative whole fraction, IsNumeralChar c := by
  intro c hc
  rcases mem_mantissaChars hwhole hfraction hc with h | h | h
  · exact Or.inl h
  · exact Or.inr (by simp [h])
  · exact Or.inr (by simp [h])

/-- Behind the sign there are only digits and a point. -/
theorem splitSign_mantissaChars {negative : Bool} {whole fraction : List Char}
    (hwhole : AllDigits whole) (hne : whole ≠ [] ∨ fraction ≠ []) :
    splitSign (mantissaChars negative whole fraction) =
      (negative, whole ++ pointPart fraction) := by
  cases negative with
  | true => simp [mantissaChars, splitSign]
  | false =>
    simp only [mantissaChars, Bool.false_eq_true, if_false, List.nil_append]
    cases whole with
    | nil =>
      have hfraction : fraction ≠ [] := hne.resolve_left (fun h => h rfl)
      simp [pointPart, hfraction, splitSign]
    | cons c whole =>
      have hc := hwhole c (List.mem_cons_self ..)
      unfold splitSign
      split
      · rename_i heq
        exact absurd (List.cons.inj heq).1 (isDigit_ne hc (by decide))
      · rename_i heq
        exact absurd (List.cons.inj heq).1 (isDigit_ne hc (by decide))
      · rfl

/-- The digits before and after the point of what stands before an exponent. -/
def mantissaDigits (mantissa : List Char) : List Char × List Char :=
  let (whole, fraction) := splitFirst (· == '.') (splitSign mantissa).2
  (whole, fraction.getD [])

/-- The number that the digits around a point write, with an exponent. -/
def ofMantissa (mantissa : List Char) (exponent : Int) : Decimal :=
  let (whole, fraction) := mantissaDigits mantissa
  ⟨signed (splitSign mantissa).1 (digitValue (whole ++ fraction)), fraction.length - exponent⟩

/-- A text with digits around a point is a number as far as its scale is in range. -/
theorem ofChars?_of_mantissaDigits {text mantissa whole fraction : List Char} {exponent : Int}
    (h : splitExponent text = .ok (mantissa, exponent))
    (hdigits : mantissaDigits mantissa = (whole, fraction)) (hwhole : AllDigits whole)
    (hfraction : AllDigits fraction) (hne : whole ≠ [] ∨ fraction ≠ []) :
    ofChars? text =
      if ScaleInRange (fraction.length - exponent) then
        .ok ⟨signed (splitSign mantissa).1 (digitValue (whole ++ fraction)),
          fraction.length - exponent⟩
      else .error .exponent := by
  have hempty : (whole.isEmpty && fraction.isEmpty) = false := by
    rcases hne with hne | hne <;> simp [hne]
  have hall : (!whole.all Char.isDigit || !fraction.all Char.isDigit) = false := by
    simp [List.all_eq_true.mpr hwhole, List.all_eq_true.mpr hfraction]
  obtain ⟨hfirst, hsecond⟩ := Prod.mk.inj hdigits
  unfold ofChars?
  rw [h]
  simp only [bind, Except.bind]
  rw [hfirst, hsecond, hempty, hall]
  rfl

/-- A text that is a number has digits around a point before its exponent, and its scale is in
range. -/
theorem ofChars?_eq_ok {text : List Char} {z : Decimal} (h : ofChars? text = .ok z) :
    ∃ mantissa exponent, splitExponent text = .ok (mantissa, exponent) ∧
      AllDigits (mantissaDigits mantissa).1 ∧ AllDigits (mantissaDigits mantissa).2 ∧
      z = ofMantissa mantissa exponent ∧ ScaleInRange z.scale := by
  unfold ofChars? at h
  cases hsplit : splitExponent text with
  | error error =>
    rw [hsplit] at h
    cases h
  | ok parts =>
    rw [hsplit] at h
    simp only [bind, Except.bind, pure, Except.pure, throw, throwThe, MonadExceptOf.throw] at h
    split at h
    · cases h
    · split at h
      · cases h
      · rename_i hdigits
        simp only [Bool.or_eq_true, Bool.not_eq_true', not_or, Bool.not_eq_false,
          List.all_eq_true] at hdigits
        split at h
        · rename_i hrange
          obtain rfl := Except.ok.inj h
          exact ⟨parts.1, parts.2, rfl, hdigits.1, hdigits.2, rfl, hrange⟩
        · cases h

theorem mantissaDigits_mantissaChars {negative : Bool} {whole fraction : List Char}
    (hwhole : AllDigits whole) (hne : whole ≠ [] ∨ fraction ≠ []) :
    mantissaDigits (mantissaChars negative whole fraction) = (whole, fraction) := by
  obtain ⟨hfirst, hsecond⟩ := splitFirst_point hwhole fraction
  rw [mantissaDigits, splitSign_mantissaChars hwhole hne]
  exact Prod.ext hfirst hsecond

/-- A numeral reads as the number that its digits write. -/
theorem ofChars?_of_splitExponent {text : List Char} {negative : Bool} {whole fraction : List Char}
    {exponent : Int} (hwhole : AllDigits whole) (hfraction : AllDigits fraction)
    (hne : whole ≠ [] ∨ fraction ≠ [])
    (h : splitExponent text = .ok (mantissaChars negative whole fraction, exponent)) :
    ofChars? text =
      if ScaleInRange (fraction.length - exponent) then
        .ok ⟨signed negative (digitValue (whole ++ fraction)), fraction.length - exponent⟩
      else .error .exponent := by
  have hsign := @splitSign_mantissaChars negative _ fraction hwhole hne
  have hdigits := @mantissaDigits_mantissaChars negative _ fraction hwhole hne
  rw [ofChars?_of_mantissaDigits h hdigits hwhole hfraction hne, hsign]

theorem not_exponent_mantissaChars {whole fraction : List Char} (hwhole : AllDigits whole)
    (hfraction : AllDigits fraction) (negative : Bool) :
    ∀ c ∈ mantissaChars negative whole fraction, (c == 'e' || c == 'E') = false := by
  intro c hc
  rcases mem_mantissaChars hwhole hfraction hc with h | h | h
  · simpa using And.intro (isDigit_ne h (d := 'e') (by decide)) (isDigit_ne h (d := 'E') (by decide))
  · rw [h]
    decide
  · rw [h]
    decide

theorem trimBlanks_toChars (x : Decimal) : trimBlanks x.toChars = x.toChars := by
  obtain ⟨whole, fraction, _, hwhole, hfraction, _, _, heq⟩ := x.toChars_eq
  have hchars : x.toChars = mantissaChars x.isNegative whole fraction := heq
  refine trimBlanks_eq_self fun c hc => isBlank_of_isNumeralChar ?_
  rw [hchars] at hc
  exact isNumeralChar_mantissaChars hwhole hfraction c hc

/-- A written decimal has no exponent. -/
theorem splitExponent_toChars (x : Decimal) : splitExponent x.toChars = .ok (x.toChars, 0) := by
  obtain ⟨whole, fraction, _, hwhole, hfraction, _, _, heq⟩ := x.toChars_eq
  have hchars : x.toChars = mantissaChars x.isNegative whole fraction := heq
  rw [hchars, splitExponent, splitFirst_eq_none (not_exponent_mantissaChars hwhole hfraction _)]

/-- The digits of a written decimal write the decimal, at scale zero if its scale is negative. -/
theorem ofMantissa_toChars (x : Decimal) :
    ofMantissa x.toChars 0 = ⟨x.unscaled * 10 ^ (-x.scale).toNat, max x.scale 0⟩ := by
  obtain ⟨whole, fraction, hne, hwhole, hfraction, hlength, hvalue, heq⟩ := x.toChars_eq
  have hchars : x.toChars = mantissaChars x.isNegative whole fraction := heq
  have hscale : (fraction.length : Int) - 0 = max x.scale 0 := by
    rw [hlength]
    omega
  have hsigned : signed x.isNegative (digitValue (whole ++ fraction)) =
      x.unscaled * 10 ^ (-x.scale).toNat := by
    by_cases hneg : x.unscaled < 0
    · have habs : (x.unscaled.natAbs : Int) = -x.unscaled := by omega
      simp [hvalue, signed, isNegative, hneg, habs]
    · have habs : (x.unscaled.natAbs : Int) = x.unscaled := by omega
      simp [hvalue, signed, isNegative, hneg, habs]
  rw [ofMantissa, hchars, mantissaDigits_mantissaChars hwhole (.inl hne),
    splitSign_mantissaChars hwhole (.inl hne)]
  dsimp only
  rw [hscale, hsigned]

/-- A text that writes a decimal reads as nothing else. -/
theorem eq_of_ofText?_toText {x z : Decimal} (h : ofText? x.toText = .ok z) :
    z = ⟨x.unscaled * 10 ^ (-x.scale).toNat, max x.scale 0⟩ := by
  rw [ofText?, toText, String.toList_ofList, trimBlanks_toChars] at h
  obtain ⟨mantissa, exponent, hsplit, _, _, hz, _⟩ := ofChars?_eq_ok h
  obtain ⟨rfl, rfl⟩ := Prod.mk.inj (Except.ok.inj (x.splitExponent_toChars.symm.trans hsplit))
  rw [hz, ofMantissa_toChars]

/-- A written decimal reads as itself, and at scale zero if its scale is negative.  Only a scale that is too
great keeps it from being read. -/
theorem ofText?_toText_of_le {x : Decimal} (h : x.scale ≤ 2147483647) :
    ofText? x.toText = .ok ⟨x.unscaled * 10 ^ (-x.scale).toNat, max x.scale 0⟩ := by
  obtain ⟨whole, fraction, hne, hwhole, hfraction, _, _, heq⟩ := x.toChars_eq
  have hchars : x.toChars = mantissaChars x.isNegative whole fraction := heq
  have hdigits : mantissaDigits x.toChars = (whole, fraction) := by
    rw [hchars, mantissaDigits_mantissaChars hwhole (.inl hne)]
  have hwritten := x.ofMantissa_toChars
  rw [ofMantissa, hdigits] at hwritten
  have hscale : (fraction.length : Int) - 0 = max x.scale 0 := congrArg scale hwritten
  have hrange : ScaleInRange (fraction.length - 0) := by
    rw [hscale]
    unfold ScaleInRange
    omega
  rw [ofText?, toText, String.toList_ofList, trimBlanks_toChars,
    ofChars?_of_mantissaDigits x.splitExponent_toChars hdigits hwhole hfraction (.inl hne),
    if_pos hrange]
  exact congrArg Except.ok hwritten

theorem ofText?_toText {x : Decimal} (h : ScaleInRange x.scale) :
    ofText? x.toText = .ok ⟨x.unscaled * 10 ^ (-x.scale).toNat, max x.scale 0⟩ :=
  ofText?_toText_of_le h.2

theorem toDigits_mul_pow {n : Nat} (hn : 0 < n) (k : Nat) :
    Nat.toDigits 10 (n * 10 ^ k) = Nat.toDigits 10 n ++ List.replicate k '0' := by
  induction k with
  | zero => simp
  | succ k ih =>
    have hpos : 0 < n * 10 ^ k := Nat.mul_pos hn (Nat.pow_pos (by decide))
    have hmul : n * 10 ^ (k + 1) = 10 * (n * 10 ^ k) + 0 := by
      rw [Nat.pow_succ, ← Nat.mul_assoc, Nat.mul_comm, Nat.add_zero]
    rw [hmul, ← Nat.toDigits_append_toDigits (by decide) hpos (by decide), ih, Nat.toDigits_zero,
      List.append_assoc, List.replicate_succ']

/-- What a decimal reads back as is written in the same way. -/
theorem toText_rewritten (x : Decimal) :
    toText ⟨x.unscaled * 10 ^ (-x.scale).toNat, max x.scale 0⟩ = x.toText := by
  by_cases hscale : x.scale ≤ 0
  · have hpos : (0 : Int) < 10 ^ (-x.scale).toNat := Int.pow_pos (by decide)
    have hneg : x.unscaled * 10 ^ (-x.scale).toNat < 0 ↔ x.unscaled < 0 := by
      constructor
      · intro hless
        by_cases hx : x.unscaled < 0
        · exact hx
        · have hprod := Int.mul_nonneg (Int.not_lt.mp hx) (Int.le_of_lt hpos)
          omega
      · exact fun hx => Int.mul_neg_of_neg_of_pos hx hpos
    by_cases hzero : x.unscaled = 0
    · simp [toText, toChars, hscale, isNegative, isZero, hzero]
    · have hdigits := toDigits_mul_pow (Int.natAbs_pos.mpr hzero) (-x.scale).toNat
      simp [toText, toChars, hscale, isNegative, isZero, hzero, hneg, Int.natAbs_mul,
        Int.natAbs_pow, hdigits]
  · have hplaces : (-x.scale).toNat = 0 := by omega
    have hmax : max x.scale 0 = x.scale := by omega
    rw [hplaces, hmax, Int.pow_zero, Int.mul_one]

end Decimal

end Abacus
