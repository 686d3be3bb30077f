import Abacus.Proofs.Decimal.Read

/-!
# The grammar of decimal literals

A literal is an optional sign, digits with at most one point among them and an optional exponent, with
blanks around the whole.  `IsLiteral` is this grammar with the decimal that is written, without saying how
a reader finds the parts.

A reader looks for the first `e` or `E`, takes a sign off the front and cuts the rest at the first point.
`Sides` says what it finds; every text has sides unless no exponent follows some `e`
(`exists_sides`), and what comes out depends on the sides alone (`ofChars?_of_sides`).  With these two
lemmas the grammar and the order of the errors are case distinctions: `ofText?_reads`.
-/

namespace Abacus

/-- One digit at least and nothing else. -/
def IsDigits (cs : List Char) : Prop := cs ≠ [] ∧ AllDigits cs

/-- An optional sign, with whether it is a minus. -/
inductive IsSign : List Char → Bool → Prop
  | none : IsSign [] false
  | plus : IsSign ['+'] false
  | minus : IsSign ['-'] true

/-- The letter starts an exponent. -/
def IsExponentLetter (c : Char) : Prop := c = 'e' ∨ c = 'E'

/-- The text writes an integer, with an optional sign. -/
inductive WritesInteger : List Char → Int → Prop
  | intro {sign digits : List Char} {negative : Bool} (hsign : IsSign sign negative)
      (hdigits : IsDigits digits) :
      WritesInteger (sign ++ digits) (signed negative (digitValue digits))

/-- The text writes an integer that an exponent can be: one of 32 bits with a sign. -/
def IsExponent (cs : List Char) (n : Int) : Prop :=
  WritesInteger cs n ∧ -2147483648 ≤ n ∧ n ≤ 2147483647

/-- An optional exponent with its letter, and what it is. -/
inductive ExponentPart : List Char → Int → Prop
  | none : ExponentPart [] 0
  | some {letter : Char} {suffix : List Char} {n : Int} (hletter : IsExponentLetter letter)
      (hsuffix : IsExponent suffix n) : ExponentPart (letter :: suffix) n

/-- An optional point, and what stands behind it. -/
inductive FractionPart : List Char → List Char → Prop
  | none : FractionPart [] []
  | some (behind : List Char) : FractionPart ('.' :: behind) behind

/-- The text without the blanks at its ends. -/
def IsTrimmed (cs trimmed : List Char) : Prop :=
  ∃ front back, cs = front ++ trimmed ++ back ∧ (∀ c ∈ front, isBlank c = true) ∧
    (∀ c ∈ back, isBlank c = true) ∧ (∀ c ∈ trimmed.head?, isBlank c = false) ∧
    ∀ c ∈ trimmed.getLast?, isBlank c = false

namespace Decimal

/-- The text is a literal, and writes this decimal. -/
inductive IsLiteral : List Char → Decimal → Prop
  | intro {sign whole point fraction exponent : List Char} {negative : Bool} {n : Int}
      (hsign : IsSign sign negative) (hwhole : AllDigits whole) (hpoint : FractionPart point fraction)
      (hfraction : AllDigits fraction) (hne : whole ≠ [] ∨ fraction ≠ [])
      (hexponent : ExponentPart exponent n) (hscale : ScaleInRange (fraction.length - n)) :
      IsLiteral (sign ++ whole ++ point ++ exponent)
        ⟨signed negative (digitValue (whole ++ fraction)), fraction.length - n⟩

/-- Behind some letter that starts an exponent stands none. -/
def HasBadExponent (cs : List Char) : Prop :=
  ∃ front letter suffix, cs = front ++ letter :: suffix ∧ IsExponentLetter letter ∧
    ∀ n, ¬IsExponent suffix n

/-- What stands on the two sides of the first point, behind the sign and before the exponent.  A sign in
front is never part of a side. -/
structure Sides (cs : List Char) (negative : Bool) (before after : List Char) (n : Int) : Prop where
  split : ∃ sign point exponent, cs = sign ++ before ++ point ++ exponent ∧ IsSign sign negative ∧
    (sign = [] → ∀ c ∈ before.head?, c ∉ ['+', '-']) ∧ FractionPart point after ∧
    ExponentPart exponent n
  no_point : '.' ∉ before
  no_letter : ∀ c ∈ before ++ after, ¬IsExponentLetter c

/-- Why a text is no literal: the exponent is looked at first, then whether there is anything on the sides of
the point, then its characters, and last the scale. -/
inductive IsRefused (cs : List Char) : LiteralError → Prop
  | badExponent (hbad : HasBadExponent cs) : IsRefused cs .exponent
  | empty {negative : Bool} {n : Int} (hgood : ¬HasBadExponent cs)
      (hsides : Sides cs negative [] [] n) : IsRefused cs .empty
  | invalidDigit {negative : Bool} {before after : List Char} {n : Int} {c : Char}
      (hgood : ¬HasBadExponent cs) (hsides : Sides cs negative before after n)
      (hc : c ∈ before ++ after) (hdigit : c.isDigit = false) : IsRefused cs .invalidDigit
  | scale {negative : Bool} {before after : List Char} {n : Int} (hgood : ¬HasBadExponent cs)
      (hsides : Sides cs negative before after n) (hne : before ≠ [] ∨ after ≠ [])
      (hdigits : AllDigits (before ++ after)) (hscale : ¬ScaleInRange (after.length - n)) :
      IsRefused cs .exponent

end Decimal

/-! ## Blanks -/

theorem head?_dropWhile_eq_false (p : Char → Bool) (cs : List Char) :
    ∀ c ∈ (cs.dropWhile p).head?, p c = false := by
  intro c hc
  have hnot := List.head?_dropWhile_not p cs
  rw [Option.mem_def.mp hc] at hnot
  simpa using hnot

theorem dropWhile_blanks {front cs : List Char} (hfront : ∀ c ∈ front, isBlank c = true)
    (hcs : ∀ c ∈ cs.head?, isBlank c = false) : (front ++ cs).dropWhile isBlank = cs := by
  rw [List.dropWhile_append_of_pos hfront]
  cases cs with
  | nil => rfl
  | cons c cs => exact List.dropWhile_cons_of_neg (by simp [hcs c rfl])

/-- Trimming takes off all blanks at the ends and nothing else. -/
theorem isTrimmed_iff {cs trimmed : List Char} :
    IsTrimmed cs trimmed ↔ trimmed = trimBlanks cs := by
  constructor
  · intro h
    obtain ⟨front, back, rfl, hfront, hback, hhead, hlast⟩ := h
    have hback' : ∀ c ∈ back.reverse, isBlank c = true := fun c hc => hback c (List.mem_reverse.mp hc)
    have hlast' : ∀ c ∈ trimmed.reverse.head?, isBlank c = false := by
      rw [List.head?_reverse]
      exact hlast
    cases trimmed with
    | nil =>
      have hall : (front ++ [] ++ back).dropWhile isBlank = [] := by
        rw [List.append_nil, List.dropWhile_eq_nil_iff]
        exact fun c hc => (List.mem_append.mp hc).elim (hfront c) (hback c)
      rw [trimBlanks, hall]
      rfl
    | cons c trimmed =>
      have hdrop : (front ++ (c :: trimmed ++ back)).dropWhile isBlank = c :: trimmed ++ back :=
        dropWhile_blanks hfront (fun d hd => hhead d hd)
      rw [trimBlanks, List.append_assoc, hdrop, List.reverse_append, dropWhile_blanks hback' hlast',
        List.reverse_reverse]
  · intro h
    obtain rfl := h
    have hback : cs.dropWhile isBlank =
        trimBlanks cs ++ ((cs.dropWhile isBlank).reverse.takeWhile isBlank).reverse := by
      rw [trimBlanks, ← List.reverse_append, List.takeWhile_append_dropWhile, List.reverse_reverse]
    refine ⟨cs.takeWhile isBlank, ((cs.dropWhile isBlank).reverse.takeWhile isBlank).reverse, ?_, ?_,
      ?_, ?_, ?_⟩
    · rw [List.append_assoc, ← hback, List.takeWhile_append_dropWhile]
    · exact fun c hc => List.mem_takeWhile_imp hc
    · exact fun c hc => List.mem_takeWhile_imp (List.mem_reverse.mp hc)
    · intro c hc
      refine head?_dropWhile_eq_false isBlank cs c ?_
      rw [hback, List.head?_append, Option.mem_def.mp hc]
      rfl
    · rw [trimBlanks, List.getLast?_reverse]
      exact head?_dropWhile_eq_false isBlank _

/-! ## Signs, exponents and points -/

theorem splitSign_of_isSign {sign body : List Char} {negative : Bool} (hsign : IsSign sign negative)
    (hbody : sign = [] → ∀ c ∈ body.head?, c ∉ ['+', '-']) :
    splitSign (sign ++ body) = (negative, body) := by
  cases hsign with
  | plus | minus => rfl
  | none =>
    rw [List.nil_append]
    unfold splitSign
    split
    · exact absurd (by decide) (hbody rfl '-' rfl)
    · exact absurd (by decide) (hbody rfl '+' rfl)
    · rfl

/-- A sign is taken off wherever there is one. -/
theorem exists_sign (cs : List Char) :
    ∃ sign body negative, cs = sign ++ body ∧ IsSign sign negative ∧
      (sign = [] → ∀ c ∈ body.head?, c ∉ ['+', '-']) := by
  cases cs with
  | nil => exact ⟨[], [], false, rfl, .none, by simp⟩
  | cons c cs =>
    by_cases hplus : c = '+'
    · exact ⟨['+'], cs, false, by rw [hplus]; rfl, .plus, by simp⟩
    · by_cases hminus : c = '-'
      · exact ⟨['-'], cs, true, by rw [hminus]; rfl, .minus, by simp⟩
      · exact ⟨[], c :: cs, false, rfl, .none, by simp [hplus, hminus]⟩

theorem not_sign_of_isDigit {c : Char} (h : c.isDigit = true) : c ∉ ['+', '-'] := by
  intro hc
  simp only [List.mem_cons, List.not_mem_nil, or_false] at hc
  rcases hc with rfl | rfl <;> cases h

theorem IsSign.mem {sign : List Char} {negative : Bool} (h : IsSign sign negative) {c : Char}
    (hc : c ∈ sign) : c ∈ ['+', '-'] := by
  cases h with
  | none => cases hc
  | plus | minus => simp_all

/-- What is read as an exponent is what writes one. -/
theorem exponent?_eq_some_iff {cs : List Char} {n : Int} :
    exponent? cs = some n ↔ IsExponent cs n := by
  constructor
  · intro h
    obtain ⟨sign, digits, negative, rfl, hsign, hbody⟩ := exists_sign cs
    rw [exponent?, splitSign_of_isSign hsign hbody] at h
    simp only [Option.ite_none_left_eq_some, Option.ite_none_right_eq_some, Bool.or_eq_true,
      Bool.not_eq_true', not_or, Bool.not_eq_true, List.isEmpty_eq_false_iff, Bool.not_eq_false,
      List.all_eq_true] at h
    obtain ⟨⟨hne, hdigits⟩, hrange, hn⟩ := h
    obtain rfl := Option.some.inj hn
    exact ⟨.intro hsign ⟨hne, hdigits⟩, hrange⟩
  · intro h
    obtain ⟨hwrites, hrange⟩ := h
    cases hwrites with
    | @intro sign digits negative hsign hdigits =>
      have hbody : sign = [] → ∀ c ∈ digits.head?, c ∉ ['+', '-'] := fun _ c hc =>
        not_sign_of_isDigit (hdigits.2 c (List.mem_of_mem_head? hc))
      have hempty : digits.isEmpty = false := by simpa using hdigits.1
      have hall : digits.all Char.isDigit = true := List.all_eq_true.mpr hdigits.2
      rw [exponent?, splitSign_of_isSign hsign hbody]
      simp [hempty, hall, hrange]

theorem IsExponentLetter.ne_point {c : Char} (h : IsExponentLetter c) : c ≠ '.' := by
  rcases h with rfl | rfl <;> decide

theorem IsExponentLetter.not_sign {c : Char} (h : IsExponentLetter c) : c ∉ ['+', '-'] := by
  rcases h with rfl | rfl <;> decide

/-- An exponent has no letter. -/
theorem IsExponent.not_letter {cs : List Char} {n : Int} (h : IsExponent cs n) {c : Char}
    (hc : c ∈ cs) : ¬IsExponentLetter c := by
  intro hletter
  obtain ⟨hwrites, _⟩ := h
  cases hwrites with
  | intro hsign hdigits =>
    rcases List.mem_append.mp hc with hc | hc
    · exact hletter.not_sign (hsign.mem hc)
    · have hdigit := hdigits.2 c hc
      rcases hletter with rfl | rfl <;> cases hdigit

theorem isExponentLetter_iff {c : Char} :
    (c == 'e' || c == 'E') = true ↔ IsExponentLetter c := by
  simp [IsExponentLetter]

theorem not_isExponentLetter_iff {c : Char} :
    (c == 'e' || c == 'E') = false ↔ ¬IsExponentLetter c := by
  rw [← isExponentLetter_iff, Bool.not_eq_true]

/-- What stands before a split has nothing to split at. -/
theorem splitFirst_before {stop : Char → Bool} {cs before : List Char} {after : Option (List Char)}
    (h : splitFirst stop cs = (before, after)) : ∀ c ∈ before, stop c = false := by
  induction cs generalizing before with
  | nil =>
    obtain ⟨rfl, _⟩ := Prod.mk.inj h
    simp
  | cons c cs ih =>
    rw [splitFirst] at h
    split at h
    · obtain ⟨rfl, _⟩ := Prod.mk.inj h
      simp
    · rename_i hc
      obtain ⟨rfl, rfl⟩ := Prod.mk.inj h
      exact List.forall_mem_cons.mpr ⟨by simpa using hc, ih rfl⟩

theorem FractionPart.mem_iff {point after : List Char} (h : FractionPart point after) {c : Char}
    (hpoint : c ≠ '.') : c ∈ point ↔ c ∈ after := by
  cases h with
  | none => rfl
  | some => simp [hpoint]

/-- Behind a part without a sign in front, no sign is taken off. -/
theorem FractionPart.head_not_sign {before point after : List Char} (h : FractionPart point after)
    (hbefore : ∀ c ∈ before.head?, c ∉ ['+', '-']) :
    ∀ c ∈ (before ++ point).head?, c ∉ ['+', '-'] := by
  cases before with
  | cons d before => exact hbefore
  | nil => cases h <;> simp

theorem splitFirst_fractionPart {before point after : List Char} (hbefore : '.' ∉ before)
    (hpoint : FractionPart point after) :
    (splitFirst (· == '.') (before ++ point)).1 = before ∧
      (splitFirst (· == '.') (before ++ point)).2.getD [] = after := by
  have hno : ∀ c ∈ before, (c == '.') = false := by
    intro c hc
    rw [beq_eq_false_iff_ne]
    intro heq
    exact hbefore (heq ▸ hc)
  cases hpoint with
  | none =>
    rw [List.append_nil, splitFirst_eq_none hno]
    exact ⟨rfl, rfl⟩
  | some behind =>
    rw [splitFirst_append hno (by decide)]
    exact ⟨rfl, rfl⟩

namespace Decimal

variable {cs before after : List Char} {negative : Bool} {n : Int}

/-! ## The parts that a reader finds -/

theorem splitExponent_of_exponentPart {mantissa exponent : List Char}
    (hno : ∀ c ∈ mantissa, ¬IsExponentLetter c) (hexponent : ExponentPart exponent n) :
    splitExponent (mantissa ++ exponent) = .ok (mantissa, n) := by
  have hstop : ∀ c ∈ mantissa, (c == 'e' || c == 'E') = false :=
    fun c hc => not_isExponentLetter_iff.mpr (hno c hc)
  unfold splitExponent
  cases hexponent with
  | none => rw [List.append_nil, splitFirst_eq_none hstop]
  | some hletter hsuffix =>
    rw [splitFirst_append hstop (isExponentLetter_iff.mpr hletter)]
    simp only [exponent?_eq_some_iff.mpr hsuffix]

/-- Where no exponent stands behind one of the letters, none stands behind the first. -/
theorem HasBadExponent.first (h : HasBadExponent cs) {mantissa found : List Char} {c : Char}
    (hcs : cs = mantissa ++ c :: found) (hmantissa : ∀ d ∈ mantissa, ¬IsExponentLetter d) (n : Int) :
    ¬IsExponent found n := by
  intro hfound
  obtain ⟨front, letter, suffix, hsplit, hletter, hbad⟩ := h
  rcases List.append_eq_append_iff.mp (hsplit.symm.trans hcs) with ⟨between, hleft, hright⟩ |
    ⟨between, hleft, hright⟩
  · cases between with
    | nil =>
      obtain ⟨_, rfl⟩ := List.cons.inj hright
      exact hbad n hfound
    | cons d between =>
      obtain ⟨rfl, _⟩ := List.cons.inj hright
      exact hmantissa letter (by simp [hleft]) hletter
  · cases between with
    | nil =>
      obtain ⟨_, rfl⟩ := List.cons.inj hright
      exact hbad n hfound
    | cons d between =>
      obtain ⟨_, rfl⟩ := List.cons.inj hright
      exact hfound.not_letter (c := letter) (by simp) hletter

theorem splitExponent_of_hasBadExponent (h : HasBadExponent cs) :
    splitExponent cs = .error .exponent := by
  cases hsplit : splitFirst (fun c => c == 'e' || c == 'E') cs with
  | mk mantissa rest =>
    have hmantissa : ∀ c ∈ mantissa, ¬IsExponentLetter c :=
      fun c hc => not_isExponentLetter_iff.mp (splitFirst_before hsplit c hc)
    rcases splitFirst_eq hsplit with ⟨rfl, rfl⟩ | ⟨c, found, _, rfl, hcs⟩
    · obtain ⟨front, letter, suffix, rfl, hletter, _⟩ := h
      exact absurd hletter (hmantissa letter (by simp))
    · have hnone : exponent? found = none := by
        rw [Option.eq_none_iff_forall_ne_some]
        exact fun n hn => h.first hcs hmantissa n (exponent?_eq_some_iff.mp hn)
      simp only [splitExponent, hsplit, hnone]

/-- Unless an exponent is missing, the text has an exponent part at its end. -/
theorem exists_exponentPart (h : ¬HasBadExponent cs) :
    ∃ mantissa exponent n, cs = mantissa ++ exponent ∧ (∀ c ∈ mantissa, ¬IsExponentLetter c) ∧
      ExponentPart exponent n := by
  cases hsplit : splitFirst (fun c => c == 'e' || c == 'E') cs with
  | mk mantissa rest =>
    have hmantissa : ∀ c ∈ mantissa, ¬IsExponentLetter c :=
      fun c hc => not_isExponentLetter_iff.mp (splitFirst_before hsplit c hc)
    rcases splitFirst_eq hsplit with ⟨_, hcs⟩ | ⟨c, found, hc, _, hcs⟩
    · exact ⟨mantissa, [], 0, by rw [hcs, List.append_nil], hmantissa, .none⟩
    · have hletter := isExponentLetter_iff.mp hc
      by_cases hfound : ∃ n, IsExponent found n
      · obtain ⟨n, hn⟩ := hfound
        exact ⟨mantissa, c :: found, n, hcs, hmantissa, .some hletter hn⟩
      · exact absurd ⟨mantissa, c, found, hcs, hletter, not_exists.mp hfound⟩ h

/-- A text is cut at its first point, if it has one. -/
theorem exists_fractionPart (body : List Char) :
    ∃ before point after, body = before ++ point ∧ '.' ∉ before ∧ FractionPart point after := by
  cases hsplit : splitFirst (· == '.') body with
  | mk before rest =>
    have hbefore : '.' ∉ before := fun hmem => by simpa using splitFirst_before hsplit '.' hmem
    rcases splitFirst_eq hsplit with ⟨_, hbody⟩ | ⟨c, after, hc, _, hbody⟩
    · exact ⟨before, [], [], by rw [hbody, List.append_nil], hbefore, .none⟩
    · rw [beq_iff_eq.mp hc] at hbody
      exact ⟨before, '.' :: after, after, hbody, hbefore, .some after⟩

theorem exists_sides (h : ¬HasBadExponent cs) :
    ∃ negative before after n, Sides cs negative before after n := by
  obtain ⟨mantissa, exponent, n, rfl, hmantissa, hexponent⟩ := exists_exponentPart h
  obtain ⟨sign, body, negative, rfl, hsign, hbody⟩ := exists_sign mantissa
  obtain ⟨before, point, after, rfl, hbefore, hpoint⟩ := exists_fractionPart body
  refine ⟨negative, before, after, n, ⟨sign, point, exponent, ?_, hsign, ?_, hpoint, hexponent⟩,
    hbefore, ?_⟩
  · simp only [List.append_assoc]
  · intro hnil c hc
    exact hbody hnil c (List.mem_head?_append_of_mem_head? hc)
  · intro c hc hletter
    refine hmantissa c (List.mem_append_right _ ?_) hletter
    rw [List.mem_append, hpoint.mem_iff hletter.ne_point]
    exact List.mem_append.mp hc

/-! ## What comes out -/

/-- What comes out depends on what stands on the sides of the first point. -/
theorem ofChars?_of_sides (h : Sides cs negative before after n) :
    ofChars? cs =
      if before = [] ∧ after = [] then .error .empty
      else if (before ++ after).all Char.isDigit then
        if ScaleInRange (after.length - n) then
          .ok ⟨signed negative (digitValue (before ++ after)), after.length - n⟩
        else .error .exponent
      else .error .invalidDigit := by
  obtain ⟨⟨sign, point, exponent, rfl, hsign, hbody, hpoint, hexponent⟩, hbefore, hletters⟩ := h
  have hmantissa : ∀ c ∈ sign ++ before ++ point, ¬IsExponentLetter c := by
    intro c hc hletter
    rw [List.append_assoc, List.mem_append, List.mem_append, hpoint.mem_iff hletter.ne_point] at hc
    rcases hc with hc | hc
    · exact hletter.not_sign (hsign.mem hc)
    · exact hletters c (List.mem_append.mpr hc) hletter
  have hsplit : splitSign (sign ++ before ++ point) = (negative, before ++ point) := by
    rw [List.append_assoc]
    exact splitSign_of_isSign hsign fun hnil => hpoint.head_not_sign (hbody hnil)
  obtain ⟨hwhole, hfraction⟩ := splitFirst_fractionPart hbefore hpoint
  have hall : (!before.all Char.isDigit || !after.all Char.isDigit) =
      !(before ++ after).all Char.isDigit := by
    rw [List.all_append, Bool.not_and]
  unfold ofChars?
  rw [splitExponent_of_exponentPart hmantissa hexponent]
  simp only [bind, Except.bind, pure, Except.pure, throw, throwThe, MonadExceptOf.throw, hsplit, hwhole,
    hfraction, hall, Bool.and_eq_true, List.isEmpty_iff]
  cases (before ++ after).all Char.isDigit <;> rfl

theorem ofChars?_of_hasBadExponent (h : HasBadExponent cs) : ofChars? cs = .error .exponent := by
  rw [ofChars?, splitExponent_of_hasBadExponent h]
  rfl

/-! ## The grammar -/

/-- The parts of a literal are what a reader finds. -/
theorem IsLiteral.sides {x : Decimal} (h : IsLiteral cs x) :
    ∃ negative whole fraction n, Sides cs negative whole fraction n ∧ AllDigits (whole ++ fraction) ∧
      (whole ≠ [] ∨ fraction ≠ []) ∧ ScaleInRange (fraction.length - n) ∧
      x = ⟨signed negative (digitValue (whole ++ fraction)), fraction.length - n⟩ := by
  cases h with
  | @intro sign whole point fraction exponent negative n hsign hwhole hpoint hfraction hne hexponent
      hscale =>
    have hdigits := hwhole.append hfraction
    refine ⟨negative, whole, fraction, n, ⟨⟨sign, point, exponent, rfl, hsign, ?_, hpoint, hexponent⟩,
      ?_, ?_⟩, hdigits, hne, hscale, rfl⟩
    · exact fun _ c hc => not_sign_of_isDigit (hwhole c (List.mem_of_mem_head? hc))
    · exact fun hmem => by cases hwhole '.' hmem
    · intro c hc hletter
      have hdigit := hdigits c hc
      rcases hletter with rfl | rfl <;> cases hdigit

theorem ofChars?_eq_ok_iff {x : Decimal} : ofChars? cs = .ok x ↔ IsLiteral cs x := by
  constructor
  · intro h
    by_cases hbad : HasBadExponent cs
    · rw [ofChars?_of_hasBadExponent hbad] at h
      cases h
    · obtain ⟨negative, before, after, n, hsides⟩ := exists_sides hbad
      rw [ofChars?_of_sides hsides] at h
      split at h
      · cases h
      · rename_i hne
        split at h
        · rename_i hall
          split at h
          · rename_i hscale
            obtain rfl := Except.ok.inj h
            obtain ⟨⟨sign, point, exponent, rfl, hsign, _, hpoint, hexponent⟩, _, _⟩ := hsides
            rw [List.all_append, Bool.and_eq_true, List.all_eq_true, List.all_eq_true] at hall
            exact .intro hsign hall.1 hpoint hall.2 (by tauto) hexponent hscale
          · cases h
        · cases h
  · intro h
    obtain ⟨negative, whole, fraction, n, hsides, hdigits, hne, hscale, rfl⟩ := h.sides
    have hnot : ¬(whole = [] ∧ fraction = []) := by tauto
    rw [ofChars?_of_sides hsides, if_neg hnot, if_pos (List.all_eq_true.mpr hdigits), if_pos hscale]

theorem ofChars?_eq_error_iff {error : LiteralError} :
    ofChars? cs = .error error ↔ IsRefused cs error := by
  constructor
  · intro h
    by_cases hbad : HasBadExponent cs
    · rw [ofChars?_of_hasBadExponent hbad] at h
      obtain rfl := Except.error.inj h
      exact .badExponent hbad
    · obtain ⟨negative, before, after, n, hsides⟩ := exists_sides hbad
      rw [ofChars?_of_sides hsides] at h
      split at h
      · rename_i hnil
        obtain ⟨rfl, rfl⟩ := hnil
        obtain rfl := Except.error.inj h
        exact .empty hbad hsides
      · rename_i hne
        split at h
        · rename_i hall
          split at h
          · cases h
          · rename_i hscale
            obtain rfl := Except.error.inj h
            exact .scale hbad hsides (by tauto) (List.all_eq_true.mp hall) hscale
        · rename_i hall
          obtain rfl := Except.error.inj h
          rw [List.all_eq_true] at hall
          push Not at hall
          obtain ⟨c, hc, hdigit⟩ := hall
          exact .invalidDigit hbad hsides hc (by simpa using hdigit)
  · intro h
    cases h with
    | badExponent hbad => exact ofChars?_of_hasBadExponent hbad
    | empty _ hsides => rw [ofChars?_of_sides hsides, if_pos ⟨rfl, rfl⟩]
    | @invalidDigit negative before after n c _ hsides hc hdigit =>
      have hnot : ¬(before = [] ∧ after = []) := fun hnil => by simp [hnil] at hc
      have hall : ¬(before ++ after).all Char.isDigit = true := fun hall => by
        simp [List.all_eq_true.mp hall c hc] at hdigit
      rw [ofChars?_of_sides hsides, if_neg hnot, if_neg hall]
    | @scale negative before after n _ hsides hne hdigits hscale =>
      have hnot : ¬(before = [] ∧ after = []) := by tauto
      rw [ofChars?_of_sides hsides, if_neg hnot, if_pos (List.all_eq_true.mpr hdigits),
        if_neg hscale]

/-- A text reads as a decimal exactly if it is a literal without the blanks at its ends, and then as the
decimal that the literal writes.  Otherwise it is refused for the first reason that applies. -/
theorem ofText?_reads (text : String) :
    ∃ trimmed, (∀ cs, IsTrimmed text.toList cs ↔ cs = trimmed) ∧
      (∀ x, ofText? text = .ok x ↔ IsLiteral trimmed x) ∧
      ∀ error, ofText? text = .error error ↔ IsRefused trimmed error :=
  ⟨trimBlanks text.toList, fun _ => isTrimmed_iff, fun _ => ofChars?_eq_ok_iff,
    fun _ => ofChars?_eq_error_iff⟩

/-- An exponent that is none counts before a mantissa that is none. -/
example : ofText? " -.5E+2 " = .ok ⟨-5, -1⟩ ∧ ofText? "x1ey" = .error .exponent ∧
    ofText? "+." = .error .empty ∧ ofText? "1..2" = .error .invalidDigit := by
  refine ⟨?_, ?_, ?_, ?_⟩ <;> cbv

end Decimal

end Abacus
