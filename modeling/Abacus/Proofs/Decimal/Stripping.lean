import Abacus.Proofs.Decimal.ExactQuotient

/-!
# Factors and zeros are stripped completely

A factor is divided out by a loop without a bound: it stops at the first remainder other than zero and at
nothing else.  Here the loop is its turns, run as long as there is a next one.  It never ends on zero, where
the remainder is always zero (`stripLoop_zero`), and on every other number it ends with the factor divided
out as often as it divides (`stripLoop_eq_some_iff`).  Divisions count instead, and never more than the number
itself; that is the same (`stripLoop_eq`), since the loop is only run on a reduced divisor and on what is
left of it, which are not zero (`divBy_eq`).

The loop that removes trailing zeros has a bound, and zero does not come to it.  It ends whatever the bound
is (`stripZerosLoop_eq`), with the least scale from the bound on at which the value can be written.

The main statement is `stripping_ends`.
-/

namespace Abacus

open StateTransition (eval)

variable {State : Type} {turn : State → Option State} {state next : State}

/-- A loop that ends at once gives the state it started from. -/
theorem eval_of_none (h : turn state = none) : eval turn state = .some state :=
  Part.eq_some_iff.mpr (StateTransition.mem_eval.mpr ⟨.refl, h⟩)

/-- After one turn the loop goes on from the next state. -/
theorem eval_of_some (h : turn state = some next) : eval turn state = eval turn next :=
  StateTransition.reaches_eval (.single h)

/-! ## Factors -/

/-- One turn of the loop that divides by the factor and counts the divisions.  There is no next one if there
is a remainder. -/
def stripTurn (factor : Int) (state : Nat × Int) : Option (Nat × Int) :=
  if state.2.tmod factor = 0 then some (state.1 + 1, state.2.tdiv factor) else none

/-- Divides by the factor while there is no remainder.  The result is undefined if this does not end. -/
def stripLoop (factor value : Int) : Part (Nat × Int) := eval (stripTurn factor) (0, value)

variable {factor number rest : Int} {places : Nat}

/-- On zero there is always a next turn, and it is on zero again. -/
theorem stripTurn_zero (factor : Int) (count : Nat) :
    stripTurn factor (count, 0) = some (count + 1, 0) := by
  rw [stripTurn, Int.zero_tmod, if_pos rfl, Int.zero_tdiv]

/-- A state reached from zero is about zero. -/
theorem eq_zero_of_reaches {final : Nat × Int} {count : Nat}
    (h : StateTransition.Reaches (stripTurn factor) (count, 0) final) : final.2 = 0 := by
  induction h with
  | refl => rfl
  | @tail before after _ hturn ih =>
    obtain ⟨k, value⟩ := before
    obtain rfl : value = 0 := ih
    obtain rfl := Option.mem_unique hturn (stripTurn_zero factor k)
    rfl

/-- On zero the loop never ends. -/
theorem stripLoop_zero (factor : Int) : stripLoop factor 0 = .none := by
  refine Part.eq_none_iff.mpr fun final hfinal => ?_
  obtain ⟨hreaches, hstop⟩ := StateTransition.mem_eval.mp hfinal
  obtain ⟨count, value⟩ := final
  obtain rfl : value = 0 := eq_zero_of_reaches hreaches
  rw [stripTurn_zero] at hstop
  cases hstop

/-- One turn of the loop for each power of the factor, and none for what is left. -/
theorem eval_stripTurn (hfactor : factor ≠ 0) (h : ¬factor ∣ rest) (places count : Nat) :
    eval (stripTurn factor) (count, factor ^ places * rest) = .some (count + places, rest) := by
  induction places generalizing count with
  | zero =>
    rw [pow_zero, one_mul, Nat.add_zero]
    exact eval_of_none (if_neg (mt Int.dvd_of_tmod_eq_zero h))
  | succ places ih =>
    have hnumber : factor ^ (places + 1) * rest = factor * (factor ^ places * rest) := by ring
    have hturn : stripTurn factor (count, factor ^ (places + 1) * rest) =
        some (count + 1, factor ^ places * rest) := by
      rw [stripTurn, hnumber, Int.mul_tmod_right, if_pos rfl, Int.mul_tdiv_cancel_left _ hfactor]
    rw [eval_of_some hturn, ih, Nat.add_right_comm, Nat.add_assoc]

theorem stripLoop_pow_mul (hfactor : factor ≠ 0) (h : ¬factor ∣ rest) :
    stripLoop factor (factor ^ places * rest) = .some (places, rest) := by
  rw [stripLoop, eval_stripTurn hfactor h, Nat.zero_add]

/-- The loop ends on every number but zero, with the factor divided out completely. -/
theorem stripLoop_eq_some_iff (hfactor : 1 < factor) :
    stripLoop factor number = .some (places, rest) ↔
      number ≠ 0 ∧ number = factor ^ places * rest ∧ ¬factor ∣ rest := by
  constructor
  · intro hrun
    have hnumber : number ≠ 0 := by
      intro hzero
      rw [hzero, stripLoop_zero] at hrun
      exact Part.some_ne_none _ hrun.symm
    have hfinite : FiniteMultiplicity factor number :=
      Int.finiteMultiplicity_iff.mpr ⟨by omega, hnumber⟩
    obtain ⟨rest', heq, hdvd⟩ := hfinite.exists_eq_pow_mul_and_not_dvd
    rw [heq, stripLoop_pow_mul (by omega) hdvd] at hrun
    obtain ⟨hplaces, hrest⟩ := Prod.mk.inj (Part.some_inj.mp hrun)
    rw [← hplaces, ← hrest]
    exact ⟨hnumber, heq, hdvd⟩
  · intro h
    rw [h.2.1, stripLoop_pow_mul (by omega) h.2.2]

/-- With the number itself as the limit, counted divisions give what the loop gives. -/
theorem stripLoop_eq {f : Nat} (hf : 1 < f) (hnumber : number ≠ 0) :
    stripLoop f number = .some ((stripFactor f number.natAbs number.natAbs).1,
      number.sign * (stripFactor f number.natAbs number.natAbs).2) := by
  have hmul := pow_mul_stripFactor f number.natAbs number.natAbs
  have hdvd := not_dvd_stripFactor_rest hf (Int.natAbs_pos.mpr hnumber)
  refine (stripLoop_eq_some_iff (by omega)).mpr ⟨hnumber, ?_, ?_⟩
  · calc number = number.sign * number.natAbs := (Int.sign_mul_natAbs number).symm
      _ = number.sign * (f ^ (stripFactor f number.natAbs number.natAbs).1 *
            (stripFactor f number.natAbs number.natAbs).2 : Nat) := by rw [hmul]
      _ = _ := by push_cast; ring
  · rwa [Int.natCast_dvd, Int.natAbs_mul, Int.natAbs_sign_of_ne_zero hnumber, one_mul,
      Int.natAbs_natCast]

/-- On a natural number other than zero there is no sign to take care of. -/
theorem stripLoop_natCast {f n : Nat} (hf : 1 < f) (hn : 0 < n) :
    stripLoop f n = .some ((stripFactor f n n).1, ((stripFactor f n n).2 : Int)) := by
  have hn' : (n : Int) ≠ 0 := by omega
  have hsign : (n : Int).sign = 1 := Int.sign_eq_one_of_pos (by omega)
  rw [stripLoop_eq hf hn', Int.natAbs_natCast, hsign, one_mul]

namespace Decimal

/-! ## Zeros -/

/-- One turn of the loop that divides by ten.  There is no next one at the bound, or if there is a
remainder. -/
def zerosTurn (least : Int) (x : Decimal) : Option Decimal :=
  if least < x.scale then
    if x.unscaled.tmod 10 = 0 then some ⟨x.unscaled.tdiv 10, x.scale - 1⟩ else none
  else none

/-- Removes trailing zeros while the scale is above the bound.  Zero does not come to the loop. -/
def stripZerosLoop (x : Decimal) (least : Int) : Part Decimal :=
  if x.unscaled = 0 then .some ⟨0, max least 0⟩ else eval (zerosTurn least) x

@[simp] theorem dropZeros_zero (x : Decimal) : dropZeros x 0 = x := by
  simp only [dropZeros, stripFactor, Int.sign_mul_natAbs, Nat.cast_zero, Int.sub_zero]

/-- The loop ends, since each turn comes closer to the bound. -/
theorem eval_zerosTurn (least : Int) (x : Decimal) :
    eval (zerosTurn least) x = .some (dropZeros x (x.scale - least).toNat) := by
  induction hplaces : (x.scale - least).toNat generalizing x with
  | zero =>
    have hstop : zerosTurn least x = none := if_neg (by omega)
    rw [eval_of_none hstop, dropZeros_zero]
  | succ places ih =>
    obtain ⟨unscaled, scale⟩ := x
    dsimp only at hplaces
    have hlt : least < scale := by omega
    by_cases hdvd : (10 : Int) ∣ unscaled
    · obtain ⟨k, rfl⟩ := hdvd
      have hturn : zerosTurn least ⟨10 * k, scale⟩ = some ⟨k, scale - 1⟩ := by
        rw [zerosTurn, if_pos hlt, Int.mul_tmod_right, if_pos rfl,
          Int.mul_tdiv_cancel_left _ (by norm_num)]
      rw [eval_of_some hturn, dropZeros_ten_mul, ih _ (by dsimp only; omega)]
    · have hstop : zerosTurn least ⟨unscaled, scale⟩ = none := by
        rw [zerosTurn, if_pos hlt, if_neg (mt Int.dvd_of_tmod_eq_zero hdvd)]
      rw [eval_of_none hstop, dropZeros_of_not_dvd hdvd]

/-- Whatever the bound is, the loop ends with what counting gives. -/
theorem stripZerosLoop_eq (x : Decimal) (least : Int) :
    x.stripZerosLoop least = .some (x.stripZeros least) := by
  unfold stripZerosLoop stripZeros
  split
  · rfl
  · exact eval_zerosTurn least x

variable {x z : Decimal} {least : Int}

/-- Below the bound there is nothing to remove. -/
theorem stripZeros_of_lt (hx : x.unscaled ≠ 0) (hlt : x.scale < least) : x.stripZeros least = x := by
  have hplaces : (x.scale - least).toNat = 0 := by omega
  rw [stripZeros, if_neg hx, hplaces, dropZeros_zero]

/-- From the bound on, the stripped number is the one of its value with the least scale. -/
theorem stripZeros_eq_iff (hx : x.unscaled ≠ 0) (hle : least ≤ x.scale) :
    x.stripZeros least = z ↔ z.value = x.value ∧
      IsLeast {s : Int | least ≤ s ∧ s ≤ x.scale ∧ ∃ n : Int, 10 ^ s * x.value = n} z.scale := by
  have hstripped : IsLeast {s : Int | least ≤ s ∧ s ≤ x.scale ∧ ∃ n : Int, 10 ^ s * x.value = n}
      (x.stripZeros least).scale := by
    have hleast := isLeast_stripZeros hx hle
    have hscale : (x.stripZeros least).scale ≤ x.scale := hleast.2 ⟨hle, writtenAt_value x⟩
    refine ⟨⟨hleast.1.1, hscale, writtenAt_iff.mp hleast.1.2⟩, ?_⟩
    intro s hs
    exact hleast.2 ⟨hs.1, writtenAt_iff.mpr hs.2.2⟩
  constructor
  · intro h
    rw [← h]
    exact ⟨value_stripZeros x least, hstripped⟩
  · intro h
    apply eq_of_value_of_scale
    · rw [value_stripZeros, h.1]
    · exact hstripped.unique h.2

/-- With a bound far enough below all trailing zeros are removed. -/
theorem stripZeros_eq_normalized (hleast : least ≤ 0) (hle : least ≤ x.normalized.scale) :
    x.stripZeros least = x.normalized := by
  by_cases hx : x.unscaled = 0
  · rw [stripZeros, if_pos hx, normalized, if_pos hx, max_eq_right hleast]
    rfl
  · have hscale : x.normalized.scale ≤ x.scale := (isLeast_normalized hx).2 (writtenAt_value x)
    have hdrop := isLeast_stripZeros hx (hle.trans hscale)
    apply eq_of_value_of_scale
    · rw [value_stripZeros, value_normalized]
    · apply hdrop.unique
      refine ⟨⟨hle, (isLeast_normalized hx).1⟩, ?_⟩
      intro s hs
      exact (isLeast_normalized hx).2 hs.2

/-! ## Divisions -/

/-- The exact quotient, computed with a loop that strips factors and with the one that strips zeros.  It is
undefined if one of them does not end. -/
def divBy (strip : Int → Int → Part (Nat × Int)) (x y : Decimal) :
    Part (Except ArithmeticError Decimal) :=
  if y.unscaled = 0 then .some (.error .divisionByZero)
  else
    let preferred := x.scale - y.scale
    if x.unscaled = 0 then .some (checked ⟨0, max preferred 0⟩)
    else do
      let common : Int := Int.gcd x.unscaled y.unscaled
      let numerator := x.unscaled.tdiv common * y.unscaled.sign
      let denominator := (y.unscaled.tdiv common).natAbs
      let (twos, half) ← strip 2 denominator
      let (fives, rest) ← strip 5 half
      if rest ≠ 1 then return .error .nonTerminating
      else
        let extra := max twos fives
        let quotient ←
          stripZerosLoop ⟨(numerator * 10 ^ extra).tdiv denominator, preferred + extra⟩ preferred
        return checked quotient

/-- The loop, whatever it does on zero. -/
def AgreesOffZero (strip : Int → Int → Part (Nat × Int)) : Prop :=
  ∀ factor value, value ≠ 0 → strip factor value = stripLoop factor value

/-- What is left of a number without its twos is not zero either. -/
theorem AgreesOffZero.two_five {strip : Int → Int → Part (Nat × Int)} (h : AgreesOffZero strip)
    {n twos half fives rest : Nat} (hn : 0 < n) (htwos : stripFactor 2 n n = (twos, half))
    (hfives : stripFactor 5 half half = (fives, rest)) :
    strip 2 n = .some (twos, (half : Int)) ∧ strip 5 half = .some (fives, (rest : Int)) := by
  have hdvd := not_dvd_stripFactor_rest (le_refl 2) hn
  have hloop := stripLoop_natCast one_lt_two hn
  rw [htwos] at hdvd hloop
  have hhalf : 0 < half := by
    refine Nat.pos_of_ne_zero fun hzero => hdvd ?_
    rw [hzero]
    exact dvd_zero 2
  have hloop' := stripLoop_natCast (show 1 < 5 by norm_num) hhalf
  rw [hfives] at hloop'
  exact ⟨(h 2 n (by omega)).trans hloop, (h 5 half (by omega)).trans hloop'⟩

/-- Divisions come to the loop with other numbers than zero only, and both loops end. -/
theorem divBy_eq {strip : Int → Int → Part (Nat × Int)} (h : AgreesOffZero strip) (x y : Decimal) :
    divBy strip x y = .some (x.div y) := by
  by_cases hy : y.unscaled = 0
  · rw [divBy, if_pos hy, div, if_pos hy]
  by_cases hx : x.unscaled = 0
  · rw [divBy, if_neg hy, if_pos hx, div_zero_left hx hy]
  obtain ⟨hpos, _, _⟩ := reduced_fraction (a := x.unscaled) hy rfl
  rcases htwos : stripFactor 2 _ _ with ⟨twos, half⟩
  rcases hfives : stripFactor 5 half half with ⟨fives, rest⟩
  obtain ⟨hstrip, hstrip'⟩ := h.two_five hpos htwos hfives
  simp only [divBy, div, hy, hx, if_false, htwos, hfives, hstrip, hstrip', checkScale_bind,
    stripZerosLoop_eq, Part.bind_eq_bind, Part.bind_some, Part.pure_eq_some]
  by_cases hrest : rest = 1
  · simp [hrest]
  · simp [hrest]

/-! ## Main statement -/

/-- The unbounded loop ends on every number but zero, with the number split into a power of the factor and a
rest that the factor does not divide, which is what counted divisions give.  A division never runs it on
zero, and ends.  The loop that strips zeros ends for every number and every bound.  It keeps the value;
a number other than zero gets the least scale from the bound up to its own at which the value is whole, or
is left alone if its scale is below the bound; zero gets the bound as its scale, but no negative one.  With
a bound far enough below this is the normal form. -/
theorem stripping_ends :
    (∀ (f : Nat) (value : Int), 1 < f → value ≠ 0 → ∃ places rest,
      stripLoop f value = .some (places, rest) ∧ value = f ^ places * rest ∧ ¬(f : Int) ∣ rest ∧
        stripFactor f value.natAbs value.natAbs = (places, rest.natAbs)) ∧
    (∀ factor, stripLoop factor 0 = .none) ∧
    (∀ strip, AgreesOffZero strip → ∀ x y : Decimal, divBy strip x y = .some (x.div y)) ∧
    ∀ (x : Decimal) (least : Int),
      x.stripZerosLoop least = .some (x.stripZeros least) ∧
      (x.stripZeros least).value = x.value ∧
      (x.unscaled = 0 → x.stripZeros least = ⟨0, max least 0⟩) ∧
      (x.unscaled ≠ 0 → x.scale < least → x.stripZeros least = x) ∧
      (x.unscaled ≠ 0 → least ≤ x.scale → ∀ z, x.stripZeros least = z ↔ z.value = x.value ∧
        IsLeast {s : Int | least ≤ s ∧ s ≤ x.scale ∧ ∃ n : Int, 10 ^ s * x.value = n} z.scale) ∧
      (least ≤ 0 → least ≤ x.normalized.scale → x.stripZeros least = x.normalized) := by
  refine ⟨?_, stripLoop_zero, fun strip h => divBy_eq h, fun x least => ?_⟩
  · intro f value hf hvalue
    have hloop := stripLoop_eq hf hvalue
    obtain ⟨_, hsplit, hdvd⟩ := (stripLoop_eq_some_iff (by omega)).mp hloop
    refine ⟨_, _, hloop, hsplit, hdvd, ?_⟩
    rw [Int.natAbs_mul, Int.natAbs_sign_of_ne_zero hvalue, one_mul, Int.natAbs_natCast]
  · refine ⟨stripZerosLoop_eq x least, value_stripZeros x least, fun hx => ?_, ?_, ?_, ?_⟩
    · rw [stripZeros, if_pos hx]
    · exact stripZeros_of_lt
    · exact fun hx hle z => stripZeros_eq_iff hx hle
    · exact stripZeros_eq_normalized

/-- The factors of `-40`, its reciprocal times three by a loop that answers on zero as well, and the zeros of
`-25.000` down to one digit after the point. -/
theorem stripping_ends_at_forty :
    stripLoop 2 (-40) = .some (3, -5) ∧
    divBy (fun factor value => if value = 0 then .some (0, 0) else stripLoop factor value) ⟨3, 0⟩ ⟨-40, 0⟩ =
      .some (.ok ⟨-75, 3⟩) ∧
    stripZerosLoop ⟨-25000, 3⟩ 1 = .some ⟨-250, 1⟩ ∧
    IsLeast {s : Int | 1 ≤ s ∧ s ≤ 3 ∧ ∃ n : Int, 10 ^ s * value ⟨-25000, 3⟩ = n} 1 := by
  obtain ⟨hfactor, _, hdiv, hzeros⟩ := stripping_ends
  obtain ⟨hloop, _, _, _, hleast, _⟩ := hzeros ⟨-25000, 3⟩ 1
  have hstripped : stripZeros ⟨-25000, 3⟩ 1 = ⟨-250, 1⟩ := by decide
  have hquotient : div ⟨3, 0⟩ ⟨-40, 0⟩ = .ok ⟨-75, 3⟩ := by decide
  refine ⟨?_, ?_, ?_, ((hleast (by decide) (by decide) _).mp hstripped).2⟩
  · obtain ⟨places, rest, hrun, hsplit, _, hcounted⟩ := hfactor 2 (-40) (by decide) (by decide)
    have hplaces : places = 3 := (Prod.mk.inj hcounted).1.symm
    rw [hplaces] at hrun hsplit
    have hrest : rest = -5 := by
      norm_num at hsplit
      omega
    rw [hrest] at hrun
    exact hrun
  · rw [hdiv _ fun _ _ hvalue => if_neg hvalue, hquotient]
  · rw [hloop, hstripped]

end Decimal

end Abacus
