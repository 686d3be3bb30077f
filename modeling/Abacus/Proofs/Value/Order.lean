import Abacus.Proofs.Decimal.Arithmetic
import Abacus.Proofs.Decimal.Read
import Abacus.Proofs.Registry

/-!
# The order of values

Each pair of values is compared by a rule of its own: two numbers, or texts that read as numbers, by
number, and any others by text.  So `10 < "1a"` and `"1a" < 2` by text, but `2 < 10` by number
(`compare_mixed`).  Three values are in order if no two rules meet in them, or if those that do meet
agree: where one value reads as no number, the other two are to have the same order as numbers that
they have as texts (`Compatible`).

This is also needed.  Two numbers whose texts have another order are apart, for there is a text between
them that reads as no number, the text of the lesser one with a null character behind it.  The main
statement is `compare_ordered`.
-/

namespace Abacus.Value

/-! ## Numbers and texts -/

instance : Std.TransCmp compareTexts :=
  inferInstanceAs (Std.TransCmp fun x y : String => Ord.compare x y)

instance : Std.LawfulEqCmp compareTexts :=
  inferInstanceAs (Std.LawfulEqCmp fun x y : String => Ord.compare x y)

theorem compareTexts_eq_lt_iff {x y : String} : compareTexts x y = .lt ↔ x.toList < y.toList := by
  rw [← String.lt_iff_toList_lt]
  exact compareOfLessAndEq_eq_lt

variable {a b c : Value} {x y : Decimal}

@[simp] theorem toNumeral_bool (value : Bool) : (Value.bool value).toNumeral = .notANumber := by
  cases value <;> cbv

theorem toNumeral_text_eq_number_iff {text : String} :
    (Value.text text).toNumeral = .number x ↔ Decimal.ofText? text = .ok x := by
  change numeralOfText text = .number x ↔ _
  unfold numeralOfText
  cases Decimal.ofText? text <;> simp

/-- A number is one itself or has a text that reads as one. -/
theorem toNumeral_eq_number (h : a.toNumeral = .number x) :
    a = .number x ∨ Decimal.ofText? a.toText = .ok x := by
  cases a with
  | void => cases h
  | number value => exact .inl (congrArg Value.number (Numeral.number.inj h))
  | bool value => cases (toNumeral_bool value).symm.trans h
  | text text => exact .inr (toNumeral_text_eq_number_iff.mp h)

/-- Numbers with the same text are equal. -/
theorem value_eq_of_toText_eq (ha : a.toNumeral = .number x) (hb : b.toNumeral = .number y)
    (h : a.toText = b.toText) : x.value = y.value := by
  rcases toNumeral_eq_number ha with rfl | hx <;> rcases toNumeral_eq_number hb with rfl | hy
  · exact Decimal.value_eq_of_toText_eq h
  · rw [← h] at hy
    exact (Decimal.value_of_ofText?_toText hy).symm
  · rw [h] at hx
    exact Decimal.value_of_ofText?_toText hx
  · rw [h] at hx
    rw [Except.ok.inj (hx.symm.trans hy)]

theorem toNumeral_ne_missing (h : a ≠ .void) : a.toNumeral ≠ .missing := by
  cases a with
  | void => exact absurd rfl h
  | number value => exact Numeral.noConfusion
  | bool value => simp
  | text text =>
    change numeralOfText text ≠ .missing
    unfold numeralOfText
    cases Decimal.ofText? text <;> simp

/-! ## The rules of comparison -/

@[simp] theorem compare_void_left (b : Value) :
    Value.void.compare b = if b = .void then .eq else .lt := by
  cases b <;> rfl

@[simp] theorem compare_void_right (a : Value) :
    a.compare .void = if a = .void then .eq else .gt := by
  cases a <;> rfl

/-- Numbers are compared by number. -/
theorem compare_numbers (ha : a.toNumeral = .number x) (hb : b.toNumeral = .number y) :
    a.compare b = x.compare y := by
  have hvoid : Value.void.toNumeral = .missing := rfl
  cases a <;> cases b <;> simp_all [compare]

/-- Values of which one is no number are compared by text. -/
theorem compare_texts (ha : a ≠ .void) (hb : b ≠ .void)
    (h : a.toNumeral = .notANumber ∨ b.toNumeral = .notANumber) :
    a.compare b = compareTexts a.toText b.toText := by
  cases a with
  | void => exact absurd rfl ha
  | bool value =>
    cases b with
    | void => exact absurd rfl hb
    | bool value' => cases value <;> cases value' <;> decide
    | number value' => simp [compare]
    | text text => simp [compare]
  | number value =>
    cases b with
    | void => exact absurd rfl hb
    | bool value' => simp [compare]
    | number value' => simp [toNumeral] at h
    | text text => simp [compare, h.resolve_left Numeral.noConfusion]
  | text text =>
    cases b with
    | void => exact absurd rfl hb
    | bool value' => simp [compare]
    | number value' => simp [compare, h.resolve_right Numeral.noConfusion]
    | text text' => rcases h with h | h <;> simp [compare, h]

instance : Std.OrientedCmp Value.compare where
  eq_swap {a b} := by
    have hnumbers : ∀ x y : Decimal, x.compare y = (y.compare x).swap := by
      intro x y
      rw [Decimal.compare_eq, Decimal.compare_eq]
      exact Std.OrientedCmp.eq_swap
    by_cases ha : a = .void
    · cases b <;> simp [ha]
    by_cases hb : b = .void
    · simp [ha, hb]
    cases hx : a.toNumeral with
    | missing => exact absurd hx (toNumeral_ne_missing ha)
    | notANumber =>
      rw [compare_texts ha hb (.inl hx), compare_texts hb ha (.inr hx)]
      exact Std.OrientedCmp.eq_swap
    | number x =>
      cases hy : b.toNumeral with
      | missing => exact absurd hy (toNumeral_ne_missing hb)
      | notANumber =>
        rw [compare_texts ha hb (.inr hy), compare_texts hb ha (.inl hy)]
        exact Std.OrientedCmp.eq_swap
      | number y => rw [compare_numbers hx hy, compare_numbers hy hx, hnumbers]

/-! ## Three values in order -/

/-- The first value is at most the second one. -/
def AtMost (a b : Value) : Prop := (a.compare b).isLE = true

/-- What is at most a value that is at most a third one is at most that one, and equal to it only if all
three are equal. -/
structure InOrder (a b c : Value) : Prop where
  atMost : a.AtMost b → b.AtMost c → a.AtMost c
  equal : a.AtMost b → b.AtMost c → a.compare c = .eq → a.compare b = .eq ∧ b.compare c = .eq

/-- If the values are numbers, they have the order of their texts. -/
def SameOrder (a b : Value) : Prop :=
  ∀ x y, a.toNumeral = .number x → b.toNumeral = .number y →
    x.compare y = compareTexts a.toText b.toText

/-- Beside a value that reads as no number the others have one order, as numbers and as texts. -/
structure Compatible (a b c : Value) : Prop where
  first : a.toNumeral = .notANumber → SameOrder b c
  second : b.toNumeral = .notANumber → SameOrder a c
  third : c.toNumeral = .notANumber → SameOrder a b

/-- Values that are compared by one key are in order. -/
theorem InOrder.of_keys {α : Type} {cmp : α → α → Ordering} [Std.TransCmp cmp] {x y z : α}
    (hab : a.compare b = cmp x y) (hbc : b.compare c = cmp y z) (hac : a.compare c = cmp x z) :
    InOrder a b c := by
  refine ⟨fun hx hy => ?_, fun hx hy heq => ?_⟩
  · rw [AtMost, hab] at hx
    rw [AtMost, hbc] at hy
    rw [AtMost, hac]
    exact Std.TransCmp.isLE_trans hx hy
  · rw [AtMost, hab] at hx
    rw [AtMost, hbc] at hy
    rw [hac, Std.OrientedCmp.eq_comm] at heq
    have hzx : (cmp z x).isLE = true := by rw [heq, Ordering.isLE_eq]
    rw [hab, hbc]
    exact ⟨Std.OrientedCmp.isLE_antisymm hx (Std.TransCmp.isLE_trans hy hzx),
      Std.OrientedCmp.isLE_antisymm hy (Std.TransCmp.isLE_trans hzx hx)⟩

theorem atMost_void_iff : a.AtMost .void ↔ a = .void := by
  by_cases h : a = .void <;> simp [AtMost, h]

theorem void_atMost (b : Value) : Value.void.AtMost b := by
  by_cases h : b = .void <;> simp [AtMost, h]

theorem compare_void_eq_iff : Value.void.compare b = .eq ↔ b = .void := by
  by_cases h : b = .void <;> simp [h]

/-- The missing value is in order with all others. -/
theorem InOrder.of_void (h : a = .void ∨ b = .void ∨ c = .void) : InOrder a b c := by
  have hall : b.AtMost .void → Value.void.compare b = .eq ∧ b.compare .void = .eq := by
    intro hb
    simp [atMost_void_iff.mp hb]
  rcases h with rfl | rfl | rfl
  · refine ⟨fun _ _ => void_atMost c, fun _ hbc heq => ?_⟩
    rw [compare_void_eq_iff.mp heq] at hbc ⊢
    exact hall hbc
  · refine ⟨fun hab _ => ?_, fun hab _ heq => ?_⟩
    · rw [atMost_void_iff.mp hab]
      exact void_atMost c
    · rw [atMost_void_iff.mp hab] at heq ⊢
      exact ⟨by simp, heq⟩
  · refine ⟨fun hab hbc => ?_, fun hab hbc _ => ?_⟩
    · rwa [atMost_void_iff.mp hbc] at hab
    · rw [atMost_void_iff.mp hbc] at hab ⊢
      simp [atMost_void_iff.mp hab]

theorem SameOrder.of_notANumber (h : a.toNumeral = .notANumber ∨ b.toNumeral = .notANumber) :
    SameOrder a b := by
  intro x y hx hy
  rcases h with h | h
  · cases h.symm.trans hx
  · cases h.symm.trans hy

/-- Values whose orders are the same are compared by text. -/
theorem SameOrder.compare_eq (h : SameOrder a b) (ha : a ≠ .void) (hb : b ≠ .void) :
    a.compare b = compareTexts a.toText b.toText := by
  cases hx : a.toNumeral with
  | missing => exact absurd hx (toNumeral_ne_missing ha)
  | notANumber => exact compare_texts ha hb (.inl hx)
  | number x =>
    cases hy : b.toNumeral with
    | missing => exact absurd hy (toNumeral_ne_missing hb)
    | notANumber => exact compare_texts ha hb (.inr hy)
    | number y => rw [compare_numbers hx hy, h x y hx hy]

/-- Compatible values are in order. -/
theorem Compatible.inOrder (h : Compatible a b c) : InOrder a b c := by
  by_cases ha : a = .void
  · exact .of_void (.inl ha)
  by_cases hb : b = .void
  · exact .of_void (.inr (.inl hb))
  by_cases hc : c = .void
  · exact .of_void (.inr (.inr hc))
  have htexts : SameOrder a b → SameOrder b c → SameOrder a c → InOrder a b c :=
    fun hab hbc hac =>
      .of_keys (hab.compare_eq ha hb) (hbc.compare_eq hb hc) (hac.compare_eq ha hc)
  cases hx : a.toNumeral with
  | missing => exact absurd hx (toNumeral_ne_missing ha)
  | notANumber => exact htexts (.of_notANumber (.inl hx)) (h.first hx) (.of_notANumber (.inl hx))
  | number x =>
    cases hy : b.toNumeral with
    | missing => exact absurd hy (toNumeral_ne_missing hb)
    | notANumber => exact htexts (.of_notANumber (.inr hy)) (.of_notANumber (.inl hy)) (h.second hy)
    | number y =>
      cases hz : c.toNumeral with
      | missing => exact absurd hz (toNumeral_ne_missing hc)
      | notANumber => exact htexts (h.third hz) (.of_notANumber (.inr hz)) (.of_notANumber (.inr hz))
      | number z =>
        have hvalues : ∀ {a b : Value} {x y : Decimal}, a.toNumeral = .number x →
            b.toNumeral = .number y → a.compare b = Ord.compare x.value y.value := by
          intro a b x y ha hb
          rw [compare_numbers ha hb, Decimal.compare_eq]
        exact .of_keys (hvalues hx hy) (hvalues hy hz) (hvalues hx hz)

/-! ## A text between two numbers -/

theorem lt_concat (cs : List Char) (c : Char) : cs < cs ++ [c] := by
  induction cs with
  | nil => exact List.nil_lt_cons c []
  | cons d cs ih => exact List.cons_lt_cons_iff.mpr (.inr ⟨rfl, ih⟩)

/-- No text is between another one and that one with a null character behind it. -/
theorem not_lt_concat_null {cs ds : List Char} (h : cs < ds) : ¬ds < cs ++ ['\x00'] := by
  induction cs generalizing ds with
  | nil =>
    cases ds with
    | nil => exact absurd h (List.lt_irrefl [])
    | cons d ds =>
      rw [List.nil_append, List.cons_lt_cons_iff]
      rintro (hd | hds)
      · exact Nat.not_lt_zero _ hd
      · exact List.not_lt_nil _ hds.2
  | cons c cs ih =>
    cases ds with
    | nil => exact absurd h (List.not_lt_nil _)
    | cons d ds =>
      rw [List.cons_append, List.cons_lt_cons_iff]
      rcases List.cons_lt_cons_iff.mp h with hc | ⟨rfl, hrest⟩
      · rintro (hd | ⟨rfl, _⟩)
        · exact lt_asymm hc hd
        · exact lt_irrefl _ hc
      · rintro (hd | ⟨_, hds⟩)
        · exact lt_irrefl _ hd
        · exact ih hrest hds

/-- The text of a value with a null character behind it. -/
def justAbove (a : Value) : Value := .text (a.toText.push '\x00')

theorem toNumeral_justAbove (a : Value) : a.justAbove.toNumeral = .notANumber := by
  cases h : a.justAbove.toNumeral with
  | missing => exact absurd h (toNumeral_ne_missing Value.noConfusion)
  | notANumber => rfl
  | number x =>
    have hread := toNumeral_text_eq_number_iff.mp h
    have hnull := Decimal.isNumeralChar_of_ofText? hread '\x00' (by simp) (by decide)
    exact absurd hnull (by unfold IsNumeralChar; decide)

/-- Of two values that are in order with the text just above the first one, the first is less if its text
is. -/
theorem compare_eq_lt_of_inOrder (ha : a ≠ .void) (hc : c ≠ .void)
    (htexts : compareTexts a.toText c.toText = .lt) (h : InOrder a a.justAbove c) :
    a.compare c = .lt := by
  have hnull : a.justAbove.toText.toList = a.toText.toList ++ ['\x00'] := String.toList_push ..
  have hbetween : a.justAbove ≠ .void := Value.noConfusion
  have hleft : a.compare a.justAbove = .lt := by
    rw [compare_texts ha hbetween (.inr a.toNumeral_justAbove), compareTexts_eq_lt_iff, hnull]
    exact lt_concat ..
  have hright : a.justAbove.AtMost c := by
    rw [AtMost, compare_texts hbetween hc (.inl a.toNumeral_justAbove), Ordering.isLE_iff_ne_gt,
      Std.OrientedCmp.gt_iff_lt, compareTexts_eq_lt_iff, hnull]
    exact not_lt_concat_null (compareTexts_eq_lt_iff.mp htexts)
  have hatMost : a.AtMost a.justAbove := by rw [AtMost, hleft, Ordering.isLE_lt]
  cases hcompare : a.compare c with
  | lt => rfl
  | eq => cases hleft.symm.trans (h.equal hatMost hright hcompare).1
  | gt =>
    have hle := h.atMost hatMost hright
    rw [AtMost, hcompare] at hle
    cases hle

theorem SameOrder.symm (h : SameOrder a b) : SameOrder b a := by
  intro y x hy hx
  rw [@Std.OrientedCmp.eq_swap _ compareTexts, ← h x y hx hy, ← compare_numbers hx hy,
    ← compare_numbers hy hx]
  exact Std.OrientedCmp.eq_swap

/-- Two values are in order with all that read as no number exactly if they have one order. -/
theorem sameOrder_iff : SameOrder a c ↔
    ∀ b, b.toNumeral = .notANumber → InOrder a b c ∧ InOrder c b a := by
  constructor
  · intro h b hb
    exact ⟨Compatible.inOrder ⟨fun _ => .of_notANumber (.inl hb), fun _ => h,
        fun _ => .of_notANumber (.inr hb)⟩,
      Compatible.inOrder ⟨fun _ => .of_notANumber (.inl hb), fun _ => h.symm,
        fun _ => .of_notANumber (.inr hb)⟩⟩
  · intro h x y hx hy
    have ha : a ≠ .void := fun hvoid => by rw [hvoid] at hx; cases hx
    have hc : c ≠ .void := fun hvoid => by rw [hvoid] at hy; cases hy
    rw [← compare_numbers hx hy]
    -- the value in between is the text just above the lesser one of the two texts
    cases htexts : compareTexts a.toText c.toText with
    | lt => exact compare_eq_lt_of_inOrder ha hc htexts (h _ a.toNumeral_justAbove).1
    | eq =>
      have hvalue := value_eq_of_toText_eq hx hy (Std.LawfulEqCmp.eq_of_compare htexts)
      rw [compare_numbers hx hy, Decimal.compare_eq, compare_eq_iff_eq, hvalue]
    | gt =>
      rw [Std.OrientedCmp.gt_iff_lt] at htexts ⊢
      exact compare_eq_lt_of_inOrder hc ha htexts (h _ c.toNumeral_justAbove).2

/-! ## The relational operators -/

/-- An operator of a registry tells of any two values whether a relation holds. -/
def Tells (registry : Registry) (symbol : String) (relation : Value → Value → Prop) : Prop :=
  ∃ op, registry.operator? symbol = some op ∧
    ∀ a b, ∃ truth, op.apply a b = .ok (.bool truth) ∧ (truth = true ↔ relation a b)

/-- The relational operators of a registry describe one total preorder on a set of values. -/
structure DescribeOrder (registry : Registry) (atMost : Value → Value → Prop) (s : Set Value) :
    Prop where
  total : ∀ a ∈ s, ∀ b ∈ s, atMost a b ∨ atMost b a
  trans : ∀ a ∈ s, ∀ b ∈ s, ∀ c ∈ s, atMost a b → atMost b c → atMost a c
  less : Tells registry "<" fun a b => ¬atMost b a
  lessOrEqual : Tells registry "<=" fun a b => atMost a b
  equal : Tells registry "==" fun a b => atMost a b ∧ atMost b a
  greaterOrEqual : Tells registry ">=" fun a b => atMost b a
  greater : Tells registry ">" fun a b => ¬atMost a b

theorem tells_relational {settings : Settings} {op : Operator} {test : Ordering → Bool}
    (hmem : op ∈ Operator.relationals) (hop : op = .relational op.symbol test)
    {relation : Value → Value → Prop}
    (hrelation : ∀ a b : Value, test (a.compare b) = true ↔ relation a b) :
    Tells (.standard settings) op.symbol relation := by
  have hstandard : op ∈ Registry.standardOperators settings :=
    List.mem_append_left _ (List.mem_append_right _ hmem)
  refine ⟨op, Registry.operator?_standard settings hstandard, fun a b => ?_⟩
  exact ⟨test (a.compare b), by rw [hop, Operator.relational], hrelation a b⟩

theorem atMost_swap_iff : b.AtMost a ↔ a.compare b ≠ .lt := by
  rw [AtMost, @Std.OrientedCmp.eq_swap _ Value.compare]
  cases a.compare b <;> decide

/-- On values of which any three are compatible the standard operators describe one order. -/
theorem describeOrder_standard (settings : Settings) {s : Set Value}
    (h : ∀ a ∈ s, ∀ b ∈ s, ∀ c ∈ s, Compatible a b c) :
    DescribeOrder (.standard settings) AtMost s where
  total a _ b _ := by
    rw [atMost_swap_iff (a := a) (b := b), AtMost]
    cases a.compare b <;> simp
  trans a ha b hb c hc := (h a ha b hb c hc).inOrder.atMost
  less := by
    refine @tells_relational settings .less _ (by simp [Operator.relationals]) rfl _ fun a b => ?_
    rw [atMost_swap_iff]
    cases a.compare b <;> decide
  lessOrEqual := by
    refine @tells_relational settings .lessOrEqual _ (by simp [Operator.relationals]) rfl _
      fun a b => ?_
    rw [AtMost]
    cases a.compare b <;> decide
  equal := by
    refine @tells_relational settings .equal _ (by simp [Operator.relationals]) rfl _ fun a b => ?_
    rw [atMost_swap_iff (a := a) (b := b), AtMost]
    cases a.compare b <;> decide
  greaterOrEqual := by
    refine @tells_relational settings .greaterOrEqual _ (by simp [Operator.relationals]) rfl _
      fun a b => ?_
    rw [atMost_swap_iff]
    cases a.compare b <;> decide
  greater := by
    refine @tells_relational settings .greater _ (by simp [Operator.relationals]) rfl _
      fun a b => ?_
    rw [AtMost]
    cases a.compare b <;> decide

/-! ## Main statement -/

/-- Compatible values are in order, and two values are in order with all that read as no number exactly
if their numbers, where they have some, are ordered as their texts are.  On compatible values the
standard operators describe one total preorder. -/
theorem compare_ordered :
    (∀ a b c : Value, Compatible a b c → InOrder a b c) ∧
      (∀ a c : Value, SameOrder a c ↔
        ∀ b, b.toNumeral = .notANumber → InOrder a b c ∧ InOrder c b a) ∧
      ∀ (settings : Settings) (s : Set Value),
        (∀ a ∈ s, ∀ b ∈ s, ∀ c ∈ s, Compatible a b c) →
          DescribeOrder (.standard settings) AtMost s :=
  ⟨fun _ _ _ h => h.inOrder, fun _ _ => sameOrder_iff,
    fun settings _ h => describeOrder_standard settings h⟩

/-- A text that reads as no number between two numbers with two digits, and an order of all values but
such texts. -/
theorem compare_ordered_of_same_digits :
    Compatible (.number ⟨12, 0⟩) (.text "1a") (.text "20") ∧
      InOrder (.number ⟨12, 0⟩) (.text "1a") (.text "20") ∧
      DescribeOrder (.standard .default) AtMost {a | a.toNumeral ≠ .notANumber} := by
  have hnumber : (Value.text "20").toNumeral = .number ⟨20, 0⟩ := by cbv
  have hcompatible : Compatible (.number ⟨12, 0⟩) (.text "1a") (.text "20") := by
    refine ⟨fun h => ?_, fun _ x y hx hy => ?_, fun h => ?_⟩
    · cases h
    · cases hx
      cases hnumber.symm.trans hy
      decide +kernel
    · cases hnumber.symm.trans h
  refine ⟨hcompatible, compare_ordered.1 _ _ _ hcompatible, compare_ordered.2.2 _ _ ?_⟩
  exact fun a ha b hb c hc => ⟨fun h => absurd h ha, fun h => absurd h hb, fun h => absurd h hc⟩

/-- A text between two numbers that have another order than their texts. -/
theorem compare_mixed :
    (Value.number ⟨10, 0⟩).compare (.text "1a") = .lt ∧
      (Value.text "1a").compare (.number ⟨2, 0⟩) = .lt ∧
      (Value.number ⟨10, 0⟩).compare (.number ⟨2, 0⟩) = .gt ∧
      ¬InOrder (.number ⟨10, 0⟩) (.text "1a") (.number ⟨2, 0⟩) := by
  have hfirst : (Value.number ⟨10, 0⟩).compare (.text "1a") = .lt := by decide +kernel
  have hsecond : (Value.text "1a").compare (.number ⟨2, 0⟩) = .lt := by decide +kernel
  have hboth : (Value.number ⟨10, 0⟩).compare (.number ⟨2, 0⟩) = .gt := by decide +kernel
  refine ⟨hfirst, hsecond, hboth, fun h => ?_⟩
  have hle := h.atMost (by rw [AtMost, hfirst]; rfl) (by rw [AtMost, hsecond]; rfl)
  rw [AtMost, hboth] at hle
  cases hle

end Abacus.Value
