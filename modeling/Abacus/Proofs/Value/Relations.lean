import Abacus.Proofs.Value.Order

/-!
# The relational operators in both directions

Which rule compares two values depends on both of them, on their types and on what their texts read as.
The rule is the same in either order of the operands: comparing the other way round gives the reversed
outcome, and a value is equal to itself.

A relational operator is a test of this outcome, and `<` and `>`, `<=` and `>=` are tests that reversing
exchanges, while it leaves `==` and `!=` as they are (`answer?_swap`).  So the operators of the standard
registry answer for all operands, never with an error, and their answers fit together in both directions
(`isReversible_standard`).  The main statement is `comparisons_reversible`.
-/

namespace Abacus

/-! ## Answers of a registry -/

namespace Registry

/-- What the operator with a symbol gives for two operands, if there is such an operator. -/
def answer? (registry : Registry) (symbol : String) (a b : Value) :
    Option (Except EvalError Value) :=
  (registry.operator? symbol).map fun op => op.apply a b

/-- The operator with a symbol answers that the relation holds. -/
def Holds (registry : Registry) (symbol : String) (a b : Value) : Prop :=
  registry.answer? symbol a b = some (.ok (.bool true))

/-- The relational operators of a registry always tell whether they hold, and they describe the two
orders of their operands in the same way. -/
structure IsReversible (registry : Registry) : Prop where
  decides : ∀ symbol ∈ ["<", "<=", ">", ">=", "==", "!="], ∀ a b, ∃ truth,
    registry.answer? symbol a b = some (.ok (.bool truth))
  less : ∀ a b, registry.Holds "<" a b ↔ registry.Holds ">" b a
  lessOrEqual : ∀ a b, registry.Holds "<=" a b ↔ registry.Holds ">=" b a
  equal : ∀ a b, registry.Holds "==" a b ↔ registry.Holds "==" b a
  notEqual : ∀ a b, registry.Holds "!=" a b ↔ registry.Holds "!=" b a
  reflexive : ∀ a, registry.Holds "==" a a
  exactlyOne : ∀ a b, ∃! symbol, symbol ∈ ["<", "==", ">"] ∧ registry.Holds symbol a b

end Registry

namespace Operator

/-- The symbols of the relational operators, and the outcomes of a comparison for which they hold. -/
def relationTests : List (String × (Ordering → Bool)) :=
  [("<", (· == .lt)), ("<=", (· != .gt)), (">", (· == .gt)), (">=", (· != .lt)), ("==", (· == .eq)),
    ("!=", (· != .eq))]

theorem relationals_eq :
    relationals = relationTests.map fun relation => relational relation.1 relation.2 := rfl

end Operator

namespace Registry

open Operator

variable {settings : Settings} {symbol symbol' : String} {test test' : Ordering → Bool}

/-- A relational operator of the standard registry tests the outcome of the comparison. -/
theorem answer?_standard (h : (symbol, test) ∈ relationTests) (a b : Value) :
    (standard settings).answer? symbol a b = some (.ok (.bool (test (a.compare b)))) := by
  have hmem : relational symbol test ∈ relationals := by
    rw [relationals_eq]
    exact List.mem_map_of_mem h
  have hstandard : relational symbol test ∈ standardOperators settings :=
    List.mem_append_left _ (List.mem_append_right _ hmem)
  have hfound := operator?_standard settings hstandard
  simp only [relational] at hfound
  rw [answer?, hfound, Option.map_some]

theorem holds_standard_iff (h : (symbol, test) ∈ relationTests) (a b : Value) :
    (standard settings).Holds symbol a b ↔ test (a.compare b) = true := by
  rw [Holds, answer?_standard h]
  simp

/-- Tests that differ by the direction of the outcome hold of the same operands in the two orders. -/
theorem holds_swap_iff (h : (symbol, test) ∈ relationTests) (h' : (symbol', test') ∈ relationTests)
    (hswap : ∀ outcome : Ordering, test' outcome.swap = test outcome) (a b : Value) :
    (standard settings).Holds symbol a b ↔ (standard settings).Holds symbol' b a := by
  have hcompare : b.compare a = (a.compare b).swap := Std.OrientedCmp.eq_swap
  rw [holds_standard_iff h, holds_standard_iff h', hcompare, hswap]

/-- The outcome of a comparison is that of exactly one of the operators `<`, `==` and `>`. -/
theorem existsUnique_holds (a b : Value) :
    ∃! symbol, symbol ∈ ["<", "==", ">"] ∧ (standard settings).Holds symbol a b := by
  have hless := @holds_standard_iff settings "<" (· == .lt) (by simp [relationTests]) a b
  have hequal := @holds_standard_iff settings "==" (· == .eq) (by simp [relationTests]) a b
  have hgreater := @holds_standard_iff settings ">" (· == .gt) (by simp [relationTests]) a b
  -- each outcome has its own operator, and the tests of the two others fail on it
  cases houtcome : a.compare b <;> rw [houtcome] at hless hequal hgreater
  · refine ⟨"<", ⟨by simp, hless.mpr rfl⟩, ?_⟩
    simp [hequal, hgreater]
  · refine ⟨"==", ⟨by simp, hequal.mpr rfl⟩, ?_⟩
    simp [hless, hgreater]
  · refine ⟨">", ⟨by simp, hgreater.mpr rfl⟩, ?_⟩
    simp [hless, hequal]

theorem isReversible_standard (settings : Settings) : (standard settings).IsReversible where
  decides symbol hsymbol a b := by
    have hrelation : ∃ test, (symbol, test) ∈ relationTests := by
      have hmem : symbol ∈ relationTests.map Prod.fst := hsymbol
      obtain ⟨⟨_, test⟩, hrelation, rfl⟩ := List.mem_map.mp hmem
      exact ⟨test, hrelation⟩
    obtain ⟨test, hrelation⟩ := hrelation
    exact ⟨_, answer?_standard hrelation a b⟩
  less := by
    apply @holds_swap_iff settings _ _ (· == .lt) (· == .gt) (by simp [relationTests])
      (by simp [relationTests])
    intro outcome
    cases outcome <;> rfl
  lessOrEqual := by
    apply @holds_swap_iff settings _ _ (· != .gt) (· != .lt) (by simp [relationTests])
      (by simp [relationTests])
    intro outcome
    cases outcome <;> rfl
  equal := by
    apply @holds_swap_iff settings _ _ (· == .eq) (· == .eq) (by simp [relationTests])
      (by simp [relationTests])
    intro outcome
    cases outcome <;> rfl
  notEqual := by
    apply @holds_swap_iff settings _ _ (· != .eq) (· != .eq) (by simp [relationTests])
      (by simp [relationTests])
    intro outcome
    cases outcome <;> rfl
  reflexive a := by
    rw [@holds_standard_iff settings "==" (· == .eq) (by simp [relationTests])]
    exact beq_iff_eq.mpr Std.ReflCmp.compare_self
  exactlyOne := existsUnique_holds

end Registry

/-! ## Main statement -/

/-- Comparing the other way round reverses the outcome, every value is equal to itself, and the relational
operators of the standard registry answer accordingly, whatever its settings. -/
theorem comparisons_reversible :
    (∀ a b : Value, b.compare a = (a.compare b).swap) ∧ (∀ a : Value, a.compare a = .eq) ∧
      ∀ settings : Settings, (Registry.standard settings).IsReversible :=
  ⟨fun _ _ => Std.OrientedCmp.eq_swap, fun _ => Std.ReflCmp.compare_self,
    Registry.isReversible_standard⟩

end Abacus
