import Abacus.Proofs.Decimal.ScaleRange
import Abacus.Proofs.Registry

/-!
# Sums of lists

A decimal is determined by its value and its scale.  One more number adds its value, and leaves the
greatest of the scales so far (`IsSum.snoc`).  So a sum has the value and the scale that `IsSum` asks for,
and these depend neither on the order of the numbers nor on how they are grouped.
-/

namespace Abacus.Decimal

variable {xs ys : List Decimal} {total total' : Decimal}

/-- The number has the value that the numbers of a list have together, at the greatest of their scales, or at
zero if that is greater. -/
structure IsSum (xs : List Decimal) (total : Decimal) : Prop where
  value_eq : total.value = (xs.map value).sum
  isGreatest : IsGreatest {n | n ∈ 0 :: xs.map scale} total.scale

namespace IsSum

theorem nil : IsSum [] zero where
  value_eq := by simp
  isGreatest := by
    constructor
    · exact List.mem_cons_self
    · intro n hn
      exact (List.mem_singleton.mp hn).le

theorem unique (h : IsSum xs total) (h' : IsSum xs total') : total = total' :=
  eq_of_value_of_scale (h.value_eq.trans h'.value_eq.symm) (h.isGreatest.unique h'.isGreatest)

theorem perm (h : IsSum xs total) (hperm : xs.Perm ys) : IsSum ys total where
  value_eq := by rw [h.value_eq, (hperm.map value).sum_eq]
  isGreatest := by
    have hscales : ∀ n, n ∈ 0 :: ys.map Decimal.scale ↔ n ∈ 0 :: xs.map Decimal.scale :=
      fun _ => ((hperm.map Decimal.scale).symm.cons 0).mem_iff
    simpa only [hscales] using h.isGreatest

/-- Two sums add up to the sum of what both have. -/
theorem add (h : IsSum xs total) (h' : IsSum ys total') : IsSum (xs ++ ys) (total + total') where
  value_eq := by rw [value_add, h.value_eq, h'.value_eq, List.map_append, List.sum_append]
  isGreatest := by
    have hscales : {n | n ∈ 0 :: (xs ++ ys).map Decimal.scale} =
        {n | n ∈ 0 :: xs.map Decimal.scale} ∪ {n | n ∈ 0 :: ys.map Decimal.scale} := by
      ext n
      simp only [List.map_append, List.mem_cons, List.mem_append, Set.mem_union, Set.mem_ofPred_eq]
      tauto
    rw [hscales]
    exact h.isGreatest.union h'.isGreatest

/-- One more number is added. -/
theorem snoc (h : IsSum xs total) (x : Decimal) : IsSum (xs ++ [x]) (total + x) where
  value_eq := by rw [value_add, h.value_eq, List.map_append, List.sum_append, List.map_singleton,
    List.sum_singleton]
  isGreatest := by
    have hscales : {n | n ∈ 0 :: (xs ++ [x]).map Decimal.scale} =
        {n | n ∈ 0 :: xs.map Decimal.scale} ∪ {x.scale} := by
      ext n
      simp only [List.map_append, List.map_singleton, List.mem_cons, List.mem_append, Set.mem_union,
        Set.mem_ofPred_eq, Set.mem_singleton_iff, List.not_mem_nil, or_false]
      tauto
    rw [hscales]
    exact h.isGreatest.union isGreatest_singleton

/-- All numbers of a list are added, from the left. -/
theorem foldl (h : IsSum xs total) (ys : List Decimal) : IsSum (xs ++ ys) (ys.foldl Decimal.add total) := by
  induction ys generalizing xs total with
  | nil => rwa [List.append_nil]
  | cons y ys ih =>
    rw [List.append_cons, List.foldl_cons]
    exact ih (h.snoc y)

end IsSum

theorem isSum_sum (xs : List Decimal) : IsSum xs (sum xs) := IsSum.nil.foldl xs

/-! ## Orders and groupings -/

/-- What the numbers of a list are added up to: the list is cut into parts and put into any order, the
parts are summed, and their sums are added. -/
inductive AddsUp : List Decimal → Decimal → Prop
  | sum (xs : List Decimal) : AddsUp xs (sum xs)
  | add {xs ys : List Decimal} {total total' : Decimal} (lhs : AddsUp xs total)
      (rhs : AddsUp ys total') : AddsUp (xs ++ ys) (total + total')
  | perm {xs ys : List Decimal} {total : Decimal} (hperm : xs.Perm ys) (h : AddsUp xs total) :
      AddsUp ys total

theorem AddsUp.isSum (h : AddsUp xs total) : IsSum xs total := by
  induction h with
  | sum xs => exact isSum_sum xs
  | add _ _ ihlhs ihrhs => exact ihlhs.add ihrhs
  | perm hperm _ ih => exact ih.perm hperm

/-- The sums of parts are added to what is there already. -/
theorem AddsUp.foldl (h : AddsUp xs total) (parts : List (List Decimal)) :
    AddsUp (xs ++ parts.flatten) ((parts.map Decimal.sum).foldl Decimal.add total) := by
  induction parts generalizing xs total with
  | nil => rwa [List.flatten_nil, List.append_nil]
  | cons part parts ih =>
    rw [List.flatten_cons, ← List.append_assoc, List.map_cons, List.foldl_cons]
    exact ih (h.add (.sum part))

theorem addsUp_sum_map_sum (parts : List (List Decimal)) : AddsUp parts.flatten (sum (parts.map sum)) :=
  AddsUp.foldl (.sum []) parts

theorem result_applyCallable_sum (draw : Nat) (span : Span) (name : String) {values : List (Located Value)}
    (h : Callable.sum.arity.accepts values.length = true) :
    (Evaluation.applyCallable .sum draw span name values).result =
      (fun xs => .number (sum xs)) <$> (Evaluation.arguments values).result := by
  have hcheck : Callable.sum.checkArity name values.length = .ok () := if_pos h
  rw [Evaluation.result_applyCallable, hcheck]
  cases (Evaluation.arguments values).result <;> rfl

/-- A sum is exact, at the greatest of zero and the scales, and it is the same decimal for every order and
every grouping of the numbers.  The function `sum` gives this decimal. -/
theorem sum_is_exact_in_every_order (xs : List Decimal) :
    (sum xs).value = (xs.map value).sum ∧
    IsGreatest {n | n ∈ 0 :: xs.map scale} (sum xs).scale ∧
    (∀ ys : List Decimal, ys.Perm xs → sum ys = sum xs) ∧
    (∀ parts : List (List Decimal), parts.flatten.Perm xs → sum (parts.map sum) = sum xs) ∧
    (∀ total, AddsUp xs total → total = sum xs) ∧
    ∀ settings, ∃ callee, (Registry.standard settings).callable? "sum" = some callee ∧
      (callee.arity.accepts xs.length = true →
        ∀ draw, callee.run draw xs = .ok (.number (sum xs))) ∧
      ∀ (draw : Nat) (span : Span) (name : String) (values : List (Located Value)),
        callee.arity.accepts values.length = true →
        (Evaluation.applyCallable callee draw span name values).result =
          (fun xs => .number (sum xs)) <$> (Evaluation.arguments values).result := by
  have hsum := isSum_sum xs
  refine ⟨hsum.value_eq, hsum.isGreatest, ?_, ?_, ?_, ?_⟩
  · intro ys hperm
    exact ((isSum_sum ys).perm hperm).unique hsum
  · intro parts hperm
    exact ((addsUp_sum_map_sum parts).isSum.perm hperm).unique hsum
  · intro total h
    exact h.isSum.unique hsum
  · intro settings
    refine ⟨.sum, ?_, fun _ _ => rfl,
      fun draw span name values => result_applyCallable_sum draw span name⟩
    rw [Registry.callable?_standard_iff]
    simp [Registry.standardCallables]

/-- Three numbers with scales on both sides of zero, in another order, in two parts, and as arguments. -/
theorem sum_is_exact_of_mixed_scales :
    [⟨-1, 0⟩, ⟨5, -1⟩, ⟨25, 2⟩].Perm [(⟨5, -1⟩ : Decimal), ⟨25, 2⟩, ⟨-1, 0⟩] ∧
    [[⟨25, 2⟩], [⟨-1, 0⟩, ⟨5, -1⟩]].flatten.Perm [(⟨5, -1⟩ : Decimal), ⟨25, 2⟩, ⟨-1, 0⟩] ∧
    sum [⟨5, -1⟩, ⟨25, 2⟩, ⟨-1, 0⟩] = ⟨4925, 2⟩ ∧
    sum [⟨-1, 0⟩, ⟨5, -1⟩, ⟨25, 2⟩] = ⟨4925, 2⟩ ∧
    sum ([[⟨25, 2⟩], [⟨-1, 0⟩, ⟨5, -1⟩]].map sum) = ⟨4925, 2⟩ ∧
    ∃ callee, (Registry.standard .default).callable? "sum" = some callee ∧
      ∀ draw, callee.run draw [⟨5, -1⟩, ⟨25, 2⟩, ⟨-1, 0⟩] = .ok (.number ⟨4925, 2⟩) := by
  have hperm : [⟨-1, 0⟩, ⟨5, -1⟩, ⟨25, 2⟩].Perm
      [(⟨5, -1⟩ : Decimal), ⟨25, 2⟩, ⟨-1, 0⟩] := by decide
  have hparts : [[⟨25, 2⟩], [⟨-1, 0⟩, ⟨5, -1⟩]].flatten.Perm
      [(⟨5, -1⟩ : Decimal), ⟨25, 2⟩, ⟨-1, 0⟩] := by decide
  have hsum : sum [⟨5, -1⟩, ⟨25, 2⟩, ⟨-1, 0⟩] = ⟨4925, 2⟩ := by decide
  obtain ⟨-, -, horder, hgroups, -, hcallee⟩ :=
    sum_is_exact_in_every_order [⟨5, -1⟩, ⟨25, 2⟩, ⟨-1, 0⟩]
  obtain ⟨callee, hfound, hrun, -⟩ := hcallee .default
  have harity : callee = .sum := by
    rw [Registry.callable?_standard_iff] at hfound
    simpa [Registry.standardCallables] using hfound
  refine ⟨hperm, hparts, hsum, (horder _ hperm).trans hsum, (hgroups _ hparts).trans hsum, callee,
    hfound, fun draw => ?_⟩
  rw [hrun (by rw [harity]; rfl), hsum]

end Abacus.Decimal
