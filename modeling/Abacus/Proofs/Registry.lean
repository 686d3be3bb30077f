import Abacus.Registry
import Mathlib

/-!
# The standard registry

A table that is filled from a list gives the entry whose name no other one has, and gives nothing
for a name that is not in the list.  So the standard registry has the operations with their
standard rules, and its functions are the standard ones.
-/

namespace Abacus

/-! ## Tables filled from lists -/

namespace Table

variable {α β : Type} {name : β → String} {entry : β → α}

/-- A table with the entries of a list put in, from the left. -/
def fill (name : β → String) (entry : β → α) (items : List β) (table : Table α) : Table α :=
  items.foldl (fun table item => table.insert (name item) (entry item)) table

theorem getElem?_fill_of_not_mem {items : List β} {asked : String} (h : asked ∉ items.map name)
    (entry : β → α) (table : Table α) :
    (fill name entry items table)[asked]? = table[asked]? := by
  induction items generalizing table with
  | nil => rfl
  | cons item items ih =>
    rw [List.map_cons, List.mem_cons, not_or] at h
    have hrest := ih h.2 (table.insert (name item) (entry item))
    rw [Std.ExtTreeMap.getElem?_insert, if_neg (by simpa using Ne.symm h.1)] at hrest
    exact hrest

/-- An entry whose name no other one has is found by it. -/
theorem getElem?_fill {items : List β} (hnodup : (items.map name).Nodup) {item : β}
    (h : item ∈ items) (table : Table α) :
    (fill name entry items table)[name item]? = some (entry item) := by
  induction items generalizing table with
  | nil => cases h
  | cons first items ih =>
    rw [List.map_cons, List.nodup_cons] at hnodup
    rcases List.mem_cons.mp h with heq | hmem
    · rw [heq]
      have hrest :=
        getElem?_fill_of_not_mem hnodup.1 entry (table.insert (name first) (entry first))
      rw [Std.ExtTreeMap.getElem?_insert_self] at hrest
      exact hrest
    · exact ih hnodup.2 hmem _

/-- Nothing is found but the entries of the list. -/
theorem exists_of_getElem?_fill {items : List β} (hnodup : (items.map name).Nodup) {asked : String}
    {found : α} (h : (fill name entry items ∅)[asked]? = some found) :
    ∃ item ∈ items, name item = asked ∧ entry item = found := by
  by_cases hmem : asked ∈ items.map name
  · obtain ⟨item, hitem, rfl⟩ := List.mem_map.mp hmem
    rw [getElem?_fill hnodup hitem] at h
    exact ⟨item, hitem, rfl, Option.some.inj h⟩
  · rw [getElem?_fill_of_not_mem hmem] at h
    cases h.symm.trans Std.ExtTreeMap.getElem?_empty

end Table

/-! ## What the standard registry knows -/

namespace Registry

variable (settings : Settings)

/-- What no step changes is as it was at the start. -/
theorem foldl_keeps {α β γ : Type} (part : β → γ) {step : β → α → β}
    (h : ∀ start item, part (step start item) = part start) (items : List α) (start : β) :
    part (items.foldl step start) = part start := by
  induction items generalizing start with
  | nil => rfl
  | cons item items ih => rw [List.foldl_cons, ih, h]

theorem operators_standard :
    (standard settings).operators =
      Table.fill Operator.symbol id (standardOperators settings) ∅ := by
  have hcallables : (standard settings).operators =
      ((standardOperators settings).foldl withOperator empty).operators :=
    foldl_keeps operators (fun _ _ => rfl) (standardCallables settings) _
  rw [hcallables]
  exact (List.foldl_hom operators fun _ _ => rfl).symm

theorem callables_standard :
    (standard settings).callables =
      Table.fill Prod.fst Prod.snd (standardCallables settings) ∅ := by
  have hoperators : ((standardOperators settings).foldl withOperator empty).callables = ∅ :=
    foldl_keeps callables (fun _ _ => rfl) (standardOperators settings) _
  rw [← hoperators]
  exact (List.foldl_hom callables fun _ _ => rfl).symm

theorem nodup_standardOperators : ((standardOperators settings).map Operator.symbol).Nodup := by
  change ["+", "-", "*", "/", "%", "^", "<", "<=", ">", ">=", "==", "!=", "&&", "||", "!"].Nodup
  decide

theorem nodup_standardCallables : ((standardCallables settings).map Prod.fst).Nodup := by
  change ["abs", "max", "min", "sum", "sqrt", "round", "sin", "cos", "tan", "random"].Nodup
  decide

/-- The standard rule of an operation. -/
def standardOperation : BinaryOp → Arithmetical
  | .add => .add
  | .sub => .sub
  | .mul => .mul
  | .div => .div settings.division
  | .rem => .rem
  | .pow => .pow settings.precision

/-- A standard operator is found by its symbol. -/
theorem operator?_standard {op : Operator} (h : op ∈ standardOperators settings) :
    (standard settings).operator? op.symbol = some op := by
  rw [operator?, operators_standard]
  exact Table.getElem?_fill (nodup_standardOperators settings) h ∅

theorem operator?_binary (op : BinaryOp) :
    (standard settings).operator? op.symbol =
      some (standardOperation settings op).toOperator := by
  have hmem : (standardOperation settings op).toOperator ∈ standardOperators settings := by
    cases op <;> simp [standardOperators, standardOperation]
  have hsymbol : (standardOperation settings op).toOperator.symbol = op.symbol := by
    cases op <;> rfl
  rw [← hsymbol, operator?_standard settings hmem]

/-- The standard operators have the priorities that operations have without operators. -/
theorem priority_standard (op : BinaryOp) :
    (standard settings).grammar.priority op = op.defaultPriority := by
  simp only [grammar, priority, operator?_binary]
  cases op <;> rfl

/-- The signs have the rules of two operations that work on one operand too. -/
theorem operator?_unary (op : UnaryOp) :
    ∃ rule : BinaryOp,
      (standard settings).operator? op.symbol = some (standardOperation settings rule).toOperator ∧
        (standardOperation settings rule).isUnary = true := by
  cases op with
  | plus => exact ⟨.add, operator?_binary settings .add, rfl⟩
  | minus => exact ⟨.sub, operator?_binary settings .sub, rfl⟩

/-- The operators that are found are the standard ones. -/
theorem mem_standardOperators {symbol : String} {op : Operator}
    (h : (standard settings).operator? symbol = some op) : op ∈ standardOperators settings := by
  rw [operator?, operators_standard] at h
  obtain ⟨op', hmem, _, rfl⟩ := Table.exists_of_getElem?_fill (nodup_standardOperators settings) h
  exact hmem

/-- The functions that are found are the standard ones. -/
theorem callable?_standard_iff {name : String} {callee : Callable} :
    (standard settings).callable? name = some callee ↔
      (name, callee) ∈ standardCallables settings := by
  rw [callable?, callables_standard]
  constructor
  · intro h
    obtain ⟨⟨_, _⟩, hmem, rfl, rfl⟩ :=
      Table.exists_of_getElem?_fill (nodup_standardCallables settings) h
    exact hmem
  · exact fun hmem => Table.getElem?_fill (nodup_standardCallables settings) hmem ∅

end Registry

end Abacus
