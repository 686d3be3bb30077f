import Mathlib

/-!
# Trees over a chain of terms

A chain is a row of terms with an operator between every two neighbours.  A tree over it says how
its operators group.  Every operator has a strength and a reach, one apart at most: an operator
takes a joined left operand only if it is weaker than that one's reach, and a joined right operand
only if that one is as strong as its own reach.

The two conditions are about parents and children, but they spread to all operators below a node
(`Chain.Grouped.left_of_root` and `Chain.Grouped.right_of_root`).  So two grouped trees over one
chain have the same root, and by induction they are equal: `Chain.Grouped.unique`.
-/

namespace Abacus

/-- A tree over a chain: `α` are the terms and `ω` the operators. -/
inductive Chain (α ω : Type) where
  | term (value : α)
  | join (lhs : Chain α ω) (op : ω) (rhs : Chain α ω)

namespace Chain

variable {α ω : Type}

/-- The first term of the chain. -/
def first : Chain α ω → α
  | .term value => value
  | .join lhs _ _ => lhs.first

/-- The operators of the chain, each with the term behind it. -/
def rest : Chain α ω → List (ω × α)
  | .term _ => []
  | .join lhs op rhs => lhs.rest ++ (op, rhs.first) :: rhs.rest

/-- The operator that joins the whole chain. -/
def root? : Chain α ω → Option ω
  | .term _ => none
  | .join _ op _ => some op

variable (strength reach : ω → Nat)

/-- At every node the operands are joined in the way that the operators ask for. -/
def Grouped : Chain α ω → Prop
  | .term _ => True
  | .join lhs op rhs =>
    lhs.Grouped ∧ rhs.Grouped ∧ (∀ left ∈ lhs.root?, strength op < reach left) ∧
      ∀ right ∈ rhs.root?, reach op ≤ strength right

variable {strength reach}

section Spread

variable (hone : ∀ op, reach op ≤ strength op + 1) (hle : ∀ op, strength op ≤ reach op)

include hone hle

/-- What may stand to the right of the root may stand to the right of every operator. -/
theorem Grouped.left_of_root {chain : Chain α ω} (h : chain.Grouped strength reach) {op : ω}
    (hroot : ∀ root ∈ chain.root?, strength op < reach root) :
    ∀ entry ∈ chain.rest, strength op < reach entry.1 := by
  induction chain with
  | term value =>
    intro entry hentry
    cases hentry
  | join lhs root rhs ihlhs ihrhs =>
    obtain ⟨hlhs, hrhs, hleft, hright⟩ := h
    have hop : strength op < reach root := hroot root rfl
    intro entry hentry
    rcases List.mem_append.mp hentry with hentry | hentry
    · refine ihlhs hlhs ?_ entry hentry
      intro left hmem
      have hless := hleft left hmem
      have hnear := hone root
      omega
    · rcases List.mem_cons.mp hentry with heq | hentry
      · rw [heq]
        exact hop
      · refine ihrhs hrhs ?_ entry hentry
        intro right hmem
        have hless := hright right hmem
        have hnear := hle right
        omega

/-- What may stand to the left of the root may stand to the left of every operator. -/
theorem Grouped.right_of_root {chain : Chain α ω} (h : chain.Grouped strength reach) {op : ω}
    (hroot : ∀ root ∈ chain.root?, reach op ≤ strength root) :
    ∀ entry ∈ chain.rest, reach op ≤ strength entry.1 := by
  induction chain with
  | term value =>
    intro entry hentry
    cases hentry
  | join lhs root rhs ihlhs ihrhs =>
    obtain ⟨hlhs, hrhs, hleft, hright⟩ := h
    have hop : reach op ≤ strength root := hroot root rfl
    intro entry hentry
    rcases List.mem_append.mp hentry with hentry | hentry
    · refine ihlhs hlhs ?_ entry hentry
      intro left hmem
      have hless := hleft left hmem
      have hnear := hone left
      omega
    · rcases List.mem_cons.mp hentry with heq | hentry
      · rw [heq]
        exact hop
      · refine ihrhs hrhs ?_ entry hentry
        intro right hmem
        have hless := hright right hmem
        have hnear := hle root
        omega

/-- The left operand of one grouped tree does not go on behind the root of another. -/
theorem Grouped.between_eq_nil {lhs rhs lhs' rhs' : Chain α ω} {op op' : ω}
    (h : (join lhs op rhs).Grouped strength reach)
    (h' : (join lhs' op' rhs').Grouped strength reach) {between : List (ω × α)}
    (hleft : lhs'.rest = lhs.rest ++ between)
    (hright : (op, rhs.first) :: rhs.rest = between ++ (op', rhs'.first) :: rhs'.rest) :
    between = [] := by
  cases between with
  | nil => rfl
  | cons entry between =>
    obtain ⟨_, hrhs, _, hjoin⟩ := h
    obtain ⟨hlhs', _, hjoin', _⟩ := h'
    obtain ⟨hentry, hrest⟩ := List.cons_eq_cons.mp hright
    have hless := hlhs'.left_of_root hone hle hjoin' entry (by simp [hleft])
    have hge := hrhs.right_of_root hone hle hjoin (op', rhs'.first) (by simp [hrest])
    rw [← hentry] at hless
    dsimp only at hless hge
    omega

/-- There is at most one grouped tree over a chain. -/
theorem Grouped.unique {chain chain' : Chain α ω} (h : chain.Grouped strength reach)
    (h' : chain'.Grouped strength reach) (hfirst : chain.first = chain'.first)
    (hrest : chain.rest = chain'.rest) : chain = chain' := by
  induction chain generalizing chain' with
  | term value =>
    cases chain' with
    | term value' => exact congrArg term hfirst
    | join lhs' op' rhs' => simp [rest] at hrest
  | join lhs op rhs ihlhs ihrhs =>
    cases chain' with
    | term value' => simp [rest] at hrest
    | join lhs' op' rhs' =>
      have hback : lhs'.rest.length = lhs.rest.length := by
        rcases List.append_eq_append_iff.mp hrest with ⟨between, hleft, hright⟩ |
          ⟨between, hleft, hright⟩
        · rw [hleft, h.between_eq_nil hone hle h' hleft hright, List.append_nil]
        · rw [hleft, h'.between_eq_nil hone hle h hleft hright, List.append_nil]
      obtain ⟨hlhs, hrhs, _, _⟩ := h
      obtain ⟨hlhs', hrhs', _, _⟩ := h'
      obtain ⟨hleft, hright⟩ := List.append_inj hrest hback.symm
      simp only [List.cons.injEq, Prod.mk.injEq] at hright
      obtain ⟨⟨rfl, hfirst'⟩, hrest'⟩ := hright
      rw [ihlhs hlhs hlhs' hfirst hleft, ihrhs hrhs hrhs' hfirst' hrest']

end Spread

end Chain

end Abacus
