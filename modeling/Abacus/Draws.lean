/-!
# Draws

What chance gives an evaluation, fixed before the evaluation starts.  Draws are handed out along an
expression: the draws of an expression are split between its parts, so that every call in it has a
draw of its own, whatever the other calls draw.
-/

namespace Abacus

/-- A draw for every place in an expression.  A place is given by the way to it from the root. -/
abbrev Draws := List Bool → Nat

namespace Draws

/-- The draw of the root itself. -/
def own (draws : Draws) : Nat := draws []

/-- The draws of the first part. -/
def first (draws : Draws) : Draws := fun way => draws (false :: way)

/-- The draws of the second part, and of those behind it. -/
def second (draws : Draws) : Draws := fun way => draws (true :: way)

/-- All draws are those of the first part of something. -/
theorem exists_first (draws : Draws) : ∃ whole : Draws, whole.first = draws :=
  ⟨fun way => draws way.tail, rfl⟩

end Draws

end Abacus
