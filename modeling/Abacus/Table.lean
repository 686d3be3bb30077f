import Std.Data.ExtTreeMap

/-!
# Tables

Finite maps from names.  Two tables with the same entries are equal, and entries are listed in the
order of their names by code points.
-/

namespace Abacus

/-- A finite map from names to entries. -/
abbrev Table (α : Type) := Std.ExtTreeMap String α

namespace Table

variable {α : Type}

/-- The entries of both tables; where both have one, that of `second`. -/
def override (first second : Table α) : Table α := first ∪ second

theorem getElem?_override (first second : Table α) (name : String) :
    (override first second)[name]? = second[name]?.or first[name]? :=
  Std.ExtTreeMap.getElem?_union

/-- The entries in the order of their names. -/
def entries (table : Table α) : List α := table.toList.map (·.2)

end Table

end Abacus
