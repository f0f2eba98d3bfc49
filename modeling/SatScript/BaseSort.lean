/-!
# SatScript — sorts

Every expression has one of two sorts, the truth values and the reals.
-/

namespace SatScript

/-- The sort of an expression. -/
inductive BaseSort where
  | bool
  | real
deriving DecidableEq, Inhabited

namespace BaseSort

/-- The sorts, in the order in which they are offered. -/
def all : List BaseSort := [.bool, .real]

/-- The name of a sort in a script. -/
def name : BaseSort → String
  | .bool => "Bool"
  | .real => "Real"

/-- The sort that a name stands for. -/
def ofName? (name : String) : Option BaseSort := all.find? fun sort => sort.name == name

/-- A name stands for a sort exactly if it is the name of that sort. -/
theorem ofName?_eq_some_iff {name : String} {sort : BaseSort} :
    ofName? name = some sort ↔ sort.name = name := by
  unfold ofName? all
  by_cases hb : BaseSort.bool.name = name
  · subst hb
    cases sort <;> simp [BaseSort.name]
  · by_cases hr : BaseSort.real.name = name
    · subst hr
      cases sort <;> simp [BaseSort.name]
    · cases sort <;> simp [hb, hr]

end BaseSort

end SatScript
