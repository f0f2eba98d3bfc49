import SatScript.Table
/-!
# SatScript — scopes

A scope is a frame of names inside further frames. Looking a name up goes
from the inner frame outwards. Extending a scope puts a new frame inside
and leaves the old scope as it was, so scopes that extend the same scope
do not see each other.
-/

namespace SatScript

/-- Names with their values: the inner frame, and the frames around it from
inner to outer. -/
structure Scope (α : Type) where
  frame : Table α
  outer : List (Table α) := []

namespace Scope

variable {α : Type}

/-- One frame without names. -/
def empty : Scope α := { frame := Table.empty }

/-- The frames, from inner to outer. -/
def frames (scope : Scope α) : List (Table α) := scope.frame :: scope.outer

/-- The value of a name in the innermost frame that has it. -/
def lookup (scope : Scope α) (name : String) : Option α :=
  scope.frames.findSome? fun frame => frame.get? name

/-- The scope inside which new names are visible; of several values for one
name the last counts. -/
def extend (scope : Scope α) (bindings : List (String × α)) : Scope α :=
  { frame := Table.ofList bindings, outer := scope.frames }

/-- The scope whose inner frame gives the name this value. -/
def define (scope : Scope α) (name : String) (value : α) : Scope α :=
  { scope with frame := scope.frame.set name value }

/-! ## Look-up -/

@[simp] theorem lookup_empty (name : String) : (empty : Scope α).lookup name = none := rfl

/-- The inner frame decides; only a name it does not have is looked up
further out. -/
theorem lookup_extend (scope : Scope α) (bindings : List (String × α)) (name : String) :
    (scope.extend bindings).lookup name =
      ((Table.ofList bindings).get? name).or (scope.lookup name) := by
  simp only [lookup, extend, frames, List.findSome?_cons]
  cases (Table.ofList bindings).get? name <;> rfl

/-- **Defining a name changes the look-up of that name and of no other.** -/
@[simp] theorem lookup_define (scope : Scope α) (name other : String) (value : α) :
    (scope.define name value).lookup other =
      if other = name then some value else scope.lookup other := by
  simp only [lookup, define, frames, List.findSome?_cons, Table.get?_set]
  by_cases h : other = name <;> simp [h]

end Scope

end SatScript
