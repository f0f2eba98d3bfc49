import SatScript.Text.Units
/-!
# SatScript — comments

A semicolon starts a comment that runs to the end of its line. There are
two ways to take comments out of a text. `withoutComments` deletes them
with the line feed that ends them, so what stood around a comment becomes
adjacent. `blankedComments` writes a space for every code unit of a
comment and keeps the line feeds, so that offsets into the result are
offsets into the text.
-/

namespace SatScript

namespace Text

/-- Delete comments; `inside` says whether the text begins in one. -/
def withoutFrom (inside : Bool) : List Char → List Char
  | [] => []
  | c :: cs =>
    if inside then withoutFrom (c != '\n') cs
    else if c = ';' then withoutFrom true cs
    else c :: withoutFrom false cs

/-- The text without its comments and without the line feeds that end
them. -/
def withoutComments (cs : List Char) : List Char := withoutFrom false cs

/-- Blank comments out; `inside` says whether the text begins in one. -/
def blankedFrom (inside : Bool) : List Char → List Char
  | [] => []
  | c :: cs =>
    if c != '\n' && (inside || c == ';') then
      List.replicate (width c) ' ' ++ blankedFrom true cs
    else c :: blankedFrom false cs

/-- The text with a space for every code unit of its comments. -/
def blankedComments (cs : List Char) : List Char := blankedFrom false cs

theorem units_replicate_space (n : Nat) : units (List.replicate n ' ') = n := by
  induction n with
  | zero => rfl
  | succ n ih =>
    have h : width ' ' = 1 := rfl
    rw [List.replicate_succ, units_cons, ih, h]
    omega

/-- Blanking from either state keeps the measure. -/
theorem units_blankedFrom (inside : Bool) (cs : List Char) :
    units (blankedFrom inside cs) = units cs := by
  induction cs generalizing inside with
  | nil => rfl
  | cons c cs ih =>
    unfold blankedFrom
    split
    · rw [units_append, units_replicate_space, ih, units_cons]
    · rw [units_cons, ih, units_cons]

/-- **Blanking comments keeps every offset**, since it keeps the measure. -/
@[simp] theorem units_blankedComments (cs : List Char) : units (blankedComments cs) = units cs :=
  units_blankedFrom false cs

end Text

end SatScript
