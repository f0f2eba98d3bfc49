import SatScript.Text.Blank
/-!
# SatScript — decimal digits

Reading whole numbers from ASCII digits. `value` is the number that a run
of digits spells; `leadingInteger?` reads the integer that a text begins
with, and `integer?` the integer that a whole text is.
-/

namespace SatScript

namespace Text

/-- The number a digit stands for. -/
def digitValue (c : Char) : Nat := c.toNat - '0'.toNat

/-- The number that a run of digits spells. -/
def value (ds : List Char) : Nat := ds.foldl (fun n c => 10 * n + digitValue c) 0

/-- Whether the text is a run of one or more digits. -/
def isDigits (cs : List Char) : Bool := !cs.isEmpty && cs.all Char.isDigit

/-- Apply a sign to a number. -/
def signed (negative : Bool) (n : Nat) : Int := if negative then -n else n

/-- The number of the digits that the text begins with; none if it begins
with no digit. -/
def leadingValue? (cs : List Char) : Option Nat :=
  match cs.takeWhile Char.isDigit with
  | [] => none
  | ds => some (value ds)

/-- The integer that the text begins with: after spaces, an optional sign and
one or more digits; what follows the digits does not count. -/
def leadingInteger? (cs : List Char) : Option Int :=
  match trimStart cs with
  | '-' :: rest => (leadingValue? rest).map (signed true)
  | '+' :: rest => (leadingValue? rest).map (signed false)
  | rest => (leadingValue? rest).map (signed false)

/-- The integer that the whole text is: an optional minus sign and one or
more digits. -/
def integer? : List Char → Option Int
  | '-' :: ds => if isDigits ds then some (signed true (value ds)) else none
  | ds => if isDigits ds then some (signed false (value ds)) else none

/-- The digits of a number. -/
def digits (n : Nat) : List Char := Nat.toDigits 10 n

/-! ## Digits and their value -/

@[simp] theorem value_nil : value [] = 0 := rfl

/-- A further digit counts ten times what came before. -/
@[simp] theorem value_concat (ds : List Char) (d : Char) :
    value (ds ++ [d]) = 10 * value ds + digitValue d := by
  simp [value]

end Text

end SatScript
