import SatScript.Text.Digits
/-!
# SatScript — numerals

A numeral is a decimal. Fractions `.0` at its end are dropped before it
is read, so `2.0` and `2` are one numeral. A numeral stands for a
rational (`Numeral.value?`) and is written canonically: an integer
without leading zeros, or a fraction in lowest terms
(`Numeral.canonical?`). Decimals other than integers may be refused.
-/

namespace SatScript

namespace Numeral

/-- Whether an atom is taken for a numeral: it begins with a digit or a
point. -/
def startsNumeral (text : String) : Bool :=
  match text.toList with
  | [] => false
  | c :: _ => c == '.' || c.isDigit

/-- Drop fractions `.0` from a reversed text, as long as something stands
before them. -/
def dropZeroFractions : List Char → List Char
  | '0' :: '.' :: c :: cs => dropZeroFractions (c :: cs)
  | cs => cs

/-- The text without the fractions `.0` at its end. -/
def withoutZeroFractions (cs : List Char) : List Char := (dropZeroFractions cs.reverse).reverse

/-- The digits before and behind the point of a decimal; at least one digit
stands on one of the sides. -/
def decimal? (cs : List Char) : Option (List Char × List Char) :=
  let whole := cs.takeWhile Char.isDigit
  match cs.dropWhile Char.isDigit with
  | '.' :: fraction =>
    if fraction.all Char.isDigit && !(whole.isEmpty && fraction.isEmpty) then
      some (whole, fraction)
    else none
  | _ => none

/-- The rational that a numeral stands for; `fractional` says whether
decimals other than integers are numerals. -/
def value? (fractional : Bool) (text : String) : Option Rat :=
  let cs := withoutZeroFractions text.toList
  if Text.isDigits cs then some (Text.value cs : Rat)
  else if fractional then
    (decimal? cs).map fun (whole, fraction) =>
      Rat.ofScientific (Text.value (whole ++ fraction)) true fraction.length
  else none

/-- The canonical text of a rational that is not negative: an integer, or a
fraction in lowest terms. -/
def textOf (q : Rat) : String :=
  String.ofList
    (if q.den = 1 then Text.digits q.num.natAbs
     else Text.digits q.num.natAbs ++ '/' :: Text.digits q.den)

/-- The canonical text of a numeral. -/
def canonical? (fractional : Bool) (text : String) : Option String :=
  (value? fractional text).map textOf

/-- The canonical text of a numeral begins with a digit. -/
theorem startsNumeral_of_canonical? {fractional : Bool} {text numeral : String}
    (h : canonical? fractional text = some numeral) :
    startsNumeral numeral = true := by
  obtain ⟨q, -, rfl⟩ := Option.map_eq_some_iff.1 h
  -- what is written first are the digits of the numerator
  obtain ⟨c, cs, hdigits⟩ := List.exists_cons_of_ne_nil (@Nat.toDigits_ne_nil q.num.natAbs 10)
  have hmem : c ∈ Nat.toDigits 10 q.num.natAbs := by
    rw [hdigits]
    exact List.mem_cons_self
  have hdigit : c.isDigit = true := Nat.isDigit_of_mem_toDigits (by omega) (by omega) hmem
  obtain ⟨rest, hrest⟩ : ∃ rest, (textOf q).toList = c :: rest := by
    rw [textOf, String.toList_ofList, Text.digits, hdigits]
    split <;> exact ⟨_, rfl⟩
  rw [startsNumeral, hrest]
  simp [hdigit]

end Numeral

end SatScript
