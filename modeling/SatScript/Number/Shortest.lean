import SatScript.Number.Basic
/-!
# SatScript — the shortest text of a number

A number is written with the fewest digits that read back as it, and of
several such decimals the one nearest to it. `shortest` finds these
digits: it goes through the decimal grids from coarse to fine and takes
the first that has a point in the interval of rationals that round to the
number. `text` lays the digits out: positionally from `1e-6` up to below
`1e21`, else with an exponent.
-/

namespace SatScript

namespace Number

/-- The rationals that round to one number, from low to high, with or without
the ends. -/
structure Rounding where
  low : Rat
  high : Rat
  closed : Bool

/-- Whether the rational rounds to the number. -/
def Rounding.holds (interval : Rounding) (q : Rat) : Bool :=
  if interval.closed then interval.low ≤ q && q ≤ interval.high
  else interval.low < q && q < interval.high

/-- The rationals that round to a positive number. Half a last place lies on
either side; below a power of two the places are half as wide. The ends
round to the number if its significand is even. -/
def rounding (value : Rat) : Rounding :=
  let num := value.num.natAbs
  let exponent := lastPlace num value.den
  let m := significand num value.den exponent
  let half : Rat := (2 : Rat) ^ (exponent - 1)
  let below := if 2 * m = significandBound ∧ -1074 < exponent then half / 2 else half
  { low := value - below, high := value + half, closed := m % 2 = 0 }

/-- How many digits a positive rational has before the point; for a rational
below one, the negated number of zeros behind the point. -/
def decimalPoint (value : Rat) : Int :=
  if 1 ≤ value then (Nat.toDigits 10 value.floor.toNat).length
  else 1 - (Nat.toDigits 10 (value.inv.ceil.toNat - 1)).length

/-- The point of the decimal grid `10 ^ exponent` that rounds to the value and
is nearest to it, of two equally near the even one; none if no point does. -/
def gridPoint? (value : Rat) (interval : Rounding) (exponent : Int) : Option Nat :=
  let unit : Rat := (10 : Rat) ^ exponent
  let low := (value / unit).floor.toNat
  let fits (n : Nat) : Bool := interval.holds ((n : Rat) * unit)
  match fits low, fits (low + 1) with
  | false, false => none
  | true, false => some low
  | false, true => some (low + 1)
  | true, true =>
    let below := value - (low : Rat) * unit
    let above := ((low + 1 : Nat) : Rat) * unit - value
    if below < above then some low
    else if above < below then some (low + 1)
    else if low % 2 = 0 then some low
    else some (low + 1)

/-- Digits and the exponent of the last one, without zeros at the end; the
fuel bounds the number of zeros. -/
def stripZeros : Nat → Nat → Int → Nat × Int
  | 0, n, exponent => (n, exponent)
  | fuel + 1, n, exponent =>
    if n ≠ 0 ∧ n % 10 = 0 then stripZeros fuel (n / 10) (exponent + 1) else (n, exponent)

/-- The fewest digits that read back as a positive number, with the exponent
of the last digit. Seventeen digits always suffice. -/
def shortest (value : Rat) : Nat × Int :=
  let interval := rounding value
  let point := decimalPoint value
  let found := (List.range 17).findSome? fun k =>
    (gridPoint? value interval (point - (k + 1 : Nat))).map fun n => (n, point - (k + 1 : Nat))
  match found with
  | some (n, exponent) => stripZeros 20 n exponent
  | none => (0, 0)

/-- The digits of a number laid out. -/
def layout (n : Nat) (exponent : Int) : List Char :=
  let digits := Nat.toDigits 10 n
  let point : Int := digits.length + exponent
  if 0 ≤ exponent ∧ point ≤ 21 then digits ++ List.replicate exponent.toNat '0'
  else if 0 < point ∧ point ≤ 21 then
    digits.take point.toNat ++ '.' :: digits.drop point.toNat
  else if -6 < point ∧ point ≤ 0 then
    '0' :: '.' :: (List.replicate (-point).toNat '0' ++ digits)
  else
    let tail := 'e' :: (if point ≤ 0 then '-' else '+') :: Nat.toDigits 10 (point - 1).natAbs
    match digits with
    | [] => tail
    | [d] => d :: tail
    | d :: ds => d :: '.' :: (ds ++ tail)

/-- The text of a number. -/
def text : Number → String
  | .infinite negative => if negative then "-Infinity" else "Infinity"
  | .finite value =>
    if value.num = 0 then "0"
    else
      let size : Rat := if value.num < 0 then -value else value
      let (n, exponent) := shortest size
      String.ofList ((if value.num < 0 then ['-'] else []) ++ layout n exponent)

end Number

end SatScript
