/-!
# SatScript — numbers of the settings

The numbers in settings are binary64 numbers without NaN: a rational that
binary64 holds exactly, or an infinity. Zero has no sign. They are held
as exact rationals, so comparing them is comparing rationals. `nearest`
rounds a rational to the nearest such number, a half to the even
neighbour; `ofInt` and `ofDecimal` read integers and decimals.
-/

namespace SatScript

/-- A binary64 number that is not NaN. -/
inductive Number where
  | finite (value : Rat)
  | infinite (negative : Bool)
deriving DecidableEq

namespace Number

instance : Inhabited Number := ⟨.finite 0⟩

/-! ## Rounding -/

/-- The quotient rounded to an integer, a half to the even neighbour. -/
def roundHalfEven (num den : Nat) : Nat :=
  let low := num / den
  let left := 2 * (num % den)
  if left < den then low
  else if den < left then low + 1
  else if low % 2 = 0 then low
  else low + 1

/-- Every significand of a number lies below `2 ^ 53`. -/
def significandBound : Nat := 1 <<< 53

/-- The quotient divided by a power of two, as a quotient. -/
def scaled (num den : Nat) (exponent : Int) : Nat × Nat :=
  if exponent < 0 then (num <<< (-exponent).toNat, den) else (num, den <<< exponent.toNat)

/-- The exponent of the last binary place that binary64 has for a positive
quotient: the significand takes 53 places, and no place lies below
`2 ^ (-1074)`. -/
def lastPlace (num den : Nat) : Int :=
  let guess : Int := num.log2 - den.log2 - 52
  let (n, d) := scaled num den guess
  max (if 2 * n < d * significandBound then guess - 1 else guess) (-1074)

/-- The significand of the number nearest to a positive quotient, for the
given last place. -/
def significand (num den : Nat) (exponent : Int) : Nat :=
  let (n, d) := scaled num den exponent
  roundHalfEven n d

/-- The binary64 number nearest to a rational; from `2 ^ 1024` on infinite. -/
def nearest (q : Rat) : Number :=
  let num := q.num.natAbs
  if num = 0 then .finite 0
  else
    let exponent := lastPlace num q.den
    let size : Rat := (significand num q.den exponent : Rat) * (2 : Rat) ^ exponent
    if (2 : Rat) ^ (1024 : Int) ≤ size then .infinite (q.num < 0)
    else .finite (if q.num < 0 then -size else size)

/-- The number nearest to an integer. Up to `2 ^ 53` integers are numbers. -/
def ofInt (n : Int) : Number :=
  if n.natAbs ≤ significandBound then .finite n else nearest n

/-- The number nearest to `digits * 10 ^ exponent`, with a sign. Decimals
that are certainly out of range are not written out. -/
def ofDecimal (negative : Bool) (digits : Nat) (exponent : Int) : Number :=
  if digits = 0 then .finite 0
  else
    let top : Int := (Nat.toDigits 10 digits).length + exponent
    if 310 < top then .infinite negative
    else if top < -330 then .finite 0
    else
      let size : Rat := (digits : Rat) * (10 : Rat) ^ exponent
      nearest (if negative then -size else size)

/-! ## Comparing -/

/-- Whether the number lies below a rational. -/
def below : Number → Rat → Bool
  | .finite value, q => value < q
  | .infinite negative, _ => negative

/-- Whether the number lies above a rational. -/
def above : Number → Rat → Bool
  | .finite value, q => q < value
  | .infinite negative, _ => !negative

/-- Whether the number is no infinity. -/
def isFinite : Number → Bool
  | .finite _ => true
  | .infinite _ => false

/-- The number as an integer, if it is one and every integer up to its size
is a number too. -/
def exactInt? : Number → Option Int
  | .finite value =>
    if value.den = 1 ∧ value.num.natAbs < significandBound then some value.num else none
  | .infinite _ => none

/-- **Integers up to `2 ^ 53` are read as they are.** -/
theorem ofInt_of_natAbs_le {n : Int} (h : n.natAbs ≤ significandBound) : ofInt n = .finite n :=
  if_pos h

end Number

end SatScript
