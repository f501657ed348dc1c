/-!
# Decimal — Double

Finite double precision numbers without their sign, as a mantissa times a power of two.  A ratio of
natural numbers is rounded to the nearest of them, a tie to the even mantissa; a ratio beyond the
largest has none.
-/

namespace Phrasebook.Decimal

/-- The quotient rounded to the nearest natural number, a tie to the even one. -/
def roundDiv (num den : Nat) : Nat :=
  let quotient := num / den
  let rest := num % den
  if 2 * rest < den then quotient
  else if den < 2 * rest then quotient + 1
  else if quotient % 2 = 0 then quotient
  else quotient + 1

/-- The number `mantissa * 2 ^ exponent`. -/
structure Double where
  mantissa : Nat
  exponent : Int
  deriving DecidableEq

namespace Double

/-- The exponent of the subnormal numbers. -/
def leastExponent : Int := -1074

/-- The exponent of the largest numbers. -/
def greatestExponent : Int := 971

def zero : Double :=
  ⟨0, leastExponent⟩

def isZero (x : Double) : Bool :=
  x.mantissa == 0

/-- The number as numerator and denominator. -/
def ratio (x : Double) : Nat × Nat :=
  if 0 ≤ x.exponent then (x.mantissa * Nat.pow 2 x.exponent.toNat, 1)
  else (x.mantissa, Nat.pow 2 (-x.exponent).toNat)

/-- A ratio in units of `2 ^ exponent`. -/
def inUnits (num den : Nat) (exponent : Int) : Nat × Nat :=
  if 0 ≤ exponent then (num, den * Nat.pow 2 exponent.toNat)
  else (num * Nat.pow 2 (-exponent).toNat, den)

/-- The exponent of the unit in which a positive ratio has a mantissa of 53 bits, or the least
exponent if that is greater. -/
def unitExponent (num den : Nat) : Int :=
  let low : Int := (Nat.log2 num : Int) - (Nat.log2 den : Int) - 53
  let scaled := inUnits num den low
  max leastExponent (if scaled.1 / scaled.2 < Nat.pow 2 53 then low else low + 1)

/-- The double nearest to a ratio. -/
def ofRatio? (num den : Nat) : Option Double :=
  if num = 0 then some zero
  else
    let exponent := unitExponent num den
    let scaled := inUnits num den exponent
    let mantissa := roundDiv scaled.1 scaled.2
    let rounded : Double :=
      if mantissa = Nat.pow 2 53 then ⟨Nat.pow 2 52, exponent + 1⟩ else ⟨mantissa, exponent⟩
    if rounded.exponent ≤ greatestExponent then some rounded else none

/-- The product, rounded. -/
def mul? (x y : Double) : Option Double :=
  ofRatio? (x.ratio.1 * y.ratio.1) (x.ratio.2 * y.ratio.2)

/-- The quotient by a double that is not zero, rounded. -/
def div? (x y : Double) : Option Double :=
  ofRatio? (x.ratio.1 * y.ratio.2) (x.ratio.2 * y.ratio.1)

/-- The double nearest to a power of ten. -/
def powerOfTen? (n : Nat) : Option Double :=
  ofRatio? (Nat.pow 10 n) 1

/-- The exponent of the largest power of ten among the doubles. -/
def largestPower : Nat := 308

/-- A double divided by the largest power of ten so many times, each quotient rounded. -/
def divLargest? : Nat → Double → Option Double
  | 0, x => some x
  | n + 1, x =>
      if x.isZero then some x
      else ((powerOfTen? largestPower).bind x.div?).bind (divLargest? n)

/-- A double divided by `10 ^ n`, in steps of at most the largest power, each rounded. -/
def divPowerOfTen? (x : Double) (n : Nat) : Option Double :=
  let steps := if n ≤ largestPower then 0 else (n - 1) / largestPower
  (divLargest? steps x).bind fun y =>
    if y.isZero then some y else (powerOfTen? (n - steps * largestPower)).bind y.div?

/-- The number `significand * 10 ^ exponent`, the significand and every step rounded. -/
def ofDecimal? (significand : Nat) (exponent : Int) : Option Double :=
  match ofRatio? significand 1 with
  | none => none
  | some x =>
      if exponent < 0 then x.divPowerOfTen? (-exponent).toNat
      else if x.isZero then some x
      else if exponent ≤ largestPower then (powerOfTen? exponent.toNat).bind x.mul?
      else none

end Double

end Phrasebook.Decimal
