import Phrasebook.Decimal.Double

/-!
# Decimal — Shortest

The shortest decimal that reads back as a given double: for one digit, two digits and so on, the
two neighbours of the number with so many digits are tried, and the first of them that rounds to
the number is taken, the nearer one if both do.
-/

namespace Phrasebook.Decimal

/-- The decimal `digits * 10 ^ exponent`. -/
structure Expansion where
  digits : Nat
  exponent : Int
  deriving DecidableEq

namespace Expansion

/-- The decimal as numerator and denominator. -/
def ratio (x : Expansion) : Nat × Nat :=
  if 0 ≤ x.exponent then (x.digits * Nat.pow 10 x.exponent.toNat, 1)
  else (x.digits, Nat.pow 10 (-x.exponent).toNat)

/-- At most as large as a ratio. -/
def leRatio (x : Expansion) (num den : Nat) : Bool :=
  x.ratio.1 * den ≤ num * x.ratio.2

/-- At least as large as a ratio. -/
def geRatio (x : Expansion) (num den : Nat) : Bool :=
  num * x.ratio.2 ≤ x.ratio.1 * den

/-- Equal to a ratio. -/
def eqRatio (x : Expansion) (num den : Nat) : Bool :=
  x.leRatio num den && x.geRatio num den

/-- The same decimal with as few digits as possible, at most `n` zeros dropped. -/
def dropZeros : Nat → Expansion → Expansion
  | 0, x => x
  | n + 1, x =>
      if x.digits ≠ 0 ∧ x.digits % 10 = 0 then dropZeros n ⟨x.digits / 10, x.exponent + 1⟩ else x

end Expansion

namespace Double

/-- The ends of the numbers that round to a double, as multiples of a quarter of its unit. -/
def roundingEnds (x : Double) : Nat × Nat :=
  let below := if x.mantissa = Nat.pow 2 52 ∧ leastExponent < x.exponent then 1 else 2
  (4 * x.mantissa - below, 4 * x.mantissa + 2)

/-- A decimal reads back as the double; the ends of the interval do if the mantissa is even. -/
def readsBack (x : Double) (d : Expansion) : Bool :=
  let low : Double := ⟨x.roundingEnds.1, x.exponent - 2⟩
  let high : Double := ⟨x.roundingEnds.2, x.exponent - 2⟩
  let inside := d.geRatio low.ratio.1 low.ratio.2 && d.leRatio high.ratio.1 high.ratio.2
  let atEnd := d.eqRatio low.ratio.1 low.ratio.2 || d.eqRatio high.ratio.1 high.ratio.2
  inside && (x.mantissa % 2 == 0 || !atEnd)

/-- The number of digits before the point of a ratio, negative if zeros follow the point. -/
def pointPlace (num den : Nat) : Int :=
  if den ≤ num then ((Nat.toDigits 10 (num / den)).length : Int)
  else -(((List.range 400).find? fun n => den ≤ num * Nat.pow 10 (n + 1)).getD 0 : Int)

/-- The decimal of `n` digits next to the double that reads back as it. -/
def ofDigits? (x : Double) (n : Nat) : Option Expansion :=
  let exponent := pointPlace x.ratio.1 x.ratio.2 - n
  let unit := (⟨1, exponent⟩ : Expansion).ratio
  let num := x.ratio.1 * unit.2
  let den := x.ratio.2 * unit.1
  let low : Expansion := ⟨num / den, exponent⟩
  let high : Expansion := ⟨num / den + 1, exponent⟩
  let nearest : Expansion := ⟨roundDiv num den, exponent⟩
  if x.readsBack nearest then some nearest
  else if x.readsBack low then some low
  else if x.readsBack high then some high
  else none

/-- The shortest decimal that reads back as the double. -/
def shortest (x : Double) : Expansion :=
  if x.isZero then ⟨0, 0⟩
  else (((List.range 17).findSome? fun n => x.ofDigits? (n + 1)).getD ⟨0, 0⟩).dropZeros 20

end Double

/-- How numbers are written: with a point if the point falls among at most `wholeDigits` digits or
behind fewer than `leadingZeros` zeros, else with an exponent, before which `plus` stands unless it
is negative. -/
structure NumberStyle where
  wholeDigits : Int
  leadingZeros : Int
  plus : String

/-- A decimal as text. -/
def NumberStyle.write (style : NumberStyle) (d : Expansion) : String :=
  let digits := Nat.toDigits 10 d.digits
  let point : Int := digits.length + d.exponent
  if d.digits = 0 then "0.0"
  else if 0 ≤ d.exponent ∧ point ≤ style.wholeDigits then
    String.ofList (digits ++ List.replicate d.exponent.toNat '0') ++ ".0"
  else if 0 < point ∧ point ≤ style.wholeDigits then
    String.ofList (digits.take point.toNat ++ '.' :: digits.drop point.toNat)
  else if -style.leadingZeros < point ∧ point ≤ 0 then
    "0." ++ String.ofList (List.replicate (-point).toNat '0' ++ digits)
  else
    let shown := match digits with
      | [] => []
      | [c] => [c]
      | c :: cs => c :: '.' :: cs
    String.ofList shown ++ "e" ++ (if 1 ≤ point then style.plus else "") ++ toString (point - 1)

end Phrasebook.Decimal
