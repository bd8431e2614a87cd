import ScriptBridge.Number.Double

/-!
# The fewest decimal digits that read back

`Double.shortest` gives, for a positive finite double, a decimal `digits * 10 ^ power` that rounds to
it and has the fewest digits among all such decimals; of two with equally few digits it is the nearer.
It tries one digit, then two, up to seventeen: on each decimal grid only the two neighbours of the
value can be candidates.
-/

namespace ScriptBridge

/-- The decimal `digits * 10 ^ power`. -/
structure Decimal where
  digits : Nat
  power : Int
deriving DecidableEq, Repr

namespace Decimal

/-- The power of ten of the leading digit. -/
def leading (d : Decimal) : Int :=
  d.power + Double.digitCount d.digits - 1

/-- The same number without trailing zeros in its digits. -/
def trim (d : Decimal) : Decimal :=
  go (Double.digitCount d.digits) d
where
  go : Nat → Decimal → Decimal
    | 0, d => d
    | n + 1, d =>
      if d.digits ≠ 0 ∧ d.digits % 10 = 0 then go n ⟨d.digits / 10, d.power + 1⟩ else d

end Decimal

namespace Double

/-- The `d` with `10 ^ (d - 1) ≤ num / den < 10 ^ d`, for a positive quotient. -/
def decimalPlace (num den : Nat) : Int :=
  if den ≤ num then digitCount (num / den)
  else
    let l := digitCount (den / num)
    if num * Nat.pow 10 (l - 1) = den then 2 - (l : Int) else 1 - (l : Int)

/-- The numbers that round to a positive finite double, in quarters of its last place:
the value, the two ends, and the scale `num / den` of a quarter. -/
structure Neighbourhood where
  value : Nat
  low : Nat
  high : Nat
  /-- Whether the ends themselves round to the value. -/
  closed : Bool
  num : Nat
  den : Nat

/-- The neighbourhood of a positive finite double. Below a power of two the spacing halves. -/
def neighbourhood (x : Double) : Neighbourhood :=
  let m := x.significand
  let (num, den) := scaleDown 1 1 (2 - x.exponent)
  { value := 4 * m
    low := if x.fraction = 0 ∧ 1 < x.biased then 4 * m - 1 else 4 * m - 2
    high := 4 * m + 2
    closed := m % 2 = 0
    num
    den }

/-- The multiple of `10 ^ power` nearest to the value among those that round to it. -/
def gridHit (s : Neighbourhood) (power : Int) : Option Nat :=
  -- The unit of the grid is `b / a` quarters of the last place.
  let a := s.num * (if power < 0 then Nat.pow 10 power.natAbs else 1)
  let b := s.den * (if power < 0 then 1 else Nat.pow 10 power.toNat)
  let inside (c : Nat) : Bool :=
    if s.closed then s.low * a ≤ c * b && c * b ≤ s.high * a
    else s.low * a < c * b && c * b < s.high * a
  let below := s.value * a / b
  let rest := 2 * (s.value * a - below * b)
  match inside below, inside (below + 1) with
  | true, false => some below
  | false, true => some (below + 1)
  | true, true =>
    some (if rest < b then below else if b < rest then below + 1 else below + below % 2)
  | false, false => none

/-- The shortest decimal that rounds to a positive finite double. -/
def shortest (x : Double) : Decimal :=
  let s := x.neighbourhood
  let place := decimalPlace (s.value * s.num) s.den
  go s place 17 1
where
  go (s : Neighbourhood) (place : Int) : Nat → Nat → Decimal
    | 0, n => ⟨s.value * s.num / s.den, place - n⟩
    | fuel + 1, n =>
      match gridHit s (place - n) with
      | some c => Decimal.trim ⟨c, place - n⟩
      | none => go s place fuel (n + 1)

end Double

end ScriptBridge
