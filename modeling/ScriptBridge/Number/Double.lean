/-!
# Double-precision numbers

`Double` is a binary64 pattern. Every operation is a function of the pattern's three fields in exact
integer arithmetic, so nothing here depends on the machine's floating-point unit.

* `Double.significand` and `Double.exponent` give the value of a finite pattern as
  `significand * 2 ^ exponent`.
* `Double.ofRatio` rounds a quotient of naturals to the nearest double, ties to the even neighbour.
* `Double.ofDecimal` rounds `digits * 10 ^ power` the same way.
* `Double.natAbs?` is the exact natural number a whole pattern stands for.
-/

namespace ScriptBridge

/-- A binary64 number, given by its bit pattern. -/
structure Double where
  bits : UInt64
deriving DecidableEq, Repr, Inhabited

namespace Double

/-! ## The three fields -/

/-- The sign bit: set for negative numbers and for negative zero. -/
def negative (x : Double) : Bool :=
  Nat.pow 2 63 ≤ x.bits.toNat

/-- The pattern without its sign bit. -/
def magnitude (x : Double) : Nat :=
  x.bits.toNat % Nat.pow 2 63

/-- The exponent field. -/
def biased (x : Double) : Nat :=
  x.magnitude / Nat.pow 2 52

/-- The fraction field. -/
def fraction (x : Double) : Nat :=
  x.magnitude % Nat.pow 2 52

/-- Neither an infinity nor a NaN. -/
def isFinite (x : Double) : Bool :=
  x.biased < 2047

/-- A NaN of either sign and any payload. -/
def isNaN (x : Double) : Bool :=
  x.biased == 2047 && x.fraction != 0

/-- An infinity of either sign. -/
def isInfinite (x : Double) : Bool :=
  x.biased == 2047 && x.fraction == 0

/-- A zero of either sign. -/
def isZero (x : Double) : Bool :=
  x.magnitude == 0

/-- Below zero: negative zero and NaN are not. -/
def isNegative (x : Double) : Bool :=
  x.negative && !x.isZero && !x.isNaN

/-- The integer that the exponent scales, with the implicit leading bit of a normal number. -/
def significand (x : Double) : Nat :=
  if x.biased = 0 then x.fraction else Nat.pow 2 52 + x.fraction

/-- The power of two that scales the significand. -/
def exponent (x : Double) : Int :=
  (max x.biased 1 : Nat) - 1075

/-! ## Building a pattern -/

/-- A pattern from a sign and the other 63 bits. -/
def ofMagnitude (negative : Bool) (magnitude : Nat) : Double :=
  ⟨UInt64.ofNat (magnitude + if negative then Nat.pow 2 63 else 0)⟩

/-- Positive zero. -/
def zero : Double :=
  ofMagnitude false 0

/-- The infinity of the given sign. -/
def infinity (negative : Bool) : Double :=
  ofMagnitude negative (2047 * Nat.pow 2 52)

/-- The positive quiet NaN with no payload. -/
def nan : Double :=
  ofMagnitude false (2047 * Nat.pow 2 52 + Nat.pow 2 51)

/-- The same magnitude with the other sign. -/
def neg (x : Double) : Double :=
  ofMagnitude (!x.negative) x.magnitude

/-- The same magnitude with the positive sign. -/
def abs (x : Double) : Double :=
  ofMagnitude false x.magnitude

/-- Numeric equality: the two zeros are equal, and a NaN equals nothing. -/
def numEq (x y : Double) : Bool :=
  !x.isNaN && !y.isNaN && (x.bits == y.bits || (x.isZero && y.isZero))

/-! ## Rounding -/

/-- The integer nearest to `num / den`, the even one when two are equally near. -/
def roundDiv (num den : Nat) : Nat :=
  let q := num / den
  let twice := 2 * (num % den)
  if twice < den then q
  else if den < twice then q + 1
  else q + q % 2

/-- `num / den` as a quotient scaled by `2 ^ (-shift)`. -/
def scaleDown (num den : Nat) (shift : Int) : Nat × Nat :=
  if shift < 0 then (num * Nat.pow 2 shift.natAbs, den) else (num, den * Nat.pow 2 shift.toNat)

/-- The exponent of the binade that holds `num / den`, no lower than that of the subnormals. -/
def binade (num den : Nat) : Int :=
  let guess : Int := (Nat.log2 num : Int) - Nat.log2 den - 52
  let (n, d) := scaleDown num den guess
  max (if n / d < Nat.pow 2 52 then guess - 1 else guess) (-1074)

/-- The double nearest to `num / den`; overflow gives an infinity. -/
def ofRatio (negative : Bool) (num den : Nat) : Double :=
  if num = 0 then ofMagnitude negative 0
  else
    let e := binade num den
    let (n, d) := scaleDown num den e
    -- A significand of `2 ^ 53` carries into the exponent field by itself.
    let pattern := (e + 1074).toNat * Nat.pow 2 52 + roundDiv n d
    if pattern < 2047 * Nat.pow 2 52 then ofMagnitude negative pattern else infinity negative

/-- The double nearest to a natural number. -/
def ofNat (n : Nat) : Double :=
  ofRatio false n 1

/-- The number of decimal digits of `n`. -/
def digitCount (n : Nat) : Nat :=
  (Nat.toDigits 10 n).length

/-- The double nearest to `digits * 10 ^ power`. Powers far outside the range of doubles are
answered without computing them. -/
def ofDecimal (negative : Bool) (digits : Nat) (power : Int) : Double :=
  let top : Int := power + digitCount digits
  if digits = 0 || top < -330 then ofMagnitude negative 0
  else if 330 < top then infinity negative
  else if power < 0 then ofRatio negative digits (Nat.pow 10 power.natAbs)
  else ofRatio negative (digits * Nat.pow 10 power.toNat) 1

/-! ## Whole numbers -/

/-- The exact magnitude of a whole number; `none` for fractions, infinities and NaN. -/
def natAbs? (x : Double) : Option Nat :=
  if !x.isFinite then none
  else if 0 ≤ x.exponent then some (x.significand * Nat.pow 2 x.exponent.toNat)
  else
    let unit := Nat.pow 2 x.exponent.natAbs
    if x.significand % unit = 0 then some (x.significand / unit) else none

end Double

end ScriptBridge
