import ScriptBridge.Number.Shortest

/-!
# Writing a number

A `Layout` is a format's choice of where positional notation ends and how the exponent and whole
numbers are spelled; `Layout.write` lays out the shortest digits of a finite double by it. The
formats themselves are defined where their text is produced.
-/

namespace ScriptBridge

/-- How a number format writes whole numbers. -/
inductive WholeStyle where
  /-- Like any other number. -/
  | shortest
  /-- Every digit of the exact value, as long as it is below the limit. -/
  | exactBelow (limit : Nat)
  /-- Every digit of the exact value. -/
  | exact
deriving DecidableEq, Repr

/-- A number format. Numbers whose leading digit has a power of ten from `least` to `greatest` are
written positionally, all others with an exponent of at least `exponentWidth` digits. -/
structure Layout where
  whole : WholeStyle
  least : Int
  greatest : Int
  exponentWidth : Nat
  /-- Whether a whole number in positional notation ends in `.0`. -/
  pointZero : Bool
deriving DecidableEq, Repr

namespace Layout

/-- `n` in decimal, with zeros in front up to the given width. -/
def padded (width n : Nat) : String :=
  let ds := Nat.toDigits 10 n
  String.ofList (List.replicate (width - ds.length) '0' ++ ds)

/-- Digits with a point after the first `whole` of them, zeros filled in on either side. -/
def positional (l : Layout) (ds : List Char) (whole : Int) : String :=
  if whole ≤ 0 then
    "0." ++ String.ofList (List.replicate whole.natAbs '0' ++ ds)
  else
    let w := whole.toNat
    if ds.length ≤ w then
      String.ofList (ds ++ List.replicate (w - ds.length) '0') ++ if l.pointZero then ".0" else ""
    else
      String.ofList (ds.take w) ++ "." ++ String.ofList (ds.drop w)

/-- Digits with a point after the first and the exponent of the leading digit. -/
def scientific (l : Layout) (ds : List Char) (leading : Int) : String :=
  let mantissa :=
    match ds with
    | [] => ""
    | [d] => String.ofList [d]
    | d :: rest => String.ofList (d :: '.' :: rest)
  mantissa ++ "e" ++ (if leading < 0 then "-" else "+") ++ padded l.exponentWidth leading.natAbs

/-- The text of the shortest decimal of a nonnegative finite double. -/
def writeShortest (l : Layout) (x : Double) : String :=
  if x.isZero then positional l ['0'] 1
  else
    let d := x.shortest
    let ds := Nat.toDigits 10 d.digits
    if l.least ≤ d.leading && d.leading ≤ l.greatest then positional l ds (d.leading + 1)
    else scientific l ds d.leading

/-- The text of the magnitude of a finite double. -/
def writeMagnitude (l : Layout) (x : Double) : String :=
  let exactly (n : Nat) : Bool :=
    match l.whole with
    | .shortest => false
    | .exactBelow limit => n < limit
    | .exact => true
  match x.natAbs? with
  | some n => if exactly n then String.ofList (Nat.toDigits 10 n) else writeShortest l x.abs
  | none => writeShortest l x.abs

end Layout

end ScriptBridge
