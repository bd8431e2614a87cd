import ScriptBridge.Number.Double
import ScriptBridge.Text.Blank
import ScriptBridge.Text.Digit

/-!
# Reading a decimal

`Double.ofText?` reads a decimal numeral: an optional sign, digits with an optional point, and an
optional exponent, or one of the words for an infinity or a NaN. The digits may be those of any script,
and blanks around it are ignored. `natOfDigits?` reads a run of digits in a base up to sixteen.
-/

namespace ScriptBridge

/-- The value of a hexadecimal digit. -/
def hexDigit? (c : Char) : Option Nat :=
  if '0' ≤ c ∧ c ≤ '9' then some (c.toNat - '0'.toNat)
  else if 'a' ≤ c ∧ c ≤ 'f' then some (c.toNat - 'a'.toNat + 10)
  else if 'A' ≤ c ∧ c ≤ 'F' then some (c.toNat - 'A'.toNat + 10)
  else none

/-- Whether a character is a decimal digit. -/
def isDigit (c : Char) : Bool :=
  '0' ≤ c && c ≤ '9'

/-- The digits of a text in the given base, most significant first, after `acc`. -/
def natOfDigits? (base : Nat) (acc : Nat) : List Char → Option Nat
  | [] => some acc
  | c :: cs =>
    match hexDigit? c with
    | some d => if d < base then natOfDigits? base (acc * base + d) cs else none
    | none => none

/-- A decimal digit of any script as the ASCII digit of its value; other characters stay. -/
def plainDigit (c : Char) : Char :=
  match decimalDigit? c with
  | some d => Char.ofNat ('0'.toNat + d)
  | none => c

/-- A numeral in plain digits, without the blanks around it. -/
def plainNumeral (cs : List Char) : List Char :=
  (((cs.dropWhile isBlank).reverse.dropWhile isBlank).reverse).map plainDigit

/-- Takes a leading sign off: whether it was a minus, and the rest. -/
def splitSign : List Char → Bool × List Char
  | '-' :: cs => (true, cs)
  | '+' :: cs => (false, cs)
  | cs => (false, cs)

namespace Double

/-- An exponent part: nothing, or `e` with a signed run of digits. -/
def exponentOf? : List Char → Option Int
  | [] => some 0
  | c :: cs =>
    if c == 'e' || c == 'E' then
      let (negative, ds) := splitSign cs
      if ds.isEmpty then none
      else (natOfDigits? 10 0 ds).map fun n => if negative then -(n : Int) else n
    else none

/-- An unsigned decimal numeral with at least one digit before its exponent. -/
def ofUnsigned? (negative : Bool) (cs : List Char) : Option Double := do
  let whole := cs.takeWhile isDigit
  let rest := cs.dropWhile isDigit
  let (part, rest) :=
    match rest with
    | '.' :: more => (more.takeWhile isDigit, more.dropWhile isDigit)
    | _ => ([], rest)
  if whole.isEmpty && part.isEmpty then none
  else
    let digits ← natOfDigits? 10 0 (whole ++ part)
    let exponent ← exponentOf? rest
    pure (ofDecimal negative digits (exponent - part.length))

/-- The double nearest to a decimal numeral; `none` if the text is not one. -/
def ofText? (text : String) : Option Double :=
  let (negative, cs) := splitSign (plainNumeral text.toList)
  let word := String.ofList (cs.map Char.toLower)
  if word == "inf" || word == "infinity" then some (infinity negative)
  else if word == "nan" then some (if negative then nan.neg else nan)
  else ofUnsigned? negative cs

end Double

end ScriptBridge
