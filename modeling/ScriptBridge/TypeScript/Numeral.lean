import ScriptBridge.Number.Reading

/-!
# Numeric literals

`numericValue` is the value of a numeric literal as written: decimal with a fraction and an exponent,
hexadecimal, binary, octal in both spellings, with separators anywhere and the digits of any script.
-/

namespace ScriptBridge.TypeScript

/-- Why a numeric literal has no value. -/
inductive NumeralFault where
  /-- It has no digits, or wrong ones. -/
  | malformed
  /-- It is a whole number beyond the largest double. -/
  | tooLarge
deriving DecidableEq, Repr

/-- Whether a text begins with a zero and the given letter in either case. -/
def hasBaseMark (letter : Char) : List Char → Bool
  | '0' :: c :: _ => c.toLower == letter
  | _ => false

/-- The double nearest to a whole number, which must not overflow. -/
def wholeDouble (negative : Bool) (n : Nat) : Except NumeralFault Double :=
  let x := Double.ofRatio negative n 1
  if x.isInfinite then .error .tooLarge
  -- There is no negative whole zero.
  else .ok (if n = 0 then .zero else x)

/-- A whole number in a base of two, eight or sixteen: blanks around it, a sign and a repeated base
mark are allowed. -/
def wholeInBase (base : Nat) (mark : Char) (cs : List Char) : Except NumeralFault Double :=
  let (negative, cs) := splitSign (plainNumeral cs)
  let digits := if hasBaseMark mark cs then cs.drop 2 else cs
  match digits, natOfDigits? base 0 digits with
  | _ :: _, some n => wholeDouble negative n
  | _, _ => .error .malformed

/-- Whether a numeral is an octal one by its leading zero: all of it is digits, and none is the ASCII
eight or nine. -/
def isLegacyOctal (cs : List Char) : Bool :=
  1 < cs.length && cs.head? == some '0' &&
    cs.all fun c => (decimalDigit? c).isSome && c != '8' && c != '9'

/-- The value of a numeric literal. -/
def numericValue (text : String) : Except NumeralFault Double :=
  let cs := text.toList.filter (· != '_')
  if hasBaseMark 'x' cs then wholeInBase 16 'x' (cs.drop 2)
  else if hasBaseMark 'b' cs then wholeInBase 2 'b' (cs.drop 2)
  else if hasBaseMark 'o' cs then wholeInBase 8 'o' (cs.drop 2)
  else if isLegacyOctal cs then wholeInBase 8 'o' cs
  else
    match Double.ofText? (String.ofList cs) with
    | some x => .ok x
    | none => .error .malformed

end ScriptBridge.TypeScript
