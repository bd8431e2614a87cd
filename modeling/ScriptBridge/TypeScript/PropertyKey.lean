import ScriptBridge.Number.Layout
import ScriptBridge.TypeScript.Node
import ScriptBridge.TypeScript.Numeral

/-!
# Property keys

`propertyKey?` is the text of a property name that is not computed. A numeric name is the text of its
value, so `0x10` and `16` are one key.
-/

namespace ScriptBridge.TypeScript

/-- Numbers as keys: whole ones in full, others positionally from `1e-4` on. -/
def keyLayout : Layout :=
  { whole := .exact, least := -4, greatest := 15, exponentWidth := 2, pointZero := true }

/-- The key that a nonnegative number stands for. -/
def numberKey (x : Double) : String :=
  if x.isInfinite then "inf" else keyLayout.writeMagnitude x

/-- The text of a property name; `none` if it is computed. -/
def propertyKey? : Node → Except NumeralFault (Option String)
  | .ident i => .ok (some i.name)
  | .string _ value => .ok (some value)
  | .number _ text => do return some (numberKey (← numericValue text))
  | _ => .ok none

end ScriptBridge.TypeScript
