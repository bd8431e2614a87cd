import ScriptBridge.Conversion.Context

/-!
# Type gates

Some constructs only have a counterpart for values of certain types. Each gate asks the type oracle and
refuses a type that does not fit, naming it. What the oracle knows nothing about passes.
-/

namespace ScriptBridge.Conversion

open TypeScript Typing

/-- Whether a type passes a gate for a kind. -/
def passes (t : Ty) (k : Kind) : Bool :=
  t.isOpen || t.fits k

/-- Refuses a node for its type. -/
def refuseType (cause : String → Cause) (t : Ty) (n : Node) : ConvertM Unit := do
  refuse (cause (← asking (typeText t))) n

/-- A condition is a truth value. -/
def checkCondition (e : Node) : ConvertM Unit := do
  let t ← asking (typeOf e)
  if !passes t .boolean then refuseType .conditionType t e

/-- A loop goes over an array. -/
def checkIterable (e : Node) : ConvertM Unit := do
  match e with
  | .array .. => return
  | _ =>
    let t ← asking (typeOf e)
    if !passes t .array then refuseType .iterableType t e

/-- Arrays take numbers as keys, objects take strings, and nothing else has keys. -/
def checkElementAccess (target key : Node) : ConvertM Unit := do
  let targetType ← asking (typeOf target)
  if targetType.isOpen then return
  let keyType ← asking (typeOf key)
  if targetType.fits .array then
    if !passes keyType .number then refuseType .arrayIndexType keyType key
  else if targetType.fits .object then
    if !passes keyType .string then refuseType .objectIndexType keyType key
  else refuseType .indexedType targetType target

end ScriptBridge.Conversion
