import ScriptBridge.Conversion.Pattern

/-!
# Variables

A constant becomes a fixed definition, any other variable one that can be assigned to. Every variable
starts with a value.
-/

namespace ScriptBridge.Conversion

open TypeScript

/-- A variable. -/
def convertVariable (c : Converter) (isMutable : Bool) (n : Node) :
    ConvertM (List AiScript.Node) := do
  match n with
  | .variableDeclaration _ target _ (some value) =>
    match target with
    | .ident i =>
      checkName i
      return [define i.name (← c.expression value) isMutable]
    | pattern => do expandDeclaration isMutable pattern (← c.expression value)
  | _ => refuse .missingInitializer n

/-- Variables one after the other. -/
def convertVariables (c : Converter) (isMutable : Bool) :
    List Node → ConvertM (List AiScript.Node)
  | [] => return []
  | n :: rest => do
    let first ← convertVariable c isMutable n
    return first ++ (← convertVariables c isMutable rest)

/-- A list of variables with its declaring word. -/
def convertVariableList (c : Converter) : Node → ConvertM (List AiScript.Node)
  | .variableList _ keyword declarations => convertVariables c (keyword != "const") declarations
  | _ => return []

/-- Variable statements. -/
def declarations : Capability where
  name := "variables"
  statement := fun c n => do
    match n with
    | .variableStatement _ modifiers list =>
      if hasModifier modifiers "declare" then return some []
      return some (← convertVariableList c list)
    | _ => return none

end ScriptBridge.Conversion
