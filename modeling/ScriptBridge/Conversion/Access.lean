import ScriptBridge.Conversion.Capability
import ScriptBridge.Conversion.TypeGate

/-!
# Names, calls and access

Names stand for themselves, except `undefined`. A member of a namespace of the host is addressed by
one name, `Space:member`, as long as the program does not declare a namespace of that name itself.

* `identifiers`: names and parentheses.
* `access`: calls, properties and elements.
-/

namespace ScriptBridge.Conversion

open TypeScript Binding

/-- Names and parentheses. -/
def identifiers : Capability where
  name := "identifiers"
  expression := fun c n => do
    match n with
    | .ident i => return some (if i.name == "undefined" then .null {} else .ident {} i.name)
    | .parenthesized _ e => return some (← c.expression e)
    | _ => return none
  effects := fun c n => do
    match n with
    | .parenthesized _ e => return some (← c.effects e)
    | _ => return none

/-- The namespaces of the host. -/
def hostSpaces : List String :=
  ["Core", "Math", "Util", "Json", "Date", "Uri", "Str", "Num", "Arr", "Obj", "Async", "Mk", "Ui",
    "Ui:C"]

/-- What a chain of properties starts from. -/
def accessRoot : Node → Node
  | .propertyAccess _ target _ _ => accessRoot target
  | n => n

/-- Whether a name is one of the host's, and not declared by the program. -/
def isHostName (i : Ident) : ConvertM Bool := do
  let program := (← read).program
  return match program.origin? i.mark.id with
    | none => true
    | some (.symbol id) => program.bindings.fileName id == ambientName
    | some (.file _) => false

/-- Whether a node starts from a name of the host. -/
def startsFromHost (n : Node) : ConvertM Bool := do
  match accessRoot n with
  | .ident i => isHostName i
  | _ => return false

/-- A property. -/
def convertProperty (c : Converter) (target : Node) (name : String) : ConvertM AiScript.Node := do
  let inner := target.unwrap
  let value ← c.expression inner
  match value with
  | .ident _ space =>
    if hostSpaces.contains space && (← startsFromHost inner) then
      return .ident {} (space ++ ":" ++ name)
    else return .prop {} value name
  | _ => return .prop {} value name

/-- The arguments of a call. -/
def convertArgs (c : Converter) : List Node → ConvertM (List AiScript.Node)
  | [] => return []
  | n :: rest => do
    let arg ← match n with
      | .spread .. => refuse .spreadArgument n
      | e => c.expression e
    return arg :: (← convertArgs c rest)

/-- Calls, properties and elements. -/
def access : Capability where
  name := "access"
  expression := fun c n => do
    match n with
    | .call _ callee args isOptional =>
      if isOptional then refuse .optionalChain n
      let args ← convertArgs c args
      return some (.call {} (← c.expression callee) args)
    | .propertyAccess _ target name isOptional =>
      if isOptional then refuse .optionalChain n
      return some (← convertProperty c target name.name)
    | .elementAccess _ target key isOptional =>
      if isOptional then refuse .optionalChain n
      checkElementAccess target key
      let value ← c.expression target
      return some (.index {} value (← c.expression key))
    | .construct .. => refuse (.keyword "new") n
    | _ => return none

end ScriptBridge.Conversion
