import ScriptBridge.Conversion.Pattern

/-!
# Functions

Functions become function values; a declared one is the definition of its name. A parameter with a
pattern becomes a generated name, and its pattern is expanded at the start of the body.

* `convertFunction`: the function value of any form of function.
* `functions`: the capability.
-/

namespace ScriptBridge.Conversion

open TypeScript

/-- A parameter's name, with the definitions that a pattern in its place expands to. -/
def paramTarget : Node → ConvertM (String × List AiScript.Node)
  | .ident i => do
    checkName i
    return (i.name, [])
  | pattern => bindingParameter false pattern

/-- An expression that may be missing. -/
def expression? (c : Converter) : Option Node → ConvertM (Option AiScript.Node)
  | none => return none
  | some e => do return some (← c.expression e)

/-- Whether a parameter is the receiver, which is left out. -/
def isReceiver : Node → Bool
  | .ident i => i.name == "this"
  | _ => false

/-- Parameters, with the definitions that patterns among them expand to. -/
def convertParams (c : Converter) : List Node → ConvertM (List AiScript.Param × List AiScript.Node)
  | [] => return ([], [])
  | .parameter m target type fallback isOptional isRest :: rest => do
    if isReceiver target then convertParams c rest
    else
      if isRest then
        refuse .restParameter (.parameter m target type fallback isOptional isRest)
      let fallback ← expression? c fallback
      let (name, made) ← paramTarget target
      let param := AiScript.Param.mk {} ⟨name, {}⟩ (isOptional && fallback.isNone) fallback
      let (params, more) ← convertParams c rest
      return (param :: params, made ++ more)
  | _ :: rest => convertParams c rest

/-- The function value of a function; a body that is an expression is returned. -/
def convertFunction (c : Converter) (n : Node) (isAsync isGenerator : Bool) (params : List Node)
    (body : Node) : ConvertM AiScript.Node := do
  if isAsync then refuse .asyncFunction n
  if isGenerator then refuse .generatorFunction n
  let (params, prologue) ← convertParams c params
  match body with
  | .block _ statements => return .fn {} params (prologue ++ (← c.statements statements))
  | e => return .fn {} params (prologue ++ [.ret {} (← c.expression e)])

/-- Functions as values and as declarations. -/
def functions : Capability where
  name := "functions"
  expression := fun c n => do
    match n with
    | .arrow _ params body _ _ isAsync =>
      return some (← convertFunction c n isAsync false params body)
    | .function _ _ params body _ _ isAsync isGenerator =>
      return some (← convertFunction c n isAsync isGenerator params body)
    | _ => return none
  statement := fun c n => do
    match n with
    | .functionDeclaration _ modifiers name params (some body) _ _ isAsync isGenerator =>
      if hasModifier modifiers "declare" then return some []
      match name with
      | none => refuse .unnamedFunction n
      | some i =>
        checkName i
        let value ← convertFunction c n isAsync isGenerator params body
        return some [define i.name value false]
    -- A signature without a body.
    | .functionDeclaration .. => return some []
    | _ => return none

end ScriptBridge.Conversion
