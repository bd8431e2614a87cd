import ScriptBridge.Conversion.Function

/-!
# Literals

Numbers, strings, templates, truth values, arrays and objects.
-/

namespace ScriptBridge.Conversion

open TypeScript

/-- A text between the expressions of a template; an empty one is left out. -/
def templateText (text : String) : List AiScript.Node :=
  if text.isEmpty then [] else [.str {} text]

/-- The parts of a template after its first text. -/
def templateParts (c : Converter) : List Node → ConvertM (List AiScript.Node)
  | [] => return []
  | .templateSpan _ e text :: rest => do
    let value ← c.expression e
    return value :: templateText text ++ (← templateParts c rest)
  | _ :: rest => templateParts c rest

/-- The elements of an array. -/
def arrayItems (c : Converter) : List Node → ConvertM (List AiScript.Node)
  | [] => return []
  | n :: rest => do
    let item ← match n with
      | .spread .. => refuse .spreadElement n
      | .omitted _ => refuse .arrayHole n
      | e => c.expression e
    return item :: (← arrayItems c rest)

/-- The key of a property, which must not be computed. -/
def literalKey (n key : Node) : ConvertM String := do
  match ← orNumeralFault (propertyKey? key) with
  | some text => return text
  | none => refuse .computedName n

/-- A property of an object. -/
def objectEntry (c : Converter) (n : Node) : ConvertM (String × AiScript.Node) := do
  match n with
  | .spreadProperty .. => refuse .objectSpread n
  | .shorthand _ name fallback =>
    if fallback.isSome then refuse .shorthandDefault n
    return (name.name, ← c.expression (.ident name))
  | .property _ key value =>
    let key ← literalKey n key
    return (key, ← c.expression value)
  | .method _ key params body _ kind isAsync isGenerator =>
    let key ← literalKey n key
    if kind ≠ .method then refuse .accessor n
    return (key, ← convertFunction c n isAsync isGenerator params body)
  | _ => refuse (.noConversion n.kind) n

/-- The properties of an object; a repeated key keeps its first place and its last value. -/
def objectEntries (c : Converter) :
    List (String × AiScript.Node) → List Node → ConvertM (List (String × AiScript.Node))
  | table, [] => return table
  | table, n :: rest => do
    let (key, value) ← objectEntry c n
    objectEntries c (Assoc.set key value table) rest

/-- Literals. -/
def literals : Capability where
  name := "literals"
  expression := fun c n => do
    match n with
    | .number _ text => return some (.num {} (← orNumeralFault (numericValue text)))
    | .string _ value => return some (.str {} value)
    | .boolean _ value => return some (.bool {} value)
    | .null _ => refuse .nullLiteral n
    | .plainTemplate _ text => return some (.tmpl {} [.str {} text])
    | .template _ head spans =>
      return some (.tmpl {} (templateText head ++ (← templateParts c spans)))
    | .array _ elements => return some (.arr {} (← arrayItems c elements))
    | .object _ properties => return some (.obj {} (← objectEntries c [] properties))
    | _ => return none

end ScriptBridge.Conversion
