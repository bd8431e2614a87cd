import ScriptBridge.Binding.Declare
import ScriptBridge.Conversion.Function

/-!
# Imports and exports

The exports of a module are one object. An import is a definition of each imported name as a property
of that object. Exported declarations are entered into the export table and then converted without
their export mark.

* `imports`, `exports`: the capabilities.
* `exportTable`: the object of exports.
-/

namespace ScriptBridge.Conversion

open TypeScript Binding

/-! ## Imports -/

/-- The definition of a default import. -/
def importDefault (module : ConvertM String) : Option Ident → ConvertM (List AiScript.Node)
  | none => return []
  | some i => do
    if ← isTypeName i then return []
    checkName i
    return [define i.name (.prop {} (.ident {} (← module)) "default") false]

/-- The definition of an import of a whole module. -/
def importAll (module : ConvertM String) : Option Ident → ConvertM (List AiScript.Node)
  | none => return []
  | some i => do
    checkName i
    return [define i.name (.ident {} (← module)) false]

/-- The definitions of imported names. -/
def importNames (module : ConvertM String) : List Node → ConvertM (List AiScript.Node)
  | [] => return []
  | .importSpecifier _ imported i isTypeOnly :: rest => do
    let isType ← isTypeName i
    let first ← if isTypeOnly || isType then pure []
      else do
        checkName i
        let value : AiScript.Node := .prop {} (.ident {} (← module)) (imported.getD i).name
        pure [define i.name value false]
    return first ++ (← importNames module rest)
  | _ :: rest => importNames module rest

/-- Imports. -/
def imports : Capability where
  name := "imports"
  statement := fun _ n => do
    match n with
    | .importDeclaration m (some (.importClause _ name allAs elements false)) _ specifier =>
      let module := moduleName specifier m.span
      let first ← importDefault module name
      let second ← importAll module allAs
      return some (first ++ second ++ (← importNames module (elements.getD [])))
    | .importDeclaration .. => return some []
    | _ => return none

/-! ## Exports -/

/-- Enters the names of an export list. -/
def exportNames : List Node → ConvertM Unit
  | [] => return
  | .exportSpecifier _ localName name :: rest => do
    let inner := localName.getD name
    if !(← isTypeName inner) then addExport name.name inner.name
    exportNames rest
  | _ :: rest => exportNames rest

/-- Enters a default export; an expression is given a generated name. -/
def exportDefault (c : Converter) (e : Node) : ConvertM (List AiScript.Node) := do
  let byName : Option Ident := match e with
    | .ident i => if i.name == "undefined" then none else some i
    | _ => none
  match byName with
  | some i =>
    if !(← isTypeName i) then addExport "default" i.name
    return []
  | none =>
    let temp ← freshName
    addExport "default" temp
    return [define temp (← c.expression e) false]

/-- Enters the names that a list of variables declares. -/
def exportVariables : Node → ConvertM Unit
  | .variableList _ _ declarations => do
    let names := declarations.flatMap fun
      | .variableDeclaration _ target _ _ => bindingIdentifiers target
      | _ => []
    names.forM fun i => addExport i.name i.name
  | _ => return

/-- A declaration without its export mark. -/
def withoutExport (n : Node) : Node :=
  n.setModifiers (n.modifiers.filter fun m => m.word != "export" && m.word != "default")

/-- An exported declaration. -/
def exportDeclared (c : Converter) (n : Node) : ConvertM (List AiScript.Node) := do
  if hasModifier n.modifiers "declare" then return []
  let isDefault := hasModifier n.modifiers "default"
  match n with
  | .interfaceDeclaration .. | .typeAlias .. => return []
  | .functionDeclaration _ _ _ _ none _ _ _ _ => return []
  | .functionDeclaration _ _ none params (some body) _ _ isAsync isGenerator =>
    let temp ← freshName
    addExport "default" temp
    return [define temp (← convertFunction c n isAsync isGenerator params body) false]
  | .functionDeclaration _ _ (some i) _ (some _) _ _ _ _ =>
    addExport (if isDefault then "default" else i.name) i.name
    c.statement (withoutExport n)
  | .variableStatement _ _ list =>
    exportVariables list
    c.statement (withoutExport n)
  | _ => c.statement (withoutExport n)

/-- Exports. -/
def exports : Capability where
  name := "exports"
  statement := fun c n => do
    match n with
    | .exportDeclaration _ (some elements) none isTypeOnly =>
      if !isTypeOnly then exportNames elements
      return some []
    | .exportDeclaration .. => refuse .reExport n
    | .exportAssignment _ e true => return some (← exportDefault c e)
    | .exportAssignment _ _ false => refuse .exportAssignment n
    | _ =>
      if hasModifier n.modifiers "export" then return some (← exportDeclared c n) else return none

/-- The object of exports. -/
def exportTable (table : List (String × String)) : AiScript.Node :=
  .obj {} (table.map fun (name, localName) => (name, .ident {} localName))

end ScriptBridge.Conversion
