import ScriptBridge.Binding.Declare
import ScriptBridge.Project.Session

/-!
# Modules to bundle

A `ModuleRecord` is a file split into what it depends on and the statements that go into the bundle.
Imports and exports stay behind; a default export of an expression goes in, because its value needs a
name.

* `ModuleRecord.ofFile`: the record of a file.
* `topLevelSymbols`: the symbols that a statement declares for the whole module.
-/

namespace ScriptBridge.Bundle

open Binding TypeScript

/-- A file to bundle. -/
structure ModuleRecord where
  file : BoundFile
  /-- The modules it imports. -/
  dependencies : List String
  /-- The statements that go into the bundle. -/
  statements : List Node
deriving Inhabited

/-- Whether a statement goes into the bundle. -/
def staysInBundle (b : Bindings) : Node → Bool
  | .importDeclaration .. | .exportDeclaration .. => false
  | .exportAssignment _ (.ident i) true => (b.symbolOf? i.mark.id).isNone
  | _ => true

/-- The record of a file. -/
def ModuleRecord.ofFile (b : Bindings) (file : BoundFile) : ModuleRecord :=
  { file
    dependencies := (moduleSpecifiers file.source).map Prod.fst
    statements := file.source.statements.filter (staysInBundle b) }

/-- The names that a statement declares for the whole module. -/
def topLevelNames : Node → List Ident
  | .variableStatement _ _ (.variableList _ _ declarations) =>
    declarations.flatMap fun
      | .variableDeclaration _ target _ _ => bindingIdentifiers target
      | _ => []
  | .functionDeclaration _ _ name _ _ _ _ _ _ => name.toList
  | .interfaceDeclaration _ _ name _ _ _ => [name]
  | .typeAlias _ _ name _ _ => [name]
  | _ => []

/-- The symbols that a statement declares for the whole module. Ambient declarations name what is there
already, and are never renamed. -/
def topLevelSymbols (b : Bindings) (n : Node) : List SymbolId :=
  if hasModifier n.modifiers "declare" then []
  else (topLevelNames n).filterMap fun i => b.symbolOf? i.mark.id

end ScriptBridge.Bundle
