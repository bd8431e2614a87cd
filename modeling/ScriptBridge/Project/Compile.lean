import ScriptBridge.Conversion.Module
import ScriptBridge.Project.Session

/-!
# Compiling

Conversion of texts and programs within a session. A text on its own may not import. In a program every
imported module becomes the definition of a generated name as the object of its exports, ahead of the
modules that import it, and the statements of the entry file follow.

* `convertFile`: one file.
* `convertSource`: a text on its own.
* `convertProgram`: an entry file with everything it imports.
-/

namespace ScriptBridge

open Binding TypeScript Conversion

/-- Why a compilation stops. -/
inductive CompileFault where
  | load (fault : LoadFault)
  | convert (fault : ConvertFault)
deriving DecidableEq, Repr

/-- A step of a compilation. -/
abbrev CompileM := ReaderT Place (EStateM CompileFault Session)

/-- A step that reads files. -/
def loading {α : Type} (action : LoadM α) : CompileM α := fun place s =>
  match action place s with
  | .ok a s => .ok a s
  | .error fault s => .error (.load fault) s

/-- A new generated name. -/
def generateName : CompileM String := do
  let s ← get
  set { s with generated := s.generated + 1 }
  return generatedName (s.generated + 1)

/-- Runs a conversion in a file. -/
def converting {α : Type} (fileName : String) (moduleName : String → Span → Except ModuleFault String)
    (action : ConvertM α) : CompileM α := do
  let s ← get
  let context : Context := { program := s.program, fileName, moduleName }
  let progress : Progress := { memory := s.memory, generated := s.generated }
  match action context progress with
  | .ok a p =>
    set { s with memory := p.memory, generated := p.generated }
    return a
  | .error fault p =>
    set { s with memory := p.memory, generated := p.generated }
    throw (.convert fault)

/-- Converts a file. -/
def convertFile (caps : List Capability) (moduleName : String → Span → Except ModuleFault String)
    (id : FileId) : CompileM Module := do
  let source := ((← get).program.file id).source
  loading (report (.converting source.fileName))
  let module ← converting source.fileName moduleName (Module.convert caps source.statements)
  loading (report (.converted source.fileName module.statements.length module.exports.length))
  return module

/-- A file on its own has no modules to import. -/
def noModules (fileName specifier : String) (span : Span) : Except ModuleFault String :=
  .error (.at (.standsAlone specifier) fileName span)

/-- Converts a text on its own to a module. -/
def convertText (caps : List Capability) (fileName text : String) : CompileM Module := do
  let id ← loading (parseText fileName text)
  convertFile caps (noModules fileName) id

/-- Converts a text on its own; its exports follow as an object. -/
def convertSource (caps : List Capability) (fileName text : String) :
    CompileM (List AiScript.Node) := do
  let module ← convertText caps fileName text
  return module.statements ++ module.table

/-- The name that holds the exports of a module which a file imports. -/
def importedName (place : Place) (names : List (String × String)) (importer specifier : String)
    (span : Span) : Except ModuleFault String := do
  let path ← resolveModule place importer specifier span
  match names.lookup path with
  | some name => return name
  | none => throw (.at (.circular specifier) importer span)

/-- Generated names for files. -/
def nameFiles : List FileId → CompileM (List (String × String))
  | [] => return []
  | id :: rest => do
    let fileName := ((← get).program.file id).source.fileName
    let name ← generateName
    return (fileName, name) :: (← nameFiles rest)

/-- Converts an imported file to the definition of its name. -/
def convertImported (caps : List Capability) (names : List (String × String)) (id : FileId) :
    CompileM AiScript.Node := do
  let fileName := ((← get).program.file id).source.fileName
  let module ← convertFile caps (importedName (← read) names fileName) id
  let name := (names.lookup fileName).getD ""
  return define name (.block {} (module.statements ++ module.table)) false

/-- Converts the entry file of a program. -/
def convertEntry (caps : List Capability) (names : List (String × String)) (id : FileId) :
    CompileM (List AiScript.Node) := do
  let fileName := ((← get).program.file id).source.fileName
  let module ← convertFile caps (importedName (← read) names fileName) id
  return module.statements ++ module.table

/-- Converts an entry file with everything it imports. -/
def convertProgram (caps : List Capability) (entry : String) : CompileM (List AiScript.Node) := do
  let files ← loading (loadProgram entry)
  let names ← nameFiles files.dropLast
  let imported ← files.dropLast.mapM (convertImported caps names)
  let statements ← match files.getLast? with
    | some id => convertEntry caps names id
    | none => pure []
  loading (report (.convertedProgram files.length entry))
  return imported ++ statements

end ScriptBridge
