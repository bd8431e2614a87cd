import ScriptBridge.Project.Event
import ScriptBridge.Project.ModuleFault
import ScriptBridge.Typing.Memory

/-!
# Sessions

A `Session` is the state of a compilation: the files read so far, what the type oracle remembers, and
how many names were generated. It is kept when a step fails. `load` reads a file once, `link` points
the imports of a file at what they name, and `loadProgram` does both for an entry file and everything
it imports.

* `Place`: where a compilation runs.
* `parseText`, `load`, `resolveImport`, `link`, `loadProgram`: the steps.
-/

namespace ScriptBridge

open Binding TypeScript

/-- Where a compilation runs: the files, the working directory, and the directory against which
imports that do not start with a dot are resolved. -/
structure Place where
  tree : FileTree
  workingDirectory : String
  root : String
deriving Inhabited

/-- The state of a compilation. -/
structure Session where
  program : Program
  /-- The files by the paths under which they are known. -/
  known : List (String × FileId)
  memory : Typing.Memory
  /-- How many names were generated. -/
  generated : Nat
  events : Array Event
deriving Inhabited

/-- The state before anything was read. -/
def Session.start : Session :=
  { program := .start, known := [], memory := {}, generated := 0, events := #[] }

/-- Why a file cannot be had. -/
inductive LoadFault where
  | text (file : String) (fault : TextFault)
  | module (fault : ModuleFault)
  /-- The content of a file is not text. -/
  | notText
  | outOfFuel
deriving DecidableEq, Repr

/-- A step of a compilation that reads files. -/
abbrev LoadM := ReaderT Place (EStateM LoadFault Session)

/-- Reports an event. -/
def report (e : Event) : LoadM Unit :=
  modify fun s => { s with events := s.events.push e }

/-! ## Files -/

/-- Reads and binds a text, and makes it known under a name. -/
def parseText (fileName text : String) : LoadM FileId := do
  let s ← get
  match s.program.add fileName text with
  | .error fault => throw (.text fileName fault)
  | .ok (program, id) =>
    set { s with program, known := Assoc.set fileName id s.known }
    return id

/-- The place of a path. -/
def placeOf (path : String) : LoadM String := do
  return Path.absolute (← read).workingDirectory path

/-- The file at a path, read if it is not known. -/
def load (path : String) : LoadM FileId := do
  let path ← placeOf path
  match (← get).known.lookup path with
  | some id => return id
  | none =>
    match (← read).tree.read path with
    | .error failure =>
      throw (.module { cause := .unreadable failure, file := path, line := 1, col := 1 })
    | .ok content =>
      match decodeText content with
      | none => throw .notText
      | some text =>
        report (.loaded path)
        parseText path text

/-- A file of the program. -/
def fileOf (id : FileId) : LoadM BoundFile := do
  return (← get).program.file id

/-! ## Imports -/

/-- What is tried, in order, after the name of a module. -/
def moduleSuffixes : List String :=
  ["", ".ts", ".js", "/index.ts", "/index.js"]

/-- The paths that a module name may stand for in a file, in the order in which they are tried. -/
def moduleCandidates (place : Place) (importer specifier : String) : List String :=
  let directory :=
    if specifier.startsWith "./" || specifier.startsWith "../" then
      Path.directory (Path.absolute place.workingDirectory importer)
    else place.root
  moduleSuffixes.map (Path.absolute directory specifier ++ ·)

/-- The path that a module name stands for in a file. -/
def modulePath? (place : Place) (importer specifier : String) : Option String :=
  (moduleCandidates place importer specifier).find? place.tree.isFile

/-- The path that a module name at a span of a file stands for. -/
def resolveModule (place : Place) (importer specifier : String) (span : Span) :
    Except ModuleFault String :=
  match modulePath? place importer specifier with
  | some path => .ok path
  | none => .error (.at (.notFound specifier) importer span)

/-- The path that a module name at a span of a file stands for. -/
def resolveImport (importer specifier : String) (span : Span) : LoadM String := do
  match resolveModule (← read) importer specifier span with
  | .ok path => return path
  | .error fault => throw (.module fault)

/-- The modules that statements import, each once, with the first import of it. -/
def importedModules : List String → List Node → List (String × Node)
  | _, [] => []
  | seen, s :: rest =>
    match s with
    | .importDeclaration _ _ _ specifier =>
      if seen.contains specifier then importedModules seen rest
      else (specifier, s) :: importedModules (specifier :: seen) rest
    | _ => importedModules seen rest

/-- The modules that a file imports. -/
def moduleSpecifiers (file : SourceFile) : List (String × Node) :=
  importedModules [] file.statements

/-- What an import names in a file. -/
def importTarget (fileName : String) (s : Symbol) (target : FileId) : LoadM Target := do
  if s.importName == "*" then return .file target
  match (← fileOf target).exports.lookup s.importName with
  | some id => return .symbol id
  | none =>
    let span := (s.node.map (·.mark.span)).getD s.declaration.span
    throw (.module (.at (.notExported s.specifier s.importName) fileName span))

/-- Points imports of a file at what they name. -/
def linkAll (fileName : String) : List SymbolId → LoadM Unit
  | [] => return
  | id :: rest => do
    let s := (← get).program.bindings.symbol id
    if s.target.isNone then
      let path ← resolveImport fileName s.specifier s.declaration.span
      let target ← importTarget fileName s (← load path)
      modify fun session =>
        let bindings := session.program.bindings.modifySymbol id ({ · with target := some target })
        { session with program := { session.program with bindings } }
    linkAll fileName rest

/-- Points the imports of a file at what they name. -/
def link (id : FileId) : LoadM Unit := do
  let file ← fileOf id
  linkAll file.source.fileName file.imports

/-! ## Programs -/

/-- Visits a module and those it imports: the paths seen so far grow, and every file is put after the
files it imports. -/
def visitModule : Nat → List String × List FileId → String → LoadM (List String × List FileId)
  | 0, _, _ => throw .outOfFuel
  | n + 1, (seen, order), path => do
    if seen.contains path then return (seen, order)
    let id ← load path
    let source := (← fileOf id).source
    let (seen, order) ← (moduleSpecifiers source).foldlM (fun visited (specifier, decl) => do
      visitModule n visited (← resolveImport source.fileName specifier decl.span))
      (path :: seen, order)
    link id
    return (seen, order ++ [id])

/-- An entry file and everything it imports, dependencies first. -/
def loadProgram (entry : String) : LoadM (List FileId) := do
  let (_, order) ← visitModule ((← read).tree.files.length + 2) ([], []) (← placeOf entry)
  report (.loadedProgram order.length entry)
  return order

end ScriptBridge
