import ScriptBridge.Bundle.Flatten
import ScriptBridge.Bundle.ModuleRecord
import ScriptBridge.Bundle.SourceMap
import ScriptBridge.Project.Compile

/-!
# Bundling

A bundle flattens an entry file and everything it imports into one text with one scope, and converts
that text as a single file. Faults in the combined text are traced back to where they came from.

* `discover`: finds the modules, each before those it imports.
* `registerAll`: gives every top-level binding its final name, exports first.
* `processingOrder`: the modules with dependencies first.
* `combine`: the combined text and its source map.
* `bundle`: all steps.
-/

namespace ScriptBridge.Bundle

open Binding TypeScript Conversion

/-! ## State and faults -/

/-- How far a bundle has got. -/
structure State where
  session : Session
  /-- The modules by path, in the order of discovery. -/
  modules : List (String × ModuleRecord) := []
  /-- The path of each module name in a module. -/
  resolved : List ((String × String) × String) := []
  table : SymbolNames := {}
  map : SourceMap := {}
  combined : String := ""
deriving Inhabited

/-- Why modules cannot be bundled. -/
inductive BundleCause where
  | reExport
  /-- A text cannot be read. -/
  | source (message : String)
  | module (cause : ModuleCause)
  | flatten (cause : FlattenCause)
  | refused (cause : Cause)
deriving DecidableEq, Repr

/-- The wording of a cause. -/
def BundleCause.message : BundleCause → String
  | reExport => "re-exports are not supported"
  | source message => message
  | module cause => cause.message
  | flatten cause => cause.message
  | refused cause => cause.message

/-- A failure to bundle, at a place. -/
structure BundleFailure where
  cause : BundleCause
  /-- Whether it was found in a statement of the combined text. -/
  isInStatement : Bool := false
  file : String
  line : Nat
  col : Nat
  /-- The name of the form of the statement or node at fault. -/
  node : Option String := none
deriving DecidableEq, Repr

/-- The wording of a failure. -/
def BundleFailure.message (f : BundleFailure) : String :=
  (if f.isInStatement then "error converting statement: " else "") ++ f.cause.message

/-- Why bundling stops. -/
inductive BundleFault where
  | failed (failure : BundleFailure)
  /-- A fault without a place. -/
  | other (fault : CompileFault)
deriving DecidableEq, Repr

/-- A step of bundling. -/
abbrev BundleM := ReaderT Place (EStateM BundleFault State)

/-- The cause and place of a fault, if it has a place. -/
def placedCause? : CompileFault → Option (BundleCause × String × Nat × Nat)
  | .load (.text file fault) =>
    fault.placed?.map fun (message, line, col) => (.source message, file, line, col)
  | .load (.module fault) | .convert (.module fault) =>
    some (.module fault.cause, fault.file, fault.line, fault.col)
  | .convert (.refused r) => some (.refused r.cause, r.file, r.span.line, r.span.col)
  | _ => none

/-- A fault as a failure at its own place. -/
def faultAtPlace (fault : CompileFault) : BundleFault :=
  match placedCause? fault with
  | some (cause, file, line, col) => .failed { cause, file, line, col }
  | none => .other fault

/-- Runs a step of a compilation, with its faults turned into failures. -/
def running {α : Type} (toFault : State → CompileFault → BundleFault) (action : CompileM α) :
    BundleM α := fun place s =>
  match action place s.session with
  | .ok a session => .ok a { s with session }
  | .error fault session => .error (toFault s fault) { s with session }

/-- Runs a step that reads files. -/
def reading {α : Type} (action : LoadM α) : BundleM α :=
  running (fun _ => faultAtPlace) (loading action)

/-- Reports an event. -/
def announce (e : Event) : BundleM Unit :=
  reading (report e)

/-! ## Discovery -/

/-- Refuses exports of what another module has. -/
def checkExports (file : BoundFile) : BundleM Unit :=
  file.source.statements.forM fun s => do
    let failure : BundleFailure :=
      { cause := .reExport, file := file.source.fileName, line := s.span.line, col := s.span.col,
        node := some s.kind }
    match s with
    | .exportDeclaration _ (some _) none _ => return
    | .exportDeclaration .. => throw (.failed failure)
    | _ => return

/-- Finds a module and everything it imports that was not found yet. -/
def discoverFrom : Nat → String → BundleM Unit
  | 0, _ => throw (.other (.load .outOfFuel))
  | n + 1, path => do
    if ((← get).modules.lookup path).isSome then return
    let id ← reading (load path)
    let file ← reading (fileOf id)
    checkExports file
    modify fun s =>
      let record := ModuleRecord.ofFile s.session.program.bindings file
      { s with modules := s.modules ++ [(path, record)] }
    (moduleSpecifiers file.source).forM fun (specifier, decl) => do
      let target ← reading (resolveImport file.source.fileName specifier decl.span)
      modify fun s => { s with resolved := s.resolved ++ [((path, specifier), target)] }
      discoverFrom n target
    reading (link id)

/-- Finds an entry file and everything it imports. -/
def discover (entry : String) : BundleM Unit := do
  discoverFrom ((← read).tree.files.length + 2) entry
  announce (.discovered (← get).modules.length entry)

/-! ## Names -/

/-- The name under which a symbol is registered. -/
def textualName (s : Symbol) : String :=
  if s.kind = .anonymous then "_default" else s.name

/-- Gives a symbol its final name. -/
def registerSymbol (name : String) (id : SymbolId) : BundleM Unit := do
  let s ← get
  let isNew := (s.table.finalName? id).isNone
  let (final, table) := s.table.register name id
  set { s with table }
  if isNew && final != name then announce (.renamed name final)

/-- Gives the exports of a module and then its other top-level bindings their final names. -/
def registerModule (record : ModuleRecord) : BundleM Unit := do
  let b := (← get).session.program.bindings
  record.file.exports.forM fun (_, id) => do
    match b.resolve id with
    | .symbol origin => registerSymbol (textualName (b.symbol origin)) origin
    | .file _ => return
  (record.statements.flatMap (topLevelSymbols b)).forM fun id =>
    registerSymbol (b.symbol id).name id

/-- Gives every top-level binding its final name. -/
def registerAll : BundleM Unit := do
  (← get).modules.forM fun (_, record) => registerModule record
  announce (.tableFilled (← get).table.size)

/-! ## Order -/

/-- Visits a module after those it depends on. The paths seen so far and the order are given back. -/
def visitInOrder (s : State) : Nat → List String × List String → String → List String × List String
  | 0, visited, _ => visited
  | n + 1, (seen, order), path =>
    if seen.contains path then (seen, order)
    else
      let dependencies := ((s.modules.lookup path).map (·.dependencies)).getD []
      let targets := dependencies.filterMap fun specifier =>
        (s.resolved.lookup (path, specifier)).filter fun t => (s.modules.lookup t).isSome
      let (seen, order) := targets.foldl (visitInOrder s n) (path :: seen, order)
      (seen, order ++ [path])

/-- The paths of the modules, dependencies first. -/
def processingOrder (s : State) : List String :=
  let paths := s.modules.map Prod.fst
  (paths.foldl (visitInOrder s (paths.length + 1)) ([], [])).2

/-! ## The combined text -/

/-- The number of line breaks in a text. -/
def lineBreaks (text : List Char) : Nat :=
  (text.filter (· == '\n')).length

/-- Adds a statement to the combined text; `line` is where it starts. The line after it is given
back. -/
def combineStatement (record : ModuleRecord) (line : Nat) (n : Node) :
    BundleM (Nat × List Char) := do
  let s ← get
  let fileName := record.file.source.fileName
  match flatten ⟨s.session.program, s.table⟩ record.file n with
  | .error fault =>
    throw (.failed { cause := .flatten fault.cause, file := fileName, line := fault.span.line,
                     col := fault.span.col, node := some fault.node })
  | .ok text =>
    let entry : MapEntry :=
      { bundledLine := line, file := fileName, line := n.span.line, col := n.span.col,
        statement := some n.kind }
    set { s with map := (s.map.add entry).getD s.map }
    return (line + lineBreaks text + 1, text ++ [';', '\n'])

/-- The text of statements one after the other. -/
def combineAll : Nat → List (ModuleRecord × Node) → BundleM (List Char)
  | _, [] => return []
  | line, (record, n) :: rest => do
    let (line, text) ← combineStatement record line n
    return text ++ (← combineAll line rest)

/-- The statements of all modules, dependencies first. -/
def orderedStatements (s : State) : List (ModuleRecord × Node) :=
  (processingOrder s).flatMap fun path =>
    match s.modules.lookup path with
    | some record => record.statements.map (record, ·)
    | none => []

/-- The combined text. -/
def combine : BundleM Unit := do
  let text ← combineAll 0 (orderedStatements (← get))
  modify fun s => { s with combined := String.ofList text }

/-! ## Conversion -/

/-- The name of the combined text. -/
def bundleName : String := "<bundle>"

/-- A fault in the combined text as a failure where it came from. -/
def traceFault (s : State) (fault : CompileFault) : BundleFault :=
  match placedCause? fault with
  | none => .other fault
  | some (cause, _, line, col) =>
    match s.map.lookup? line with
    | none => .failed { cause, file := bundleName, line, col }
    | some e =>
      .failed { cause, isInStatement := true, file := e.file, line := e.originLine line,
                col := e.col, node := e.statement }

/-- Converts the combined text. -/
def convertCombined (caps : List Capability) : BundleM (List AiScript.Node) := do
  let text := (← get).combined
  return (← running traceFault (convertText caps bundleName text)).statements

/-- Bundles an entry file and everything it imports. -/
def bundle (caps : List Capability) (entry : String) : BundleM (List AiScript.Node) := do
  discover (← reading (placeOf entry))
  registerAll
  combine
  let nodes ← convertCombined caps
  announce (.bundled (← get).modules.length nodes.length)
  return nodes

end ScriptBridge.Bundle
