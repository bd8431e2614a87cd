import ScriptBridge.Binding.Program
import ScriptBridge.Bundle.Edit
import ScriptBridge.Bundle.RenameTable
import ScriptBridge.TypeScript.Node.Fold

/-!
# Statements for one scope

A statement of a module is moved to a scope that all modules share: its text stays as it was written,
but names are replaced by their final names and export marks are cut out. No edit adds or removes a
line break outside the replaced ranges, so lines keep their distance from the statement's first line.

* `nameEdits`: the edits that a node needs.
* `flatten`: the text of a statement.
-/

namespace ScriptBridge.Bundle

open Binding TypeScript

/-- Why a statement cannot be moved to a shared scope. -/
inductive FlattenCause where
  | exportAssignment
  | unboundDefault
  | wholeModule (name : String)
  | notExported (name : String)
deriving DecidableEq, Repr

/-- The wording of a cause. -/
def FlattenCause.message : FlattenCause → String
  | exportAssignment => "'export =' is not supported"
  | unboundDefault => "default export has no binding"
  | wholeModule name =>
    "namespace import '" ++ name ++ "' can only be used for member access when bundling"
  | notExported name => "module has no exported member '" ++ name ++ "'"

/-- A statement that cannot be moved: why, and at which node. -/
structure FlattenFault where
  cause : FlattenCause
  node : String
  span : Span
deriving DecidableEq, Repr

/-- A fault at a node. -/
def FlattenFault.at (cause : FlattenCause) (n : Node) : FlattenFault :=
  { cause, node := n.kind, span := n.span }

/-- The final names of symbols. -/
abbrev SymbolNames := RenameTable SymbolId

/-- What is known about names when statements are moved. -/
structure Renaming where
  program : Program
  table : SymbolNames

namespace Renaming

/-- The final name of a symbol, import links followed. -/
def finalName? (r : Renaming) (id : SymbolId) : Option String :=
  match r.program.bindings.resolve id with
  | .symbol origin => r.table.finalName? origin
  | .file _ => none

/-- The final name of what a node refers to. -/
def finalNameOf? (r : Renaming) (m : Mark) : Option String :=
  (r.program.bindings.symbolOf? m.id).bind r.finalName?

/-- The file that a name stands for. -/
def fileOf? (r : Renaming) (i : Ident) : Option FileId :=
  match r.program.origin? i.mark.id with
  | some (.file id) => some id
  | _ => none

/-- The edit that renames a range, if it needs one. -/
def rename (m : Mark) (name : String) (replacement : String → String) : Option String → List Edit
  | none => []
  | some final =>
    if final == name then []
    else [{ start := m.span.start, stop := m.span.stop, replacement := (replacement final).toList }]

/-- The edits of a name; one that is also a key keeps the key. -/
def renameIdent (r : Renaming) (i : Ident) (isKey : Bool) : Except FlattenFault (List Edit) :=
  if (r.fileOf? i).isSome then .error (.at (.wholeModule i.name) (.ident i))
  else
    .ok (rename i.mark i.name (if isKey then (i.name ++ ": " ++ ·) else id) (r.finalNameOf? i.mark))

/-- The edit of a member of a module. -/
def renameMember (r : Renaming) (file : FileId) (m : Mark) (name : Ident) :
    Except FlattenFault (List Edit) :=
  match ((r.program.file file).exports.lookup name.name).bind r.finalName? with
  | some final =>
    .ok [{ start := m.span.start, stop := m.span.stop, replacement := final.toList }]
  | none => .error (.at (.notExported name.name) (.ident name))

/-- The edits of a type name; one with dots stays. -/
def renameType (r : Renaming) (m : Mark) (name : String) : List Edit :=
  if name.toList.contains '.' then []
  else
    let place : Mark :=
      { m with span := { m.span with stop := m.span.start + name.length } }
    rename place name id (r.finalNameOf? m)

end Renaming

/-- The edits of a node, by whether it stands directly in an object pattern. -/
abbrev EditsOf := Bool → Except FlattenFault (List Edit)

/-- The edits of nodes one after the other. -/
def editsOfAll (isInObject : Bool) : List EditsOf → Except FlattenFault (List Edit)
  | [] => .ok []
  | edits :: rest => do
    let first ← edits isInObject
    return first ++ (← editsOfAll isInObject rest)

/-- The edits of a node from those of the nodes inside it. -/
def nodeEdits (r : Renaming) (n : Node) (inside : List EditsOf) : EditsOf := fun isInObject =>
  let within := editsOfAll false inside
  match n with
  | .ident i => r.renameIdent i false
  | .propertyAccess m (.ident i) name _ =>
    match r.fileOf? i with
    | some file => r.renameMember file m name
    | none => within
  | .shorthand _ name _ => do
    let first ← r.renameIdent name true
    return first ++ (← editsOfAll false (inside.drop 1))
  | .objectPattern .. => editsOfAll true inside
  | .bindingElement _ none (.ident i) _ _ => do
    let first ← r.renameIdent i isInObject
    return first ++ (← editsOfAll false (inside.drop 1))
  | .typeReference m name _ => do return r.renameType m name ++ (← within)
  | _ => within

/-- The edits that a node needs. -/
def nameEdits (r : Renaming) (n : Node) : Except FlattenFault (List Edit) :=
  n.fold (nodeEdits r) false

/-! ## Statements -/

/-- The place after the blanks that follow a place. -/
def skipBlanks (text : List Char) (pos : Nat) : Nat :=
  pos + ((text.drop pos).takeWhile fun c => c == ' ' || c == '\t').length

/-- The edits that cut out export marks. -/
def exportEdits (text : List Char) (modifiers : List Modifier) : List Edit :=
  (modifiers.filter fun m => m.word == "export" || m.word == "default").map fun m =>
    { start := m.mark.span.start, stop := skipBlanks text m.mark.span.stop, replacement := [] }

/-- The start of the definition of a module's default export. -/
def defaultDefinition (r : Renaming) (exports : Names) (n : Node) : Except FlattenFault (List Char) :=
  match (exports.lookup "default").bind r.finalName? with
  | some final => .ok ("const " ++ final ++ " = ").toList
  | none => .error (.at .unboundDefault n)

/-- Whether a statement is a function without a name. -/
def isUnnamedFunction : Node → Bool
  | .functionDeclaration _ _ none _ _ _ _ _ _ => true
  | _ => false

/-- The text of a statement of a module in a shared scope. -/
def flatten (r : Renaming) (file : BoundFile) (n : Node) : Except FlattenFault (List Char) := do
  let text := file.source.text.toList
  match n with
  | .exportAssignment _ e isDefault =>
    if !isDefault then throw (.at .exportAssignment n)
    let front ← defaultDefinition r file.exports n
    return front ++ applyEdits text e.span.start n.span.stop (← nameEdits r e)
  | _ =>
    let front ← if isUnnamedFunction n then defaultDefinition r file.exports n else pure []
    let edits := exportEdits text n.modifiers ++ (← nameEdits r n)
    return front ++ applyEdits text n.span.start n.span.stop edits

end ScriptBridge.Bundle
