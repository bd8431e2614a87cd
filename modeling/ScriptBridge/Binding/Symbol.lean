import ScriptBridge.TypeScript.Node
import Std.Data.HashMap

/-!
# Symbols and scopes

A `Symbol` is one declared binding: two identifiers mean the same variable exactly when they have the
same symbol. A `Scope` has a table for values and one for types, and a scope around it; variables
declared with `var` belong to the nearest scope that is not a block.

Symbols and scopes are numbered, and `Bindings` holds them together with what names refer to.

* `Bindings.lookupValue?`, `Bindings.lookupType?`: a name seen from a scope.
* `Bindings.functionScope`: where a hoisted variable goes.
* `Bindings.symbolOf?`: what an identifier or a type reference refers to.
* `Bindings.resolve`: a symbol with import links followed.
-/

namespace ScriptBridge.Binding

open ScriptBridge.TypeScript

/-- The number of a symbol. -/
abbrev SymbolId := Nat

/-- The number of a scope. -/
abbrev ScopeId := Nat

/-- What a symbol was declared as. -/
inductive SymbolKind where
  | constant
  | changeable
  | hoisted
  | function
  | parameter
  | caught
  | classType
  | enumType
  | space
  | interfaceType
  | aliasType
  | typeParameter
  | imported
  | anonymous
deriving DecidableEq, Repr, Inhabited

/-- The word for a kind of symbol. -/
def SymbolKind.word : SymbolKind → String
  | constant => "const"
  | changeable => "let"
  | hoisted => "var"
  | function => "function"
  | parameter => "parameter"
  | caught => "catch"
  | classType => "class"
  | enumType => "enum"
  | space => "namespace"
  | interfaceType => "interface"
  | aliasType => "type"
  | typeParameter => "typeparam"
  | imported => "import"
  | anonymous => "default"

/-- Whether a kind is that of a type only. -/
def SymbolKind.isType : SymbolKind → Bool
  | interfaceType | aliasType | typeParameter => true
  | _ => false

/-- Whether a kind may be declared several times in one scope. -/
def SymbolKind.merges : SymbolKind → Bool
  | hoisted | function | space | interfaceType => true
  | _ => false

/-- The kind that a declaring word gives. -/
def SymbolKind.ofKeyword (keyword : String) : SymbolKind :=
  if keyword == "const" then .constant else if keyword == "let" then .changeable else .hoisted

/-- The kinds of scopes. -/
inductive ScopeKind where
  | global
  | file
  | space
  | function
  | block
deriving DecidableEq, Repr, Inhabited

/-- The word for a kind of scope. -/
def ScopeKind.word : ScopeKind → String
  | global => "global"
  | file => "module"
  | space => "namespace"
  | function => "function"
  | block => "block"

/-- A step from a value to a part of it, as patterns take. -/
inductive Step where
  | property (key : String)
  | element (index : Nat)
  /-- The properties that are left. -/
  | restProperties
  /-- The elements from an index on. -/
  | restElements (index : Nat)
deriving DecidableEq, Repr

/-- What an import refers to. -/
inductive Target where
  | symbol (id : SymbolId)
  /-- All of a file, by its number. -/
  | file (index : Nat)
deriving DecidableEq, Repr

/-- A table of names. -/
abbrev Names := List (String × SymbolId)

/-- A lexical scope. -/
structure Scope where
  kind : ScopeKind
  parent : Option ScopeId
  fileName : String
  values : Names := []
  types : Names := []
deriving Inhabited

/-- A declared binding. -/
structure Symbol where
  name : String
  kind : SymbolKind
  /-- The first declaration. -/
  declaration : Node
  /-- All declarations, the first included. -/
  declarations : List Node
  /-- The identifier that declares it. -/
  node : Option Ident
  scope : ScopeId
  /-- For a name in a pattern: the steps from the declared value to this name. -/
  path : List Step := []
  /-- For a loop variable: what the loop goes over. -/
  iterated : Option Node := none
  /-- For a namespace: the scope of its members. -/
  members : Option ScopeId := none
  /-- For an import: the text that names the module. -/
  specifier : String := ""
  /-- For an import: the name it has there, `default`, or `*` for all of the module. -/
  importName : String := ""
  /-- For an import, once linked: what it refers to. -/
  target : Option Target := none
deriving Inhabited

/-- All symbols and scopes, and what names refer to. -/
structure Bindings where
  scopes : Array Scope := #[]
  symbols : Array Symbol := #[]
  /-- The symbols of identifiers and type references, by the identities of their nodes. -/
  references : Std.HashMap Nat SymbolId := {}
  /-- The scopes of namespace declarations, by the identities of their nodes. -/
  spaces : Std.HashMap Nat ScopeId := {}
  /-- The imports of the file that is being bound. -/
  imports : List SymbolId := []
deriving Inhabited

namespace Bindings

/-- The symbol of a number. -/
def symbol (b : Bindings) (id : SymbolId) : Symbol :=
  (b.symbols[id]?).getD default

/-- The scope of a number. -/
def scope (b : Bindings) (id : ScopeId) : Scope :=
  (b.scopes[id]?).getD default

/-- What a node refers to, by its identity. -/
def symbolOf? (b : Bindings) (nodeId : Nat) : Option SymbolId :=
  b.references[nodeId]?

/-- A name in one of the tables of a scope or of the scopes around it. -/
def lookup? (b : Bindings) (table : Scope → Names) (name : String) (id : ScopeId) :
    Option SymbolId :=
  let scope := b.scope id
  match (table scope).lookup name with
  | some s => some s
  | none =>
    match scope.parent with
    | some parent => if parent < id then b.lookup? table name parent else none
    | none => none
termination_by id

/-- The value that a name stands for, seen from a scope. -/
def lookupValue? (b : Bindings) (name : String) (id : ScopeId) : Option SymbolId :=
  b.lookup? Scope.values name id

/-- The type that a name stands for, seen from a scope. -/
def lookupType? (b : Bindings) (name : String) (id : ScopeId) : Option SymbolId :=
  b.lookup? Scope.types name id

/-- The nearest scope that receives hoisted variables. -/
def functionScope (b : Bindings) (id : ScopeId) : ScopeId :=
  let scope := b.scope id
  match scope.kind, scope.parent with
  | .block, some parent => if parent < id then b.functionScope parent else id
  | _, _ => id
termination_by id

/-- The name of the file that declares a symbol. -/
def fileName (b : Bindings) (id : SymbolId) : String :=
  (b.scope (b.symbol id).scope).fileName

/-- Follows import links from a symbol, at most `fuel` of them; a link that leads to a symbol seen
before is not followed. -/
def resolveFrom (b : Bindings) : Nat → List SymbolId → SymbolId → Target
  | 0, _, id => .symbol id
  | fuel + 1, seen, id =>
    match (b.symbol id).kind, (b.symbol id).target with
    | .imported, some target =>
      if seen.contains id then .symbol id
      else
        match target with
        | .file index => .file index
        | .symbol next => b.resolveFrom fuel (id :: seen) next
    | _, _ => .symbol id

/-- What a symbol stands for once import links are followed. -/
def resolve (b : Bindings) (id : SymbolId) : Target :=
  b.resolveFrom (b.symbols.size + 1) [] id

/-- Changes a symbol. -/
def modifySymbol (b : Bindings) (id : SymbolId) (f : Symbol → Symbol) : Bindings :=
  { b with symbols := b.symbols.modify id f }

/-- Changes a scope. -/
def modifyScope (b : Bindings) (id : ScopeId) (f : Scope → Scope) : Bindings :=
  { b with scopes := b.scopes.modify id f }

end Bindings

/-- A file with the scope of its names and what it exports and imports. -/
structure BoundFile where
  source : SourceFile
  scope : ScopeId
  exports : Names
  imports : List SymbolId
deriving Inhabited

end ScriptBridge.Binding
