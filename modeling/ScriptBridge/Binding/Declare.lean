import ScriptBridge.Binding.Symbol
import ScriptBridge.Data.Assoc
import ScriptBridge.TypeScript.PropertyKey

/-!
# Declaring names

A declaration puts a new symbol into a table of a scope, or adds to a symbol of the same name that
takes further declarations. `hoistVars` declares the variables that belong to a function scope,
`hoist` the names of one list of statements.

* `BindFault`: the ways in which binding can fail.
* `declare`, `declareBinding`: one name, and all names of a pattern with the steps that lead to them.
-/

namespace ScriptBridge.Binding

open ScriptBridge.TypeScript

/-- Why a name cannot be bound. -/
inductive BindCause where
  | alreadyDeclared (name : String) (line : Nat)
  | unknownExport (name : String)
deriving DecidableEq, Repr

/-- The wording of a cause. -/
def BindCause.message : BindCause → String
  | alreadyDeclared name line => "'" ++ name ++ "' already declared at line " ++ toString line
  | unknownExport name => "cannot find name '" ++ name ++ "' to export"

/-- Why binding stopped. -/
inductive BindFault where
  | placed (cause : BindCause) (line col : Nat)
  /-- A numeric key has no value. -/
  | numeral (fault : NumeralFault)
deriving DecidableEq, Repr

/-- A binding action; it keeps the symbols made so far when it fails. -/
abbrev BindM := EStateM BindFault Bindings

/-- Which table of a scope a name goes to. -/
inductive Space where
  | value
  | type
deriving DecidableEq, Repr

/-- The names of a scope in a space. -/
def Scope.names (s : Scope) : Space → Names
  | .value => s.values
  | .type => s.types

/-- Puts a name into a table of a scope. -/
def Scope.setName (space : Space) (name : String) (id : SymbolId) (s : Scope) : Scope :=
  match space with
  | .value => { s with values := Assoc.set name id s.values }
  | .type => { s with types := Assoc.set name id s.types }

/-! ## Symbols and scopes -/

/-- A new scope inside another one. -/
def newScope (kind : ScopeKind) (parent : ScopeId) : BindM ScopeId := do
  let b ← get
  let scope : Scope := { kind, parent := some parent, fileName := (b.scope parent).fileName }
  set { b with scopes := b.scopes.push scope }
  return b.scopes.size

/-- A new symbol that no table holds yet. -/
def newSymbol (symbol : Symbol) : BindM SymbolId := do
  let b ← get
  set { b with symbols := b.symbols.push symbol }
  return b.symbols.size

/-- Records what a node refers to. -/
def refer (nodeId : Nat) (id : SymbolId) : BindM Unit :=
  modify fun b => { b with references := b.references.insert nodeId id }

/-- Records what a node refers to, if anything. -/
def refer? (nodeId : Nat) : Option SymbolId → BindM Unit
  | some id => refer nodeId id
  | none => return

/-- Fails at a name. -/
def failAt {α : Type} (i : Ident) (cause : BindCause) : BindM α :=
  throw (.placed cause i.mark.span.line i.mark.span.col)

/-- Whether a declaration of a kind adds to a symbol. -/
def Symbol.accepts (s : Symbol) (kind : SymbolKind) : Bool :=
  (s.kind = kind && kind.merges) || (s.kind = .parameter && kind = .hoisted)

/-- A symbol with one more declaration. -/
def Symbol.addDeclaration (s : Symbol) (decl : Node) : Symbol :=
  if s.declarations.any (·.id == decl.id) then s
  else { s with declarations := s.declarations ++ [decl] }

/-- Declares a name in a scope. -/
def declare (space : Space) (scope : ScopeId) (i : Ident) (kind : SymbolKind) (decl : Node) :
    BindM SymbolId := do
  let b ← get
  match ((b.scope scope).names space).lookup i.name with
  | some id =>
    let existing := b.symbol id
    if existing.accepts kind then
      modify (·.modifySymbol id (·.addDeclaration decl))
      refer i.mark.id id
      return id
    else
      let line := (existing.node.map (·.mark.span.line)).getD 0
      failAt i (.alreadyDeclared i.name line)
  | none =>
    let id ← newSymbol
      { name := i.name, kind, declaration := decl, declarations := [decl], node := some i, scope }
    modify (·.modifyScope scope (·.setName space i.name id))
    refer i.mark.id id
    return id

/-! ## Patterns -/

/-- The key of a pattern element: its own, or the name it binds. -/
def elementKey (key : Option Node) (target : Node) : BindM String :=
  match propertyKey? (key.getD target) with
  | .ok text => return text.getD ""
  | .error fault => throw (.numeral fault)

mutual
/-- Declares the names of a pattern, with the steps that lead to each. -/
def declareBinding (scope : ScopeId) (kind : SymbolKind) (decl : Node) (iterated : Option Node)
    (path : List Step) : Node → BindM Unit
  | .ident i => do
    let id ← declare .value scope i kind decl
    modify (·.modifySymbol id ({ · with path, iterated }))
  | .objectPattern _ elements => declareProperties scope kind decl iterated path elements
  | .arrayPattern _ elements => declareElements scope kind decl iterated path 0 elements
  | _ => return

/-- Declares the names of the elements of an object pattern. -/
def declareProperties (scope : ScopeId) (kind : SymbolKind) (decl : Node) (iterated : Option Node)
    (path : List Step) : List Node → BindM Unit
  | [] => return
  | .bindingElement _ key target _ isRest :: rest => do
    let step ← if isRest then pure Step.restProperties else Step.property <$> elementKey key target
    declareBinding scope kind decl iterated (path ++ [step]) target
    declareProperties scope kind decl iterated path rest
  | _ :: rest => declareProperties scope kind decl iterated path rest

/-- Declares the names of the elements of an array pattern, from an index on. -/
def declareElements (scope : ScopeId) (kind : SymbolKind) (decl : Node) (iterated : Option Node)
    (path : List Step) (index : Nat) : List Node → BindM Unit
  | [] => return
  | .bindingElement _ _ target _ isRest :: rest => do
    let step := if isRest then Step.restElements index else .element index
    declareBinding scope kind decl iterated (path ++ [step]) target
    declareElements scope kind decl iterated path (index + 1) rest
  | _ :: rest => declareElements scope kind decl iterated path (index + 1) rest
end

mutual
/-- The identifiers that a pattern binds, in source order. -/
def bindingIdentifiers : Node → List Ident
  | .ident i => [i]
  | .objectPattern _ elements => elementIdentifiers elements
  | .arrayPattern _ elements => elementIdentifiers elements
  | _ => []

/-- The identifiers that pattern elements bind. -/
def elementIdentifiers : List Node → List Ident
  | [] => []
  | .bindingElement _ _ target _ _ :: rest => bindingIdentifiers target ++ elementIdentifiers rest
  | _ :: rest => elementIdentifiers rest
end

/-- Declares the names of a list of variables. -/
def declareVariables (scope : ScopeId) (kind : SymbolKind) (iterated : Option Node) :
    List Node → BindM Unit
  | [] => return
  | decl :: rest => do
    match decl with
    | .variableDeclaration _ target _ _ => declareBinding scope kind decl iterated [] target
    | _ => pure ()
    declareVariables scope kind iterated rest

/-! ## Hoisting -/

/-- Declares the variables of a list if it hoists them. -/
def hoistVarList (scope : ScopeId) (iterated : Option Node) : Node → BindM Unit
  | .variableList _ keyword declarations =>
    if keyword == "var" then declareVariables scope .hoisted iterated declarations else return
  | _ => return

/-- Declares the variables of a list if they belong to the block they stand in. -/
def declareBlockList (scope : ScopeId) (iterated : Option Node) : Node → BindM Unit
  | .variableList _ keyword declarations =>
    if keyword == "var" then return
    else declareVariables scope (.ofKeyword keyword) iterated declarations
  | _ => return

mutual
/-- Declares every hoisted variable in a statement, without entering functions. -/
def hoistVarsIn (scope : ScopeId) : Node → BindM Unit
  | .variableStatement _ _ list => hoistVarList scope none list
  | .block _ statements => hoistVars scope statements
  | .ifStatement _ _ body otherwise => do
    hoistVarsIn scope body
    hoistVarsIn? scope otherwise
  | .forStatement _ start _ _ body => do
    hoistVarList scope none (start.getD default)
    hoistVarsIn scope body
  | .forOfStatement _ target items body _ | .forInStatement _ target items body => do
    hoistVarList scope (some items) target
    hoistVarsIn scope body
  | .whileStatement _ _ body => hoistVarsIn scope body
  | .doStatement _ body _ => hoistVarsIn scope body
  | .labeled _ _ statement => hoistVarsIn scope statement
  | .switchStatement _ _ clauses => hoistVars scope clauses
  | .caseClause _ _ statements => hoistVars scope statements
  | .defaultClause _ statements => hoistVars scope statements
  | .tryStatement _ body handler final => do
    hoistVarsIn scope body
    hoistVarsIn? scope handler
    hoistVarsIn? scope final
  | .catchClause _ _ body => hoistVarsIn scope body
  | _ => return

/-- Declares every hoisted variable in statements. -/
def hoistVars (scope : ScopeId) : List Node → BindM Unit
  | [] => return
  | s :: rest => do
    hoistVarsIn scope s
    hoistVars scope rest

/-- Declares every hoisted variable in a statement that may be missing. -/
def hoistVarsIn? (scope : ScopeId) : Option Node → BindM Unit
  | none => return
  | some s => hoistVarsIn scope s
end

/-- The names that an import brings in, each with its name in the module. -/
def importedNames : Node → List (Ident × String)
  | .importClause _ name allAs elements _ =>
    name.toList.map (·, "default") ++ allAs.toList.map (·, "*") ++
      (elements.getD []).filterMap fun
        | .importSpecifier _ imported name _ => some (name, (imported.getD name).name)
        | _ => none
  | _ => []

/-- Declares the names of an import. -/
def hoistImports (scope : ScopeId) (decl : Node) (specifier : String) :
    List (Ident × String) → BindM Unit
  | [] => return
  | (i, importName) :: rest => do
    let id ← declare .value scope i .imported decl
    modify (·.modifyScope scope (·.setName .type i.name id))
    modify (·.modifySymbol id ({ · with specifier, importName }))
    modify fun b => { b with imports := b.imports ++ [id] }
    hoistImports scope decl specifier rest

/-- Declares a name that is both a value and a type. -/
def declareBoth (scope : ScopeId) (i : Ident) (kind : SymbolKind) (decl : Node) : BindM Unit := do
  let id ← declare .value scope i kind decl
  modify (·.modifyScope scope (·.setName .type i.name id))

/-- Declares a namespace and opens the scope of its members, which later parts share. -/
def declareSpace (scope : ScopeId) (i : Ident) (decl : Node) : BindM Unit := do
  let id ← declare .value scope i .space decl
  let members ← match ((← get).symbol id).members with
    | some members => pure members
    | none => do
      let members ← newScope .space scope
      modify (·.modifySymbol id ({ · with members := some members }))
      pure members
  modify fun b => { b with spaces := b.spaces.insert decl.id members }

/-- Declares the names of a statement in the scope it stands in. -/
def hoistStatement (scope : ScopeId) (s : Node) : BindM Unit :=
  match s with
  | .variableStatement _ _ list => declareBlockList scope none list
  | .functionDeclaration _ _ (some i) _ _ _ _ _ _ => discard (declare .value scope i .function s)
  | .classDeclaration _ _ (some i) => declareBoth scope i .classType s
  | .enumDeclaration _ _ i _ => declareBoth scope i .enumType s
  | .interfaceDeclaration _ _ i _ _ _ => discard (declare .type scope i .interfaceType s)
  | .typeAlias _ _ i _ _ => discard (declare .type scope i .aliasType s)
  | .moduleDeclaration _ _ i _ => declareSpace scope i s
  | .importDeclaration _ (some clause) _ specifier =>
    hoistImports scope s specifier (importedNames clause)
  | _ => return

/-- Declares the names of one list of statements. -/
def hoist (scope : ScopeId) : List Node → BindM Unit
  | [] => return
  | s :: rest => do
    hoistStatement scope s
    hoist scope rest

end ScriptBridge.Binding
