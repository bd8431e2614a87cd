import ScriptBridge.Binding.Declare
import ScriptBridge.Text.Split

/-!
# Binding a file

`bindFile` gives every name of a file its symbol: first hoisted variables and the names of the
top-level statements are declared, then every statement is visited in its scope, and last the exports
are collected.

* `visit`: resolves the names in a node, opening scopes as it goes.
* `collectExports`: the names that a file exports.
* `bindFile`: a file against the scope of the ambient names.
-/

namespace ScriptBridge.Binding

open ScriptBridge.TypeScript

/-- A member of a namespace, a type before a value. -/
def member? (b : Bindings) (id : SymbolId) (name : String) : Option SymbolId := do
  let members ← (b.symbol id).members
  let scope := b.scope members
  (scope.types.lookup name).or (scope.values.lookup name)

/-- What a type name refers to; a dotted one goes through namespaces. -/
def typeName? (b : Bindings) (name : String) (scope : ScopeId) : Option SymbolId :=
  match splitAt '.' name with
  | first :: second :: rest =>
    (second :: rest).foldl (fun s part => s.bind (member? b · part)) (b.lookupValue? first scope)
  | _ => b.lookupType? name scope

/-- Declares type parameters. -/
def declareTypeParams (scope : ScopeId) : List Node → BindM Unit
  | [] => return
  | p :: rest => do
    match p with
    | .typeParameter _ name _ _ => discard (declare .type scope name .typeParameter p)
    | _ => pure ()
    declareTypeParams scope rest

/-- Declares parameters; `this` is not one. -/
def declareParams (scope : ScopeId) : List Node → BindM Unit
  | [] => return
  | p :: rest => do
    match p with
    | .parameter _ (.ident i) _ _ _ _ =>
      if i.name != "this" then declareBinding scope .parameter p none [] (.ident i)
    | .parameter _ target _ _ _ _ => declareBinding scope .parameter p none [] target
    | _ => pure ()
    declareParams scope rest

/-- Runs the visits of a function's parts in its scope: type parameters are declared before their
bounds are visited, and parameters before their types and defaults. -/
def withFunction (scope : ScopeId) (selfName : Option Ident) (typeParams params : List Node)
    (bounds signature body : ScopeId → BindM Unit) : BindM Unit := do
  let inner ← newScope .function scope
  match selfName with
  | some i => discard (declare .value inner i .function (.ident i))
  | none => pure ()
  declareTypeParams inner typeParams
  bounds inner
  declareParams inner params
  signature inner
  body inner

/-- Declares the names of statements in a function or namespace scope. -/
def hoistAll (scope : ScopeId) (statements : List Node) : BindM Unit := do
  hoistVars scope statements
  hoist scope statements

/-- Declares the names of the clauses of a switch, which share one scope. -/
def hoistClauses (scope : ScopeId) : List Node → BindM Unit
  | [] => return
  | .caseClause _ _ statements :: rest | .defaultClause _ statements :: rest => do
    hoist scope statements
    hoistClauses scope rest
  | _ :: rest => hoistClauses scope rest

mutual
/-- Resolves the names in a node that stands in a scope. -/
def visit (scope : ScopeId) : Node → BindM Unit
  -- Declarations
  | .variableStatement _ _ list => visit scope list
  | .variableList _ _ declarations => visitAll scope declarations
  | .variableDeclaration _ target type value => do
    visit? scope type
    visitPattern scope target
    visit? scope value
  | .functionDeclaration _ _ _ params body result typeParams _ _ =>
    withFunction scope none typeParams params (visitBounds · typeParams)
      (fun inner => do
        visitParams inner params
        visit? inner result)
      (fun inner => visitBody? inner body)
  | .enumDeclaration _ _ _ members => visitAll scope members
  | .enumMember _ _ value => visit? scope value
  | .interfaceDeclaration _ _ _ typeParams heritage members => do
    let inner ← newScope .block scope
    declareTypeParams inner typeParams
    visitBounds inner typeParams
    visitAll inner heritage
    visitAll inner members
  | .typeAlias _ _ _ typeParams type => do
    let inner ← newScope .block scope
    declareTypeParams inner typeParams
    visitBounds inner typeParams
    visit inner type
  | .moduleDeclaration m _ _ statements => do
    let members ← match (← get).spaces[m.id]? with
      | some members => pure members
      | none => newScope .space scope
    hoistAll members statements
    visitAll members statements
  -- Statements
  | .exportAssignment _ e _ => visit scope e
  | .block _ statements => do
    let inner ← newScope .block scope
    hoist inner statements
    visitAll inner statements
  | .expressionStatement _ e => visit scope e
  | .returnStatement _ value => visit? scope value
  | .throwStatement _ value => visit scope value
  | .ifStatement _ test body otherwise => do
    visit scope test
    visit scope body
    visit? scope otherwise
  | .whileStatement _ test body => do
    visit scope test
    visit scope body
  | .doStatement _ body test => do
    visit scope body
    visit scope test
  | .forStatement _ start test advance body => do
    let inner ← newScope .block scope
    declareBlockList inner none (start.getD default)
    visit? inner start
    visit? inner test
    visit? inner advance
    visit inner body
  | .forOfStatement _ target items body _ | .forInStatement _ target items body => do
    visit scope items
    let inner ← newScope .block scope
    declareBlockList inner (some items) target
    visit inner target
    visit inner body
  | .switchStatement _ subject clauses => do
    visit scope subject
    let inner ← newScope .block scope
    hoistClauses inner clauses
    visitAll inner clauses
  | .caseClause _ test statements => do
    visit scope test
    visitAll scope statements
  | .defaultClause _ statements => visitAll scope statements
  | .tryStatement _ body handler final => do
    visit scope body
    visit? scope handler
    visit? scope final
  | .catchClause m binding body => do
    let inner ← newScope .block scope
    match binding with
    | some target => declareBinding inner .caught (.catchClause m binding body) none [] target
    | none => pure ()
    visit inner body
  | .labeled _ _ statement => visit scope statement
  -- Expressions
  | .ident i => do refer? i.mark.id ((← get).lookupValue? i.name scope)
  | .propertyAccess _ target _ _ => visit scope target
  | .elementAccess _ target key _ => do
    visit scope target
    visit scope key
  | .call _ callee args _ => do
    visit scope callee
    visitAll scope args
  | .construct _ callee args => do
    visit scope callee
    visitAll scope args
  | .binary _ left _ right => do
    visit scope left
    visit scope right
  | .conditional _ test whenTrue whenFalse => do
    visit scope test
    visit scope whenTrue
    visit scope whenFalse
  | .prefixUnary _ _ operand => visit scope operand
  | .postfixUnary _ operand _ => visit scope operand
  | .parenthesized _ e | .spread _ e | .nonNull _ e | .typeOf _ e | .voidOf _ e | .deleteOf _ e
  | .awaitOf _ e => visit scope e
  | .asType _ e type | .satisfiesType _ e type => do
    visit scope e
    match type with
    | .typeReference _ "const" _ => pure ()
    | _ => visit scope type
  | .arrow _ params (.block _ statements) result typeParams _ =>
    withFunction scope none typeParams params (visitBounds · typeParams)
      (fun inner => do
        visitParams inner params
        visit? inner result)
      (fun inner => do
        hoistAll inner statements
        visitAll inner statements)
  | .arrow _ params body result typeParams _ =>
    withFunction scope none typeParams params (visitBounds · typeParams)
      (fun inner => do
        visitParams inner params
        visit? inner result)
      (visit · body)
  | .function _ name params body result typeParams _ _ =>
    withFunction scope name typeParams params (visitBounds · typeParams)
      (fun inner => do
        visitParams inner params
        visit? inner result)
      (fun inner => visitBody inner body)
  | .array _ elements => visitAll scope elements
  | .object _ properties => visitAll scope properties
  | .property _ name value => do
    visitKey scope name
    visit scope value
  | .shorthand _ name fallback => do
    refer? name.mark.id ((← get).lookupValue? name.name scope)
    visit? scope fallback
  | .spreadProperty _ e => visit scope e
  | .method _ name params body result _ _ _ => do
    visitKey scope name
    withFunction scope none [] params (fun _ => return)
      (fun inner => do
        visitParams inner params
        visit? inner result)
      (fun inner => visitBody inner body)
  | .template _ _ spans => visitAll scope spans
  | .templateSpan _ e _ => visit scope e
  -- Types
  | .typeReference m name args => do
    refer? m.id (typeName? (← get) name scope)
    visitAll scope args
  | .arrayType _ element => visit scope element
  | .tupleType _ elements => visitAll scope elements
  | .unionType _ types | .intersectionType _ types => visitAll scope types
  | .typeOperator _ _ type => visit scope type
  | .indexedAccess _ object index => do
    visit scope object
    visit scope index
  | .functionType _ params result => do
    visitParamTypes scope params
    visit scope result
  | .typeLiteral _ members => visitAll scope members
  | .propertySignature _ _ _ type => visit? scope type
  | .methodSignature _ _ _ params result => do
    visitParamTypes scope params
    visit? scope result
  | .indexSignature _ key type => do
    visit scope key
    visit scope type
  | .typeQuery _ e => visit scope e
  | _ => return

/-- Resolves the names in nodes. -/
def visitAll (scope : ScopeId) : List Node → BindM Unit
  | [] => return
  | n :: ns => do
    visit scope n
    visitAll scope ns

/-- Resolves the names in a node that may be missing. -/
def visit? (scope : ScopeId) : Option Node → BindM Unit
  | none => return
  | some n => visit scope n

/-- Resolves the names in a function body, whose names belong to the function's scope. -/
def visitBody (scope : ScopeId) : Node → BindM Unit
  | .block _ statements => do
    hoistAll scope statements
    visitAll scope statements
  | _ => return

/-- Resolves the names in a function body that may be missing. -/
def visitBody? (scope : ScopeId) : Option Node → BindM Unit
  | none => return
  | some body => visitBody scope body

/-- Resolves the names in a property name, if it is computed. -/
def visitKey (scope : ScopeId) : Node → BindM Unit
  | .computedName _ e => visit scope e
  | _ => return

/-- Resolves the names in a property name, if there is one and it is computed. -/
def visitKey? (scope : ScopeId) : Option Node → BindM Unit
  | none => return
  | some key => visitKey scope key

/-- Resolves the names in the defaults and computed keys of a pattern. -/
def visitPattern (scope : ScopeId) : Node → BindM Unit
  | .objectPattern _ elements => visitPatterns scope elements
  | .arrayPattern _ elements => visitPatterns scope elements
  | .bindingElement _ key target fallback _ => do
    visitKey? scope key
    visit? scope fallback
    visitPattern scope target
  | _ => return

/-- Resolves the names in the defaults and computed keys of pattern elements. -/
def visitPatterns (scope : ScopeId) : List Node → BindM Unit
  | [] => return
  | n :: ns => do
    visitPattern scope n
    visitPatterns scope ns

/-- Resolves the names in parameters. -/
def visitParams (scope : ScopeId) : List Node → BindM Unit
  | [] => return
  | .parameter _ target type fallback _ _ :: rest => do
    visit? scope type
    visitPattern scope target
    visit? scope fallback
    visitParams scope rest
  | _ :: rest => visitParams scope rest

/-- Resolves the names in the types of parameters. -/
def visitParamTypes (scope : ScopeId) : List Node → BindM Unit
  | [] => return
  | .parameter _ _ type _ _ _ :: rest => do
    visit? scope type
    visitParamTypes scope rest
  | _ :: rest => visitParamTypes scope rest

/-- Resolves the names in the bounds and defaults of type parameters. -/
def visitBounds (scope : ScopeId) : List Node → BindM Unit
  | [] => return
  | .typeParameter _ _ bound fallback :: rest => do
    visit? scope bound
    visit? scope fallback
    visitBounds scope rest
  | _ :: rest => visitBounds scope rest
end

/-! ## Exports -/

/-- A symbol for a default export that has no name. -/
def anonymousDefault (scope : ScopeId) (s : Node) : BindM SymbolId :=
  newSymbol { name := "default", kind := .anonymous, declaration := s, declarations := [s],
              node := none, scope }

/-- The exports of an export list. -/
def exportedNames (scope : ScopeId) : List Node → BindM Names
  | [] => return []
  | .exportSpecifier _ localName name :: rest => do
    let inner := localName.getD name
    let s := (← get).scope scope
    match (s.values.lookup inner.name).or (s.types.lookup inner.name) with
    | none => failAt inner (.unknownExport inner.name)
    | some id =>
      refer inner.mark.id id
      return (name.name, id) :: (← exportedNames scope rest)
  | _ :: rest => exportedNames scope rest

/-- The export of a declared name that may be missing, or be the default. -/
def exportIdent (scope : ScopeId) (s : Node) (isDefault : Bool) : Option Ident → BindM Names
  | none => return [("default", ← anonymousDefault scope s)]
  | some i => do
    match (← get).symbolOf? i.mark.id with
    | some id => return [(if isDefault then "default" else i.name, id)]
    | none => return []

/-- The names that a list of variables exports. -/
def exportVariables (b : Bindings) : Node → Names
  | .variableList _ _ declarations =>
    let targets := declarations.flatMap fun
      | .variableDeclaration _ target _ _ => bindingIdentifiers target
      | _ => []
    targets.filterMap fun i => (b.symbolOf? i.mark.id).map (i.name, ·)
  | _ => []

/-- The export of a default expression: a name stands for what it refers to. -/
def exportExpression (scope : ScopeId) (s e : Node) : BindM Names := do
  let b ← get
  let named := match e with
    | .ident i => b.symbolOf? i.mark.id
    | _ => none
  match named with
  | some id => return [("default", id)]
  | none => return [("default", ← anonymousDefault scope s)]

/-- The names that a statement exports. -/
def statementExports (scope : ScopeId) (s : Node) : BindM Names := do
  match s with
  | .exportDeclaration _ (some elements) none _ => exportedNames scope elements
  | .exportAssignment _ e true => exportExpression scope s e
  | _ =>
    if !hasModifier s.modifiers "export" then return []
    let isDefault := hasModifier s.modifiers "default"
    match s with
    | .variableStatement _ _ list => return exportVariables (← get) list
    | .functionDeclaration _ _ name _ _ _ _ _ _ => exportIdent scope s isDefault name
    | .classDeclaration _ _ name => exportIdent scope s isDefault name
    | .enumDeclaration _ _ name _ | .interfaceDeclaration _ _ name _ _ _
    | .typeAlias _ _ name _ _ | .moduleDeclaration _ _ name _ =>
      exportIdent scope s isDefault (some name)
    | _ => return []

/-- The names that statements export; a later export of a name replaces an earlier one. -/
def collectExports (scope : ScopeId) : Names → List Node → BindM Names
  | table, [] => return table
  | table, s :: rest => do
    let exports ← statementExports scope s
    collectExports scope (exports.foldl (fun t (name, id) => Assoc.set name id t) table) rest

/-- The name of a file's scope; a file without a name takes that of the scope around it. -/
def scopeName (b : Bindings) (fileName : String) : Option ScopeId → String
  | some parent => if fileName.isEmpty then (b.scope parent).fileName else fileName
  | none => fileName

/-- Binds a file. Its scope stands inside `parent`, or is itself the scope of ambient names. -/
def bindFile (source : SourceFile) (parent : Option ScopeId) : BindM BoundFile := do
  let b ← get
  let scope := b.scopes.size
  let kind := if parent.isSome then ScopeKind.file else .global
  set { b with
    scopes := b.scopes.push { kind, parent, fileName := scopeName b source.fileName parent }
    imports := [] }
  hoistAll scope source.statements
  visitAll scope source.statements
  let exports ← collectExports scope [] source.statements
  return { source, scope, exports, imports := (← get).imports }

end ScriptBridge.Binding
