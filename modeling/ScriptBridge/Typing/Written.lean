import ScriptBridge.Typing.Access

/-!
# Types as written

What type expressions, signatures and declarations of interfaces stand for.

* `signature`: the type of a function from its parameters, annotation and body.
* `writtenType`: the type that a type expression stands for.
* `loadMembers`: the members of interfaces, namespaces and modules.
-/

namespace ScriptBridge.Typing

open ScriptBridge.Binding ScriptBridge.TypeScript

/-! ## Functions -/

mutual
/-- The values that a function body returns, in order, functions inside it apart. -/
def returnedValues : Node → List (Option Node)
  | .returnStatement _ value => [value]
  | .block _ statements => allReturnedValues statements
  | .ifStatement _ _ body otherwise => returnedValues body ++ optionalReturnedValues otherwise
  | .forStatement _ _ _ _ body | .forOfStatement _ _ _ body _ | .forInStatement _ _ _ body
  | .whileStatement _ _ body | .doStatement _ body _ | .labeled _ _ body
  | .catchClause _ _ body => returnedValues body
  | .switchStatement _ _ clauses => allReturnedValues clauses
  | .caseClause _ _ statements | .defaultClause _ statements => allReturnedValues statements
  | .tryStatement _ body handler final =>
    returnedValues body ++ optionalReturnedValues handler ++ optionalReturnedValues final
  | _ => []

/-- The values that statements return. -/
def allReturnedValues : List Node → List (Option Node)
  | [] => []
  | n :: ns => returnedValues n ++ allReturnedValues ns

/-- The values that a part which may be missing returns. -/
def optionalReturnedValues : Option Node → List (Option Node)
  | none => []
  | some n => returnedValues n
end

/-- The type of a value that a function returns. -/
def returnedType (ask : Asker) : Option Node → TypeM Ty
  | none => return .primitive .void
  | some e => do widened (← ask (.expression e))

/-- The type that a function returns, found from its body. -/
def inferReturn (ask : Asker) (body : Node) : TypeM Ty := do
  match body with
  | .block .. =>
    match returnedValues body with
    | [] => return .primitive .void
    | values => do join (← values.mapM (returnedType ask))
  | e => do widened (← ask (.expression e))

/-- The type of a value from an annotation, else from a default widened. -/
def declaredType (ask : Asker) (env : Env) (type fallback : Option Node) : TypeM Ty := do
  match type, fallback with
  | some type, _ => ask (.written env type)
  | none, some value => do widened (← ask (.expression value))
  | none, none => return .any

/-- The name of a parameter; one with a pattern is named for its place. -/
def paramName (place : Nat) : Node → String
  | .ident i => i.name
  | _ => "__" ++ toString place

/-- The parameters of a signature; `this` is left out. -/
def signatureParams (ask : Asker) (env : Env) : Nat → List Node → TypeM (List (String × Ty))
  | _, [] => return []
  | place, .parameter _ target type fallback _ _ :: rest => do
    let name := paramName place target
    if name == "this" then signatureParams ask env place rest
    else
      let t ← declaredType ask env type fallback
      return (name, t) :: (← signatureParams ask env (place + 1) rest)
  | place, _ :: rest => signatureParams ask env place rest

/-- The type of a function. -/
def signature (ask : Asker) (env : Env) (params : List Node) (result body : Option Node) :
    TypeM Ty := do
  let params ← signatureParams ask env 0 params
  let result ← match result, body with
    | some type, _ => ask (.written env type)
    | none, some body => inferReturn ask body
    | none, none => pure .any
  return .function params result

/-! ## Members -/

/-- The properties and the index type of a list of members. A repeated method keeps its first
signature. -/
def writtenMembers (ask : Asker) (env : Env) :
    List (String × Ty) → Option Ty → List Node → TypeM (List (String × Ty) × Option Ty)
  | properties, index, [] => return (properties, index)
  | properties, index, .propertySignature _ name _ type :: rest => do
    let t ← declaredType ask env type none
    writtenMembers ask env (Assoc.set name t properties) index rest
  | properties, index, .methodSignature _ name _ params result :: rest => do
    if (properties.lookup name).isSome then writtenMembers ask env properties index rest
    else
      let t ← signature ask env params result none
      writtenMembers ask env (Assoc.set name t properties) index rest
  | properties, index, .indexSignature _ key type :: rest => do
    match ← ask (.written env key) with
    | .primitive .string =>
      let t ← ask (.written env type)
      writtenMembers ask env properties (some t) rest
    | _ => writtenMembers ask env properties index rest
  | properties, index, _ :: rest => writtenMembers ask env properties index rest

/-- Adds the members of the interfaces that an interface extends. -/
def inheritedMembers (ask : Asker) (env : Env) :
    List (String × Ty) → Option Ty → List Node → TypeM (List (String × Ty) × Option Ty)
  | properties, index, [] => return (properties, index)
  | properties, index, base :: rest => do
    match ← membersOf? ask (← ask (.written env base)) with
    | some (more, other) =>
      inheritedMembers ask env (mergeProperties properties more) (other.or index) rest
    | none => inheritedMembers ask env properties index rest

/-- Adds the members of the declarations of an interface. -/
def interfaceMembers (ask : Asker) (env : Env) :
    List (String × Ty) → Option Ty → List Node → TypeM (List (String × Ty) × Option Ty)
  | properties, index, [] => return (properties, index)
  | properties, index, .interfaceDeclaration _ _ _ _ heritage members :: rest => do
    let (properties, index) ← inheritedMembers ask env properties index heritage
    let (own, other) ← writtenMembers ask env [] none members
    interfaceMembers ask env (mergeProperties properties own) (other.or index) rest
  | properties, index, _ :: rest => interfaceMembers ask env properties index rest

/-- The types of symbols as properties. -/
def symbolProperties (ask : Asker) : Names → TypeM (List (String × Ty))
  | [] => return []
  | (name, id) :: rest => do
    let t ← ask (.symbol id)
    return (name, t) :: (← symbolProperties ask rest)

/-- The members that a declared object type has. -/
def findMembers (ask : Asker) (source : MemberSource) :
    TypeM (List (String × Ty) × Option Ty) := do
  let program ← read
  let b := program.bindings
  match source with
  | .space id =>
    let names := ((b.symbol id).members.map fun scope => (b.scope scope).values).getD []
    return (← symbolProperties ask names, none)
  | .file id =>
    let names := (program.file id).exports.filter fun (_, id) => !(b.symbol id).kind.isType
    return (← symbolProperties ask names, none)
  | .interfaces id env => interfaceMembers ask env [] none (b.symbol id).declarations

/-- Makes the members of a declared object type known. While they are being found it has none. -/
def loadMembers (ask : Asker) (id : ShapeId) : TypeM Unit := do
  match (← get).members[id]? with
  | some (.pending source) =>
    setMembers id [] none
    let (properties, index) ← findMembers ask source
    setMembers id properties index
  | _ => return

/-! ## Type expressions -/

/-- The type of the values that are of all types: one object type with all members. -/
def intersection (ask : Asker) (count : Nat) :
    List (String × Ty) → Option Ty → List Ty → TypeM Ty
  | properties, index, [] => newRecord properties index
  | properties, index, t :: rest => do
    match ← membersOf? ask t with
    | some (more, other) =>
      intersection ask count (mergeProperties properties more) (other.or index) rest
    | none => return if count = 1 then t else .any

/-- The type that the name of an interface or of a type alias stands for. A record without a name
takes the name of the alias. -/
def namedType (ask : Asker) (id : SymbolId) (args : List Ty) : TypeM Ty := do
  let symbol := (← read).bindings.symbol id
  match symbol.kind, symbol.declaration with
  | .interfaceType, _ => interfaceType id args
  | .aliasType, .typeAlias _ _ _ params type =>
    if ← isResolving id then return .any
    let t ← whileResolving id (ask (.written (bindParams (paramNames params) args []) type))
    nameRecord symbol.name t
    return t
  | _, _ => return .any

/-- The type that a reference to a type stands for. -/
def referenced (ask : Asker) (env : Env) (nodeId : Nat) (name : String) (args : List Node) :
    TypeM Ty := do
  match env.lookup name with
  | some t => return t
  | none =>
    let args ← args.mapM fun arg => ask (.written env arg)
    match args with
    | [element] => if name == "Array" || name == "ReadonlyArray" then return .array element
    | _ => pure ()
    match (← read).origin? nodeId with
    | some (.symbol id) => namedType ask id args
    | _ => return .any

/-- The type of a literal in a type expression. -/
def literalType : LiteralValue → Ty
  | .str value => .textLiteral value
  | .num value => .numberLiteral value
  | .bool value => .truthLiteral value

/-- The type that a type expression stands for. -/
def writtenType (ask : Asker) (env : Env) : Node → TypeM Ty
  | .keywordType _ name => return .primitive ((Primitive.ofWord? name).getD .any)
  | .literalType _ value => return literalType value
  | .arrayType _ element => do return .array (← ask (.written env element))
  | .tupleType _ elements => do
    return .tuple (← elements.mapM fun t => ask (.written env t))
  | .unionType _ types => do join (← types.mapM fun t => ask (.written env t))
  | .intersectionType _ types => do
    let types ← types.mapM fun t => ask (.written env t)
    intersection ask types.length [] none types
  | .functionType _ params result => signature ask env params (some result) none
  | .typeLiteral _ members => do
    let (properties, index) ← writtenMembers ask env [] none members
    newRecord properties index
  | .typeOperator _ operator type =>
    if operator == "keyof" then return .primitive .string else ask (.written env type)
  | .typeQuery _ e => ask (.expression e)
  | .typeReference m name args => referenced ask env m.id name args
  | _ => return .any

end ScriptBridge.Typing
