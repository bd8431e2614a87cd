import ScriptBridge.Data.Assoc
import ScriptBridge.Typing.Memory

/-!
# Parts of values

The types of what a value leads to: its properties, its elements, the result of calling it. Arrays,
strings and numbers take their properties from ambient interfaces.

* `membersOf?`: the members of an object type, found if need be.
* `interfaceType`: the object type of an interface with arguments.
* `propertyOf`, `elementOf`, `resultOf`: the types of a property, an element and a call.
* `followPath`: the type of a name in a pattern.
-/

namespace ScriptBridge.Typing

open ScriptBridge.Binding ScriptBridge.TypeScript

/-! ## Members of object types -/

/-- Properties together with further ones, which win. -/
def mergeProperties (base extra : List (String × Ty)) : List (String × Ty) :=
  extra.foldl (fun table (key, t) => Assoc.set key t table) base

/-- The members of an object type; `none` for all other types. -/
def membersOf? (ask : Asker) : Ty → TypeM (Option (List (String × Ty) × Option Ty))
  | .record _ properties index => return some (properties, index)
  | .declared id name => do
    discard (ask (.members id name))
    match (← get).members[id]? with
    | some (.known properties index) => return some (properties, index)
    | _ => return some ([], none)
  | _ => return none

/-! ## Interfaces -/

/-- Type parameters with the arguments for them; a missing argument may be anything. -/
def bindParams : List String → List Ty → Env → Env
  | [], _, env => env
  | name :: names, [], env => bindParams names [] (Assoc.set name .any env)
  | name :: names, t :: ts, env => bindParams names ts (Assoc.set name t env)

/-- The names of type parameters. -/
def paramNames : List Node → List String
  | [] => []
  | .typeParameter _ name _ _ :: rest => name.name :: paramNames rest
  | _ :: rest => paramNames rest

/-- The type parameters of an interface, as its first declaration has them. -/
def interfaceParams : List Node → List String
  | [] => []
  | .interfaceDeclaration _ _ _ params _ _ :: _ => paramNames params
  | _ :: rest => interfaceParams rest

/-- The object type of an interface with arguments; the same arguments give the same type. -/
def interfaceType (id : SymbolId) (args : List Ty) : TypeM Ty := do
  let memory ← get
  let key := ", ".intercalate (← orFault (Ty.texts memory.names args))
  match memory.interfaces[(id, key)]? with
  | some t => return t
  | none =>
    let symbol := (← read).bindings.symbol id
    let env := bindParams (interfaceParams symbol.declarations) args []
    let name := if args.isEmpty then symbol.name else symbol.name ++ "<" ++ key ++ ">"
    let t ← newDeclared name (.interfaces id env)
    modify fun memory => { memory with interfaces := memory.interfaces.insert (id, key) t }
    return t

/-! ## Properties -/

/-- The object type of an ambient interface. -/
def builtIn? (name : String) (args : List Ty) :
    TypeM (Option Ty) := do
  let b := (← read).bindings
  match (b.scope ambient.file.scope).types.lookup name with
  | some id =>
    if (b.symbol id).kind = .interfaceType then return some (← interfaceType id args) else return none
  | none => return none

/-- The object type that holds the properties of a value. -/
def propertyHolder? : Ty → TypeM (Option Ty)
  | .array element => builtIn? "Array" [element]
  | .tuple elements => do builtIn? "Array" [← join elements]
  | .textLiteral _ | .primitive .string => builtIn? "String" []
  | .numberLiteral _ | .primitive .number => builtIn? "Number" []
  | .record id properties index => return some (.record id properties index)
  | .declared id name => return some (.declared id name)
  | _ => return none

/-- The type of a property of a value that is not of a union type. -/
def propertyOfMember (ask : Asker) (name : String)
    (t : Ty) : TypeM Ty := do
  match ← propertyHolder? t with
  | none => return .any
  | some holder =>
    match ← membersOf? ask holder with
    | none => return .any
    | some (properties, index) => return ((properties.lookup name).or index).getD .any

/-- The type of a property. -/
def propertyOf (ask : Asker) (name : String) :
    Ty → TypeM Ty
  | .union members => do
    join (← (Ty.present members).mapM (propertyOfMember ask name))
  | t => propertyOfMember ask name t

/-! ## Elements and calls -/

/-- The type of an element of a value that is not of a union type. -/
def elementOfMember (index : Option Nat) : Ty → TypeM Ty
  | .array element => return element
  | .tuple elements =>
    match index.bind (elements[·]?) with
    | some t => return t
    | none => join elements
  | .primitive .string | .textLiteral _ => return .primitive .string
  | _ => return .any

/-- The type of the element at an index, if it is known, or of any element. -/
def elementOf (index : Option Nat) : Ty → TypeM Ty
  | .union members => do join (← (Ty.present members).mapM (elementOfMember index))
  | t => elementOfMember index t

/-- The results of the functions of a union; `none` if a value of it may be no function. -/
def results? : List Ty → Option (List Ty)
  | [] => some []
  | .function _ result :: rest => (results? rest).map (result :: ·)
  | t :: rest => if t.isNullish then results? rest else none

/-- The type of a call. -/
def resultOf : Ty → TypeM Ty
  | .function _ result => return result
  | .union members =>
    match results? members with
    | some results => join results
    | none => return .any
  | _ => return .any

/-- The type of what a step leads to. -/
def followStep (ask : Asker) (t : Ty) : Step → TypeM Ty
  | .property key => propertyOf ask key t
  | .element index => elementOf (some index) t
  | .restProperties | .restElements _ =>
    match t with
    | .array _ | .tuple _ => return t
    | _ => return .any

/-- The type of what a path leads to. -/
def followPath (ask : Asker) : Ty → List Step → TypeM Ty
  | t, [] => return t
  | t, step :: rest => do followPath ask (← followStep ask t step) rest

end ScriptBridge.Typing
