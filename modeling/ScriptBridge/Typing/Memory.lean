import ScriptBridge.Binding.Program
import ScriptBridge.Typing.Union

/-!
# What the type oracle remembers

The oracle answers questions about a `Program` and remembers its answers in a `Memory`: the types of
expressions and symbols, the object types of interfaces, the members of declared object types, and the
names that records were given. A question may raise further ones; `Query` lists the forms.

* `Query`: the questions.
* `Memory`: the answers so far.
* `TypeM`: actions that read the program and add to the memory, which is kept when they fail.
-/

namespace ScriptBridge.Typing

open ScriptBridge.Binding ScriptBridge.TypeScript

/-- Types that stand for type parameters. -/
abbrev Env := List (String × Ty)

/-- A question to the oracle. -/
inductive Query where
  /-- The type of an expression. -/
  | expression (e : Node)
  /-- The type of a declared value. -/
  | symbol (id : SymbolId)
  /-- The type that an annotation stands for. -/
  | written (env : Env) (type : Node)
  /-- A declared object type, with its members made known. -/
  | members (id : ShapeId) (name : String)

/-- Where the members of a declared object type come from. -/
inductive MemberSource where
  | space (symbol : SymbolId)
  | file (file : FileId)
  | interfaces (symbol : SymbolId) (env : Env)

/-- The members of a declared object type. -/
inductive Members where
  | pending (source : MemberSource)
  | known (properties : List (String × Ty)) (index : Option Ty)

/-- The answers so far. -/
structure Memory where
  /-- The names of records. -/
  names : RecordNames := #[]
  /-- The members of declared object types. -/
  members : Array Members := #[]
  /-- The types of expressions, by the identities of their nodes. -/
  expressions : Std.HashMap Nat Ty := {}
  /-- The types of symbols. -/
  symbols : Std.HashMap SymbolId Ty := {}
  /-- The object types of interfaces, by symbol and the text of the arguments. -/
  interfaces : Std.HashMap (SymbolId × String) Ty := {}
  /-- The symbols whose types are being found. -/
  resolving : List SymbolId := []
deriving Inhabited

/-- An action of the oracle. -/
abbrev TypeM := ReaderT Program (EStateM TypeFault Memory)

/-- A way to have questions answered. -/
abbrev Asker := Query → TypeM Ty

/-- A result that may be a fault. -/
def orFault {α : Type} : Except TypeFault α → TypeM α
  | .ok a => return a
  | .error fault => throw fault

/-- A numeric value or key that may be missing for a malformed numeral. -/
def orNumeralFault {α : Type} : Except NumeralFault α → TypeM α
  | .ok a => return a
  | .error fault => throw (.numeral fault)

/-- The type of the values of any of the types. -/
def join (types : List Ty) : TypeM Ty := do
  orFault (unionOf (← get).names types)

/-- A type widened. -/
def widened (t : Ty) : TypeM Ty := do
  orFault (t.widen (← get).names)

/-- A type without missing values. -/
def withoutNullish (t : Ty) : TypeM Ty := do
  orFault (t.removeNullish (← get).names)

/-- A new record that has no name. -/
def newRecord (properties : List (String × Ty)) (index : Option Ty) : TypeM Ty := do
  let memory ← get
  set { memory with names := memory.names.push none }
  return .record memory.names.size properties index

/-- A new object type whose members are found later. -/
def newDeclared (name : String) (source : MemberSource) : TypeM Ty := do
  let memory ← get
  set { memory with members := memory.members.push (.pending source) }
  return .declared memory.members.size name

/-- Sets the members of a declared object type. -/
def setMembers (id : ShapeId) (properties : List (String × Ty)) (index : Option Ty) : TypeM Unit :=
  modify fun memory =>
    { memory with members := memory.members.modify id fun _ => .known properties index }

/-- Gives a name to a record that has none. -/
def nameRecord (name : String) : Ty → TypeM Unit
  | .record id _ _ =>
    modify fun memory => { memory with names := memory.names.modify id (·.or (some name)) }
  | _ => return

/-- Whether the type of a symbol is being found. -/
def isResolving (id : SymbolId) : TypeM Bool := do
  return (← get).resolving.contains id

/-- Runs an action while the type of a symbol counts as being found. -/
def whileResolving {α : Type} (id : SymbolId) (action : TypeM α) : TypeM α := do
  let release : TypeM Unit :=
    modify fun memory => { memory with resolving := memory.resolving.erase id }
  modify fun memory => { memory with resolving := id :: memory.resolving }
  let result ← tryCatch action fun fault => do
    release
    throw fault
  release
  return result

end ScriptBridge.Typing
