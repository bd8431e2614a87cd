import ScriptBridge.Number.Double

/-!
# Types

`Ty` is what the type oracle knows about a value. Object types come in two forms: a `record` is
written out with its members, and a `declared` one belongs to an interface, a namespace or a module
and finds its members when they are asked for. Both are numbered, because a record may be given a
name after it was made and every holder of it then sees the name.

* `Primitive`, `Ty`: the types.
* `Kind`, `Ty.fits`: the kinds of values that constructs ask for, and which types are accepted.
* `Ty.isOpen`: the types that every check lets pass.
-/

namespace ScriptBridge.Typing

/-- The types without parts. -/
inductive Primitive where
  | any
  | unknown
  | never
  | void
  | undefined
  | null
  | number
  | string
  | boolean
  | object
deriving DecidableEq, Repr, Inhabited

namespace Primitive

/-- The word for a primitive type. -/
def word : Primitive → String
  | any => "any"
  | unknown => "unknown"
  | never => "never"
  | void => "void"
  | undefined => "undefined"
  | null => "null"
  | number => "number"
  | string => "string"
  | boolean => "boolean"
  | object => "object"

/-- All primitive types. -/
def all : List Primitive :=
  [any, unknown, never, void, undefined, null, number, string, boolean, object]

/-- The primitive type that a word stands for. -/
def ofWord? (word : String) : Option Primitive :=
  all.find? (·.word == word)

end Primitive

/-- The number of an object type. -/
abbrev ShapeId := Nat

/-- A type. -/
inductive Ty where
  | primitive (p : Primitive)
  | textLiteral (value : String)
  | numberLiteral (value : Double)
  | truthLiteral (value : Bool)
  | array (element : Ty)
  | tuple (elements : List Ty)
  /-- An object type with its properties and the type of all other string keys. -/
  | record (id : ShapeId) (properties : List (String × Ty)) (index : Option Ty)
  /-- An object type whose members are found when they are needed. -/
  | declared (id : ShapeId) (name : String)
  | function (params : List (String × Ty)) (result : Ty)
  /-- Two or more types, none of them a union. -/
  | union (members : List Ty)

instance : Inhabited Ty := ⟨.primitive .any⟩

/-- The kinds of values that constructs ask for. -/
inductive Kind where
  | boolean
  | number
  | string
  | array
  | object
deriving DecidableEq, Repr

namespace Kind

/-- The word for a kind. -/
def word : Kind → String
  | boolean => "boolean"
  | number => "number"
  | string => "string"
  | array => "array"
  | object => "object"

/-- All kinds. -/
def all : List Kind :=
  [boolean, number, string, array, object]

/-- Whether values of a primitive type are of a kind. A missing value is accepted everywhere. -/
def acceptsPrimitive (k : Kind) : Primitive → Bool
  | .any | .never | .null | .undefined => true
  | .boolean => k = boolean
  | .number => k = number
  | .string => k = string
  | .object => k = object
  | .unknown | .void => false

end Kind

namespace Ty

/-- The type of everything. -/
abbrev any : Ty := .primitive .any

/-- Whether a type is `any`. -/
def isAny : Ty → Bool
  | .primitive .any => true
  | _ => false

/-- Whether a type has no values. -/
def isNever : Ty → Bool
  | .primitive .never => true
  | _ => false

/-- Whether a type says nothing about its values. -/
def isOpen : Ty → Bool
  | .primitive .any | .primitive .unknown => true
  | _ => false

/-- Whether a type is that of a missing value. -/
def isNullish : Ty → Bool
  | .primitive .null | .primitive .undefined => true
  | _ => false

/-- Whether a type is one of the two truth values. -/
def isTruthLiteral : Ty → Bool
  | .truthLiteral _ => true
  | _ => false

mutual
/-- Whether a value of a type can be used where a kind is asked for. -/
def fits (k : Kind) : Ty → Bool
  | .primitive p => k.acceptsPrimitive p
  | .textLiteral _ => k = .string
  | .numberLiteral _ => k = .number
  | .truthLiteral _ => k = .boolean
  | .array _ | .tuple _ => k = .array || k = .object
  | .record .. | .declared .. | .function .. => k = .object
  | .union members => fitsAll k members

/-- Whether values of all types can be used where a kind is asked for. -/
def fitsAll (k : Kind) : List Ty → Bool
  | [] => true
  | t :: ts => fits k t && fitsAll k ts
end

mutual
/-- Whether all values of a type are truth values. -/
def isBoolean : Ty → Bool
  | .truthLiteral _ => true
  | .primitive .boolean => true
  | .union members => areBoolean members
  | _ => false

/-- Whether all values of all types are truth values. -/
def areBoolean : List Ty → Bool
  | [] => true
  | t :: ts => isBoolean t && areBoolean ts
end

/-- The members of a union without the types of missing values. -/
def present (members : List Ty) : List Ty :=
  members.filter (!·.isNullish)

end Ty

end ScriptBridge.Typing
