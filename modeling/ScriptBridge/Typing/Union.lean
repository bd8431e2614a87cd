import ScriptBridge.Typing.Text

/-!
# Unions

`unionOf` joins types into one: unions among them are flattened, types of equal text are kept once, `any`
and `unknown` absorb all others, and the two truth values make up `boolean`.

* `unionOf`: the join.
* `Ty.widen`: the type of a variable that starts with a value of a type.
* `Ty.removeNullish`: a type without missing values.
-/

namespace ScriptBridge.Typing

/-- The members of a union; any other type is its only member. -/
def Ty.members : Ty → List Ty
  | .union ts => ts
  | t => [t]

/-- Keeps the first type of each text, leaving out `never`; `none` if `any` is among the types. The
texts that were seen are given back too. -/
def distinct (names : RecordNames) :
    List String → List Ty → List Ty → Except TypeFault (Option (List Ty × List String))
  | seen, kept, [] => .ok (some (kept, seen))
  | seen, kept, t :: ts =>
    if t.isAny then .ok none
    else if t.isNever then distinct names seen kept ts
    else do
      let key ← t.text names
      if seen.contains key then distinct names seen kept ts
      else distinct names (key :: seen) (kept ++ [t]) ts

/-- Puts `boolean` in the place of the truth values if both are there. -/
def joinTruths (seen : List String) (members : List Ty) : List Ty :=
  if seen.contains "true" && seen.contains "false" then
    members.filter (!·.isTruthLiteral) ++ [.primitive .boolean]
  else members

/-- Whether a primitive type is among types. -/
def hasPrimitive (p : Primitive) (ts : List Ty) : Bool :=
  ts.any fun
    | .primitive q => q = p
    | _ => false

/-- Leaves out truth values next to `boolean`. -/
def absorbTruths (members : List Ty) : List Ty :=
  if hasPrimitive .boolean members then members.filter (!·.isTruthLiteral) else members

/-- The type with the given members. -/
def ofMembers : List Ty → Ty
  | [] => .primitive .never
  | [t] => t
  | ts => .union ts

/-- The type of the values of any of the types. -/
def unionOf (names : RecordNames) (types : List Ty) : Except TypeFault Ty := do
  match ← distinct names [] [] (types.flatMap Ty.members) with
  | none => return .any
  | some (members, seen) =>
    if hasPrimitive .unknown members then return .primitive .unknown
    return ofMembers (absorbTruths (joinTruths seen members))

/-- The type of a single value widened: a literal widens to its primitive type. -/
def Ty.widenMember : Ty → Ty
  | .textLiteral _ => .primitive .string
  | .numberLiteral _ => .primitive .number
  | .truthLiteral _ => .primitive .boolean
  | t => t

/-- The type of a variable that starts with a value of a type. -/
def Ty.widen (names : RecordNames) : Ty → Except TypeFault Ty
  | .union members => unionOf names (members.map Ty.widenMember)
  | t => .ok t.widenMember

/-- A type without missing values. -/
def Ty.removeNullish (names : RecordNames) : Ty → Except TypeFault Ty
  | .union members => unionOf names (Ty.present members)
  | t => .ok (if t.isNullish then .primitive .never else t)

end ScriptBridge.Typing
