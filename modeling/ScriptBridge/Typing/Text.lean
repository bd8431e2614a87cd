import ScriptBridge.Number.Layout
import ScriptBridge.TypeScript.Numeral
import ScriptBridge.Typing.Type

/-!
# The text of a type

Types are written as a programmer would write them: `number[]`, `(x: string) => void`,
`{ a: number; }`. An object type that has a name is written by it. Two types are taken for the same
exactly when their texts agree.

* `Ty.text`: the text of a type, given the names of records.
-/

namespace ScriptBridge.Typing

/-- Why a type cannot be found or written. -/
inductive TypeFault where
  /-- A numeric literal has no value. -/
  | numeral (fault : TypeScript.NumeralFault)
  /-- The text of an infinite number is asked for. -/
  | infinite
  /-- The text of a number that is none is asked for. -/
  | notANumber
  /-- Too many questions depend on each other. -/
  | outOfFuel
deriving DecidableEq, Repr

/-- The names of records, by their numbers. -/
abbrev RecordNames := Array (Option String)

/-- Numbers in types: whole ones in full below `1e21`, others positionally from `1e-4` on. -/
def typeLayout : Layout :=
  { whole := .exactBelow (Nat.pow 10 21), least := -4, greatest := 15, exponentWidth := 2, pointZero := true }

/-- The text of a number in a type. -/
def numberText (x : Double) : Except TypeFault String :=
  if x.isNaN then .error .notANumber
  else if x.isInfinite then .error .infinite
  else .ok ((if x.negative && !x.isZero then "-" else "") ++ typeLayout.writeMagnitude x)

/-- A character of a string literal in a type. -/
def quotedChar : Char → String
  | '\\' => "\\\\"
  | '"' => "\\\""
  | '\n' => "\\n"
  | c => String.ofList [c]

/-- A string literal in a type. -/
def quotedText (s : String) : String :=
  "\"" ++ String.join (s.toList.map quotedChar) ++ "\""

/-- Members written between braces. -/
def bracedText (members : List String) : String :=
  if members.isEmpty then "\x7b\x7d" else "\x7b " ++ " ".intercalate members ++ " \x7d"

namespace Ty

/-- Whether the text of a type needs parentheses before `[]`. -/
def isCompound : Ty → Bool
  | .union _ | .function .. => true
  | _ => false

mutual
/-- The text of a type. -/
def text (names : RecordNames) : Ty → Except TypeFault String
  | .primitive p => .ok p.word
  | .textLiteral value => .ok (quotedText value)
  | .numberLiteral value => numberText value
  | .truthLiteral value => .ok (if value then "true" else "false")
  | .array element => do
    let inner ← text names element
    return if element.isCompound then "(" ++ inner ++ ")[]" else inner ++ "[]"
  | .tuple elements => do
    return "[" ++ ", ".intercalate (← texts names elements) ++ "]"
  | .declared _ name => .ok name
  | .record id properties index =>
    match names[id]? with
    | some (some name) => .ok name
    | _ => do
      let rest ← indexText names index
      return bracedText (rest ++ (← memberTexts names ";" properties))
  | .function params result => do
    let inner ← memberTexts names "" params
    return "(" ++ ", ".intercalate inner ++ ") => " ++ (← text names result)
  | .union members => do
    return " | ".intercalate (← texts names members)

/-- The texts of types. -/
def texts (names : RecordNames) : List Ty → Except TypeFault (List String)
  | [] => .ok []
  | t :: ts => do
    let first ← text names t
    return first :: (← texts names ts)

/-- The texts of named members, each with a closing mark. -/
def memberTexts (names : RecordNames) (mark : String) :
    List (String × Ty) → Except TypeFault (List String)
  | [] => .ok []
  | (name, t) :: rest => do
    let first ← text names t
    return (name ++ ": " ++ first ++ mark) :: (← memberTexts names mark rest)

/-- The text of what all other string keys lead to. -/
def indexText (names : RecordNames) : Option Ty → Except TypeFault (List String)
  | none => .ok []
  | some t => do return ["[x: string]: " ++ (← text names t) ++ ";"]
end

end Ty

end ScriptBridge.Typing
