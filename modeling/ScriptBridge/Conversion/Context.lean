import ScriptBridge.AiScript.Node
import ScriptBridge.Conversion.Fault
import ScriptBridge.TypeScript.PropertyKey
import ScriptBridge.Typing.Oracle

/-!
# Converting within a module

`ConvertM` is the monad of conversion: it knows the module being converted, and keeps what the type
oracle remembers, the number of generated names, and the export table.

* `refuse`: stops at a node.
* `freshName`: a name that no source text contains.
* `checkName`: refuses words that the output reserves.
* `asking`: has the type oracle answer.
-/

namespace ScriptBridge.Conversion

open TypeScript Binding

/-- What is fixed while a module is converted. -/
structure Context where
  program : Program
  fileName : String
  /-- The name that holds the exports of an imported module. -/
  moduleName : String → Span → Except ModuleFault String

/-- What changes while a module is converted. -/
structure Progress where
  memory : Typing.Memory
  /-- How many names were generated. -/
  generated : Nat
  /-- The exported names, each with the local name it exposes. -/
  exports : List (String × String) := []
deriving Inhabited

/-- A step of a conversion; its progress is kept when it fails. -/
abbrev ConvertM := ReaderT Context (EStateM ConvertFault Progress)

/-! ## Faults -/

/-- Stops at a node. -/
def refuse {α : Type} (cause : Cause) (n : Node) : ConvertM α := do
  throw (.refused { cause, node := n.kind, span := n.span, file := (← read).fileName })

/-- A value that may be missing for a malformed numeral. -/
def orNumeralFault {α : Type} : Except NumeralFault α → ConvertM α
  | .ok a => return a
  | .error fault => throw (.numeral fault)

/-- Has the type oracle answer. -/
def asking {α : Type} (question : Typing.TypeM α) : ConvertM α := do
  let context ← read
  let s ← get
  match question context.program s.memory with
  | .ok a memory =>
    set { s with memory }
    return a
  | .error fault memory =>
    set { s with memory }
    throw (.typing fault)

/-! ## Names -/

/-- The words that the output language reserves, those held for later included. -/
def reservedWords : List String :=
  ["null", "true", "false", "each", "for", "loop", "do", "while", "break", "continue", "match",
    "case", "default", "if", "elif", "else", "return", "eval", "var", "let", "exists", "as", "async",
    "attr", "attribute", "await", "catch", "class", "component", "constructor", "dictionary", "enum",
    "export", "finally", "fn", "hash", "in", "interface", "out", "private", "public", "ref", "static",
    "struct", "table", "this", "throw", "trait", "try", "undefined", "use", "using", "when", "yield",
    "import", "is", "meta", "module", "namespace", "new"]

/-- Refuses a name that the output language reserves. -/
def checkName (i : Ident) : ConvertM Unit := do
  if reservedWords.contains i.name then refuse (.reservedName i.name) (.ident i)

/-- A digit of base 36. -/
def digit36 (n : Nat) : Char :=
  if n < 10 then Char.ofNat ('0'.toNat + n) else Char.ofNat ('a'.toNat + (n - 10))

/-- The digits of a number in base 36, the last one first; `fuel` bounds their number. -/
def digits36 : (fuel n : Nat) → List Char
  | 0, _ => []
  | fuel + 1, n => if n < 36 then [digit36 n] else digit36 (n % 36) :: digits36 fuel (n / 36)

/-- The generated name of a number, in base 36 with at least five digits. -/
def generatedName (n : Nat) : String :=
  let digits := (digits36 (n + 1) n).reverse
  "__gen_" ++ String.ofList (List.replicate (5 - digits.length) '0' ++ digits)

/-- A new generated name. -/
def freshName : ConvertM String := do
  let s ← get
  set { s with generated := s.generated + 1 }
  return generatedName (s.generated + 1)

/-- The name that holds the exports of an imported module. -/
def moduleName (specifier : String) (span : Span) : ConvertM String := do
  match (← read).moduleName specifier span with
  | .ok name => return name
  | .error fault => throw (.module fault)

/-- Adds to the export table. -/
def addExport (name localName : String) : ConvertM Unit :=
  modify fun s => { s with exports := Assoc.set name localName s.exports }

/-- Whether a name stands for a type only. -/
def isTypeName (i : Ident) : ConvertM Bool := do
  let program := (← read).program
  return match program.origin? i.mark.id with
    | some (.symbol id) => (program.bindings.symbol id).kind.isType
    | _ => false

/-! ## Places -/

/-- The place of a source node. -/
def locOf (n : Node) : AiScript.Loc :=
  let s := n.span
  { line := s.line, col := s.col, endLine := s.endLine, endCol := s.endCol }

/-- Gives an output node the place of a source node, unless it has one. -/
def stamp (n : Node) (result : AiScript.Node) : AiScript.Node :=
  if result.loc.line = 0 then result.setLoc (locOf n) else result

end ScriptBridge.Conversion
