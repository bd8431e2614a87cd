import ScriptBridge.Conversion.Pattern

/-!
# Operators and assignments

Operators map to their counterparts. Assignments are statements of the output, so they are converted
only where their value is not used; a change by one may be used as a value, and becomes a block. A
target that is read and written is made safe to evaluate twice.

* `convertAssignment`: an assignment in the place of a statement.
* `stableTarget`: a target that may be evaluated twice.
* `operators`: the capability.
-/

namespace ScriptBridge.Conversion

open TypeScript

/-- The counterparts of operators. -/
def operatorTable : List (String × String) :=
  [("==", "=="), ("===", "=="), ("!=", "!="), ("!==", "!="), ("<", "<"), ("<=", "<="), (">", ">"),
    (">=", ">="), ("&&", "&&"), ("||", "||"), ("+", "+"), ("-", "-"), ("*", "*"), ("/", "/"),
    ("%", "%"), ("**", "^")]

/-- The operators of assignments that are written out as `target = target op value`. -/
def expandedAssignments : List (String × String) :=
  [("*=", "*"), ("/=", "/"), ("%=", "%"), ("**=", "^"), ("&&=", "&&"), ("||=", "||")]

/-- The operators that assign. -/
def assignmentOperators : List String :=
  ["=", "+=", "-=", "*=", "/=", "%=", "**=", "&&=", "||=", "??=", "&=", "|=", "^=", "<<=", ">>=",
    ">>>="]

/-! ## Targets -/

/-- The target of an assignment. -/
def assignTarget (c : Converter) (n : Node) : ConvertM AiScript.Node := do
  match n.unwrap with
  | .ident i =>
    checkName i
    return .ident {} i.name
  | .propertyAccess m target name isOptional => c.expression (.propertyAccess m target name isOptional)
  | .elementAccess m target key isOptional => c.expression (.elementAccess m target key isOptional)
  | inner => refuse .assignmentTarget inner

/-- Whether evaluating an expression twice is the same as evaluating it once. -/
def isStable : AiScript.Node → Bool
  | .ident .. | .num .. | .str .. => true
  | .prop _ target _ => isStable target
  | _ => false

/-- An expression that may be evaluated twice, with the definition that makes it so if there is need of
one. -/
def stabilize (value : AiScript.Node) : ConvertM (AiScript.Node × List AiScript.Node) := do
  if isStable value then return (value, []) else bindSource value

/-- A target that may be evaluated twice, with the definitions of its parts. -/
def stableTarget (c : Converter) (n : Node) : ConvertM (AiScript.Node × List AiScript.Node) := do
  match ← assignTarget c n with
  | .index loc target key =>
    let (target, first) ← stabilize target
    let (key, second) ← stabilize key
    return (.index loc target key, first ++ second)
  | target => return (target, [])

/-! ## Assignments -/

/-- Whether an assignment to a node takes a value apart. -/
def isAssignedPattern : Node → Bool
  | .array .. | .object .. => true
  | _ => false

/-- An assignment. -/
def convertAssignment (c : Converter) (n left : Node) (operator : String) (right : Node) :
    ConvertM (List AiScript.Node) := do
  let left := left.unwrap
  if operator == "=" && isAssignedPattern left then
    let (source, made) ← bindSource (← c.expression right)
    return made ++ (← expandAssignment c source left)
  match expandedAssignments.lookup operator with
  | some op =>
    let (target, made) ← stableTarget c left
    let value ← c.expression right
    return made ++ [.assign {} target (.binary {} op target value)]
  | none =>
    let target ← assignTarget c left
    let value ← c.expression right
    if operator == "=" then return [.assign {} target value]
    else if operator == "+=" || operator == "-=" then return [.update {} operator target value]
    else refuse (.operator operator) n

/-- The operator of a change by one. -/
def stepOperator (operator : String) : String :=
  if operator == "++" then "+=" else "-="

/-- A change by one. -/
def stepBy (operator : String) (target : AiScript.Node) : AiScript.Node :=
  .update {} (stepOperator operator) target (.num {} (.ofNat 1))

/-- A change by one whose value is used: the value after it, or before it. -/
def stepValue (c : Converter) (operator : String) (operand : Node) (isAfter : Bool) :
    ConvertM AiScript.Node := do
  let (target, made) ← stableTarget c operand
  let temp ← freshName
  let change := stepBy operator target
  let capture := define temp target false
  let steps := if isAfter then [change, capture] else [capture, change]
  return .block {} (made ++ steps ++ [.ident {} temp])

/-! ## Operations -/

/-- An operation before its operand; signs and negations of literals are carried out. -/
def convertPrefix (c : Converter) (n : Node) (operator : String) (operand : Node) :
    ConvertM AiScript.Node := do
  match operator with
  | "++" | "--" => stepValue c operator operand true
  | "!" =>
    match ← c.expression operand with
    | .bool _ value => return .bool {} (!value)
    | value => return .unary {} "!" value
  | "-" =>
    match ← c.expression operand with
    | .num _ value => return .num {} value.neg
    | value => return .unary {} "-" value
  | "+" =>
    match ← c.expression operand with
    | .num _ value => return .num {} value
    | value => return .unary {} "+" value
  | _ => refuse (.operator operator) n

/-- An operation on two operands. -/
def convertBinary (c : Converter) (n left : Node) (operator : String) (right : Node) :
    ConvertM AiScript.Node := do
  if assignmentOperators.contains operator then refuse .assignmentAsExpression n
  match operatorTable.lookup operator with
  | none => refuse (.operator operator) n
  | some op =>
    let first ← c.expression left
    return .binary {} op first (← c.expression right)

/-- Operations and assignments. -/
def operators : Capability where
  name := "operators"
  expression := fun c n => do
    match n with
    | .binary _ left operator right => return some (← convertBinary c n left operator right)
    | .prefixUnary _ operator operand => return some (← convertPrefix c n operator operand)
    | .postfixUnary _ operand operator => return some (← stepValue c operator operand false)
    | .typeOf .. => refuse (.keyword "typeof") n
    | .voidOf .. => refuse (.keyword "void") n
    | .deleteOf .. => refuse (.keyword "delete") n
    | .awaitOf .. => refuse (.keyword "await") n
    | _ => return none
  effects := fun c n => do
    let inner := n.unwrap
    match inner with
    | .binary _ left operator right =>
      if assignmentOperators.contains operator then
        return some (← convertAssignment c inner left operator right)
      else return none
    | .prefixUnary _ operator operand =>
      if operator == "++" || operator == "--" then
        return some [stepBy operator (← assignTarget c operand)]
      else return none
    | .postfixUnary _ operand operator => return some [stepBy operator (← assignTarget c operand)]
    | _ => return none

end ScriptBridge.Conversion
