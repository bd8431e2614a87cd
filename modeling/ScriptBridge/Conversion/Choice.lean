import ScriptBridge.Conversion.Capability
import ScriptBridge.Conversion.Jump
import ScriptBridge.Conversion.Pattern
import ScriptBridge.Conversion.TypeGate

/-!
# Choices

Conditionals, conditional expressions and switches. A chain of conditionals becomes one conditional
with further branches. A switch becomes a conditional that compares a generated name with the cases in
order; cases without statements share the body of the next case, and every body ends the switch.
-/

namespace ScriptBridge.Conversion

open TypeScript

/-- A condition. -/
def convertCondition (c : Converter) (e : Node) : ConvertM AiScript.Node := do
  checkCondition e
  c.expression e

/-! ## Conditionals -/

/-- Statements as one node. -/
def asOne : List AiScript.Node → AiScript.Node
  | [n] => n
  | ns => .block {} ns

/-- A branch of a conditional; a statement without effect is a missing value. -/
def convertBranch (c : Converter) (s : Node) : ConvertM AiScript.Node := do
  match ← c.statement s with
  | [] => return .null {}
  | ns => return asOne ns

mutual
/-- The further branches that a chain of conditionals has, and its last branch. -/
def elseBranches (c : Converter) : Node → ConvertM (List AiScript.Branch × Option AiScript.Node)
  | .ifStatement _ test body otherwise => do
    let test ← convertCondition c test
    let body ← convertBranch c body
    let (branches, last) ← elseBranches? c otherwise
    return (.mk {} test body :: branches, last)
  | s => do return ([], some (← convertBranch c s))

/-- The branches of the rest of a chain that may end here. -/
def elseBranches? (c : Converter) :
    Option Node → ConvertM (List AiScript.Branch × Option AiScript.Node)
  | none => return ([], none)
  | some s => elseBranches c s
end

/-- The further branches that a chain of conditional expressions has, and its last one. -/
def elseValues (c : Converter) : Node → ConvertM (List AiScript.Branch × AiScript.Node)
  | .conditional _ test whenTrue whenFalse => do
    let test ← convertCondition c test
    let value ← c.expression whenTrue
    let (branches, last) ← elseValues c whenFalse
    return (.mk {} test value :: branches, last)
  | e => do return ([], ← c.expression e)

/-! ## Switches -/

mutual
/-- The statements of the last statement of a case, if it is a block. -/
def openLast : Node → List Node
  | .block _ statements => openTail statements
  | s => [s]

/-- Statements with blocks at the very end opened; a block without statements is not the end. -/
def openTail : List Node → List Node
  | [] => []
  | s :: rest =>
    match openTail rest with
    | [] => openLast s
    | opened => s :: opened
end

/-- The body of a case up to the jump that ends it. -/
def caseStatements (c : Converter) (clause : Node) : List Node → ConvertM (List AiScript.Node)
  | [] => refuse .fallThrough clause
  | s :: rest => do
    match s with
    | .breakStatement _ none => return []
    | .breakStatement _ (some _) => refuse .label s
    | .returnStatement .. => c.statement s
    | _ =>
      if hasBreak s then refuse .breakInCase s
      let first ← c.statement s
      return first ++ (← caseStatements c clause rest)

/-- The body of a case. -/
def caseBody (c : Converter) (clause : Node) (statements : List Node) :
    ConvertM (List AiScript.Node) :=
  caseStatements c clause (openTail statements)

/-- Whether any of the conditions holds. -/
def anyOf : AiScript.Node → List AiScript.Node → AiScript.Node
  | first, [] => first
  | first, next :: rest => anyOf (.binary {} "||" first next) rest

/-- The cases of a switch so far. -/
structure Cases where
  branches : List (AiScript.Node × AiScript.Node) := []
  default : List AiScript.Node := []
  /-- The conditions of cases that share the body of the next one. -/
  pending : List AiScript.Node := []

/-- Adds a case that compares with a value. -/
def addCase (c : Converter) (subject : String) (cases : Cases) (clause test : Node)
    (statements : List Node) : ConvertM Cases := do
  let condition : AiScript.Node := .binary {} "==" (.ident {} subject) (← c.expression test)
  match cases.pending ++ [condition], statements with
  | pending, [] => return { cases with pending }
  | [], _ => return cases
  | first :: more, _ =>
    let body ← caseBody c clause statements
    return { cases with
      branches := cases.branches ++ [(anyOf first more, .block {} body)]
      pending := [] }

/-- Adds the case for all other values; only the last case may be empty. -/
def addDefault (c : Converter) (cases : Cases) (clause : Node) (statements : List Node)
    (isLast : Bool) : ConvertM Cases := do
  match statements with
  | [] =>
    if !isLast then refuse .fallThrough clause
    return { cases with default := [], pending := [] }
  | _ => return { cases with default := ← caseBody c clause statements, pending := [] }

/-- The cases of a switch. -/
def convertCases (c : Converter) (subject : String) : Cases → List Node → ConvertM Cases
  | cases, [] => return cases
  | cases, clause :: rest => do
    let cases ← match clause with
      | .caseClause _ test statements => addCase c subject cases clause test statements
      | .defaultClause _ statements => addDefault c cases clause statements rest.isEmpty
      | _ => pure cases
    convertCases c subject cases rest

/-- The conditional that a switch becomes. -/
def Cases.statements (cases : Cases) : List AiScript.Node :=
  match cases.branches with
  | [] => cases.default
  | (test, body) :: rest =>
    let branches := rest.map fun (test, body) => AiScript.Branch.mk {} test body
    let otherwise := if cases.default.isEmpty then none else some (.block {} cases.default)
    [.cond {} test body branches otherwise]

/-- A switch. -/
def convertSwitch (c : Converter) (subject : Node) (clauses : List Node) :
    ConvertM (List AiScript.Node) := do
  let value ← c.expression subject
  let temp ← freshName
  let cases ← convertCases c temp {} clauses
  return define temp value false :: cases.statements

end ScriptBridge.Conversion
