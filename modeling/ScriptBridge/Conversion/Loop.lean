import ScriptBridge.Conversion.Choice
import ScriptBridge.Conversion.Variable

/-!
# Loops

Every loop with a condition becomes an endless one that is left when the condition fails. What a `for`
statement does after each round must also happen after a `continue`; then it moves to the start of the
round and a flag skips it in the first one. A loop that tests after its body is treated alike.

* `convertFor`, `convertWhile`, `convertDo`, `convertForOf`: the loops.
* `control`: the capability for choices and loops.
-/

namespace ScriptBridge.Conversion

open TypeScript

/-- Leaves the loop when a condition fails; a condition that always holds needs no test. -/
def convertGuard (c : Converter) (test : Node) : ConvertM (List AiScript.Node) := do
  match ← convertCondition c test with
  | .bool _ true => return []
  | condition => return [.cond {} (.unary {} "!" condition) (.exit {}) [] none]

/-- A guard that may be missing. -/
def convertGuard? (c : Converter) : Option Node → ConvertM (List AiScript.Node)
  | none => return []
  | some test => convertGuard c test

/-- The statements of a loop body. -/
def loopBody (c : Converter) : Node → ConvertM (List AiScript.Node)
  | .block _ statements => c.statements statements
  | s => c.statement s

/-- Clears a flag in the first round and runs statements in all later ones. -/
def afterFirst (flag : String) (later : List AiScript.Node) : AiScript.Node :=
  .cond {} (.ident {} flag) (.block {} [.assign {} (.ident {} flag) (.bool {} false)]) []
    (some (.block {} later))

/-- The start of a `for` statement. -/
def loopStart (c : Converter) : Option Node → ConvertM (List AiScript.Node)
  | none => return []
  | some (.variableList m keyword declarations) =>
    convertVariableList c (.variableList m keyword declarations)
  | some e => c.effects e

/-- What a `for` statement does after each round. -/
def loopAdvance (c : Converter) : Option Node → ConvertM (List AiScript.Node)
  | none => return []
  | some e => c.effects e

/-- A `for` statement. -/
def convertFor (c : Converter) (start test advance : Option Node) (body : Node) :
    ConvertM (List AiScript.Node) := do
  let prologue ← loopStart c start
  let check ← convertGuard? c test
  let round ← loopBody c body
  let later ← loopAdvance c advance
  if !later.isEmpty && hasContinue body then
    let flag ← freshName
    return [.block {} (prologue ++ [define flag (.bool {} true) true,
      .loop {} (afterFirst flag later :: check ++ round)])]
  let loop : AiScript.Node := .loop {} (check ++ round ++ later)
  return if prologue.isEmpty then [loop] else [.block {} (prologue ++ [loop])]

/-- A loop that tests before its body. -/
def convertWhile (c : Converter) (test body : Node) : ConvertM (List AiScript.Node) := do
  let check ← convertGuard c test
  return [.loop {} (check ++ (← loopBody c body))]

/-- A loop that tests after its body. -/
def convertDo (c : Converter) (body test : Node) : ConvertM (List AiScript.Node) := do
  let round ← loopBody c body
  let check ← convertGuard c test
  if !check.isEmpty && hasContinue body then
    let flag ← freshName
    return [.block {} [define flag (.bool {} true) true, .loop {} (afterFirst flag check :: round)]]
  return [.loop {} (round ++ check)]

/-- The variable of a loop over values, with the definitions that a pattern expands to. -/
def loopVariable (target : Node) : ConvertM (String × List AiScript.Node) := do
  match target with
  | .variableList _ keyword [.variableDeclaration _ name _ _] =>
    match name with
    | .ident i =>
      checkName i
      return (i.name, [])
    | pattern => bindingParameter (keyword != "const") pattern
  | _ => refuse .loopVariable target

/-- Whether the target of a loop over values declares one variable. -/
def isSingleVariable : Node → Bool
  | .variableList _ _ [_] => true
  | _ => false

/-- A loop over values. -/
def convertForOf (c : Converter) (target items body : Node) : ConvertM (List AiScript.Node) := do
  if !isSingleVariable target then refuse .loopVariable target
  checkIterable items
  let items ← c.expression items
  let (name, made) ← loopVariable target
  let round ← loopBody c body
  return [.each {} ⟨name, {}⟩ items (asOne (made ++ round))]

/-- Choices and loops. -/
def control : Capability where
  name := "control"
  expression := fun c n => do
    match n with
    | .conditional _ test whenTrue whenFalse =>
      let test ← convertCondition c test
      let value ← c.expression whenTrue
      let (branches, last) ← elseValues c whenFalse
      return some (.cond {} test value branches (some last))
    | _ => return none
  statement := fun c n => do
    match n with
    | .ifStatement _ test body otherwise =>
      let test ← convertCondition c test
      let body ← convertBranch c body
      let (branches, last) ← elseBranches? c otherwise
      return some [.cond {} test body branches last]
    | .forStatement _ start test advance body =>
      return some (← convertFor c start test advance body)
    | .whileStatement _ test body => return some (← convertWhile c test body)
    | .doStatement _ body test => return some (← convertDo c body test)
    | .forOfStatement _ target items body isAwait =>
      if isAwait then refuse .awaitLoop n
      return some (← convertForOf c target items body)
    | .forInStatement .. => refuse .keyLoop n
    | .switchStatement _ subject clauses => return some (← convertSwitch c subject clauses)
    | _ => return none

end ScriptBridge.Conversion
