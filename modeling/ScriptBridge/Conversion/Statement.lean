import ScriptBridge.Conversion.Capability

/-!
# Plain statements

Expressions, blocks, `return`, `break` and `continue`, and what is erased: types and ambient
declarations have no counterpart, and a value with a claimed type is that value.

* `statements`: plain statements.
* `types`: erasure.
-/

namespace ScriptBridge.Conversion

open TypeScript

/-- Plain statements. -/
def statements : Capability where
  name := "statements"
  statement := fun c n => do
    match n with
    | .expressionStatement _ e => return some (← c.effects e)
    | .block _ inner => return some [.block {} (← c.statements inner)]
    | .empty _ => return some []
    | .returnStatement _ none => return some [.ret {} (.null {})]
    | .returnStatement _ (some e) => return some [.ret {} (← c.expression e)]
    | .labeled .. | .breakStatement _ (some _) | .continueStatement _ (some _) => refuse .label n
    | .breakStatement _ none => return some [.exit {}]
    | .continueStatement _ none => return some [.next {}]
    | _ => return none

/-- Erasure of types. -/
def types : Capability where
  name := "types"
  expression := fun c n => do
    match n with
    | .asType _ e _ | .satisfiesType _ e _ | .nonNull _ e => return some (← c.expression e)
    | _ => return none
  statement := fun _ n => do
    match n with
    | .typeAlias .. | .interfaceDeclaration .. => return some []
    | _ =>
      if hasModifier n.modifiers "declare" then return some []
      match n with
      | .moduleDeclaration .. => refuse .space n
      | _ => return none

end ScriptBridge.Conversion
