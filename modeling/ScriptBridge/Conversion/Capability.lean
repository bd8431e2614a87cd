import ScriptBridge.Conversion.Context
import ScriptBridge.TypeScript.Node.Fold

/-!
# Capabilities

A `Capability` converts some forms and declines all others. A conversion tries capabilities in order:
the first that does not decline a node decides. Capabilities convert the parts of a node through the
`Converter` they are given, so every part is again tried with all of them.

* `converter caps n`: conversion by the capabilities, with nodes nested at most `n` deep.
* `Converter.statements`: a list of statements.
-/

namespace ScriptBridge.Conversion

open TypeScript

/-- Conversion of nodes: as an expression, as an expression whose value is not used, and as a
statement. -/
structure Converter where
  expression : Node → ConvertM AiScript.Node
  effects : Node → ConvertM (List AiScript.Node)
  statement : Node → ConvertM (List AiScript.Node)

/-- Conversion of statements one after the other. -/
def Converter.statements (c : Converter) : List Node → ConvertM (List AiScript.Node)
  | [] => return []
  | s :: rest => do
    let first ← c.statement s
    return first ++ (← c.statements rest)

/-- A family of forms that can be converted; `none` declines a node. -/
structure Capability where
  name : String
  expression : Converter → Node → ConvertM (Option AiScript.Node) := fun _ _ => return none
  effects : Converter → Node → ConvertM (Option (List AiScript.Node)) := fun _ _ => return none
  statement : Converter → Node → ConvertM (Option (List AiScript.Node)) := fun _ _ => return none

/-- The first result for an expression. -/
def firstExpression (c : Converter) (n : Node) : List Capability → ConvertM AiScript.Node
  | [] => refuse (.noConversion n.kind) n
  | cap :: rest => do
    match ← cap.expression c n with
    | some result => return stamp n result
    | none => firstExpression c n rest

/-- The first result for an expression whose value is not used. -/
def firstEffects (c : Converter) (n : Node) : List Capability → ConvertM (List AiScript.Node)
  | [] => refuse (.noConversion n.kind) n
  | cap :: rest => do
    match ← cap.effects c n with
    | some results => return results.map (stamp n)
    | none =>
      match ← cap.expression c n with
      | some result => return [stamp n result]
      | none => firstEffects c n rest

/-- The first result for a statement. -/
def firstStatement (c : Converter) (n : Node) : List Capability → ConvertM (List AiScript.Node)
  | [] => refuse (.noConversion n.kind) n
  | cap :: rest => do
    match ← cap.statement c n with
    | some results => return results.map (stamp n)
    | none => firstStatement c n rest

/-- Conversion by capabilities of nodes that are nested at most `n` deep. -/
def converter (caps : List Capability) : Nat → Converter
  | 0 =>
    { expression := fun _ => throw .outOfFuel
      effects := fun _ => throw .outOfFuel
      statement := fun _ => throw .outOfFuel }
  | n + 1 =>
    { expression := fun e => firstExpression (converter caps n) e caps
      effects := fun e => firstEffects (converter caps n) e caps
      statement := fun s => firstStatement (converter caps n) s caps }

/-- More levels than the conversion of a node goes through: it steps inward, and at most once for
each node to the same node without an export mark. -/
def levels (statements : List Node) : Nat :=
  2 * (statements.map Node.height).foldl max 0 + 2

end ScriptBridge.Conversion
