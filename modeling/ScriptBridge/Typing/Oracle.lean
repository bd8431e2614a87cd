import ScriptBridge.Typing.Inference

/-!
# The type oracle

`answer n` answers a question with at most `n` questions waiting for each other.

* `typeOf`: the type of an expression.
* `typeText`: the text of a type.
-/

namespace ScriptBridge.Typing

open ScriptBridge.TypeScript

/-- Answers a question, having those that it raises answered by `ask`. -/
def step (ask : Asker) : Query → TypeM Ty
  | .expression e => expressionType ask e
  | .symbol id => symbolType ask id
  | .written env type => writtenType ask env type
  | .members id name => do
    loadMembers ask id
    return .declared id name

/-- Answers a question with at most `n` questions waiting for each other. -/
def answer : Nat → Asker
  | 0, _ => throw .outOfFuel
  | n + 1, q => step (answer n) q

/-- How many questions may wait for each other. Only an interface that extends ever larger instances
of itself asks for more. -/
def patience : Nat := 12000

/-- The type of an expression. -/
def typeOf (e : Node) : TypeM Ty :=
  answer patience (.expression e)

/-- The text of a type. -/
def typeText (t : Ty) : TypeM String := do
  orFault (t.text (← get).names)

end ScriptBridge.Typing
