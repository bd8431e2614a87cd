import ScriptBridge.TypeScript.Node.Fold

/-!
# Jumps

Which loop or switch a `break` or `continue` without a label leaves: the nearest one around it, within
the function it stands in.

* `hasContinue`: whether a loop body continues that loop.
* `hasBreak`: whether a part of a switch leaves that switch.
-/

namespace ScriptBridge.Conversion

open TypeScript

/-- Whether a node is a loop. -/
def isLoop : Node → Bool
  | .forStatement .. | .forOfStatement .. | .forInStatement .. | .whileStatement ..
  | .doStatement .. => true
  | _ => false

/-- Whether a node is a switch. -/
def isSwitch : Node → Bool
  | .switchStatement .. => true
  | _ => false

/-- Whether a node is a function. -/
def isFunction : Node → Bool
  | .functionDeclaration .. | .function .. | .arrow .. | .method .. => true
  | _ => false

/-- Whether a node is a `continue` without a label. -/
def isContinue : Node → Bool
  | .continueStatement _ none => true
  | _ => false

/-- Whether a node is a `break` without a label. -/
def isBreak : Node → Bool
  | .breakStatement _ none => true
  | _ => false

/-- Whether a jump stands in a node outside functions and outside constructs that catch it. -/
def hasJump (isJump isCatching : Node → Bool) (n : Node) : Bool :=
  n.fold fun n inside => isJump n || (!isFunction n && !isCatching n && inside.any id)

/-- Whether the body of a loop continues that loop. -/
def hasContinue (body : Node) : Bool :=
  hasJump isContinue isLoop body

/-- Whether a statement in a switch leaves that switch. -/
def hasBreak (statement : Node) : Bool :=
  hasJump isBreak (fun n => isLoop n || isSwitch n) statement

end ScriptBridge.Conversion
