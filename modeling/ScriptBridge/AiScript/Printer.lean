import ScriptBridge.AiScript.Node
import ScriptBridge.AiScript.Token
import ScriptBridge.Number.Layout

/-!
# Printing AiScript

`print` renders nodes as AiScript text, two blanks per level of nesting. How a node is written depends
on its `Position`: a block is bare as a body and an `eval` elsewhere, and an object in statement
position stands in parentheses, since a brace there would open a block.

* `numberText`: positional notation down to `1e-6` and below `1e21`, every digit of a whole number.
* `quote` and `templateText`: the escapes of strings and templates.
* `text`: one node at a position and a level of nesting.
-/

namespace ScriptBridge.AiScript

/-- Why a tree has no text. -/
inductive PrintError where
  | nonFinite (value : Double)
  | unknownOperator (op : String)
  | unprintable (kind : String)
deriving DecidableEq, Repr

/-- The wording of a printing failure. -/
def PrintError.message : PrintError → String
  | nonFinite value =>
    "cannot render non-finite number " ++
      if value.isNaN then "nan" else if value.negative then "-inf" else "inf"
  | unknownOperator op => "unknown binary operator " ++ op
  | unprintable kind => "unhandled node type A" ++ kind

/-! ## Leaves -/

/-- Numbers in programs: whole ones below `1e21` in full, others from `1e-6` on positionally. -/
def numberLayout : Layout :=
  { whole := .exactBelow (Nat.pow 10 21), least := -6, greatest := 20, exponentWidth := 1,
    pointZero := false }

/-- A number; a negative one stands in parentheses. -/
def numberText (x : Double) : Except PrintError String :=
  if !x.isFinite then .error (.nonFinite x)
  else if x.isNegative then .ok ("(-" ++ numberLayout.writeMagnitude x ++ ")")
  else .ok (numberLayout.writeMagnitude x)

/-- A character inside double quotes. -/
def quoteChar : Char → List Char
  | '\\' => ['\\', '\\']
  | '"' => ['\\', '"']
  | '\n' => ['\\', 'n']
  | '\r' => ['\\', 'r']
  | '\t' => ['\\', 't']
  | c => [c]

/-- A string literal. -/
def quote (s : String) : String :=
  String.ofList ('"' :: s.toList.flatMap quoteChar ++ ['"'])

/-- A character of a template's text. -/
def templateChar (c : Char) : List Char :=
  if c == '\\' || c == '\x60' || c == '\x7b' then ['\\', c] else [c]

/-- The text of a template between its interpolations. -/
def templateText (s : String) : String :=
  String.ofList (s.toList.flatMap templateChar)

/-- Whether an object key can be written without quotes. -/
def isPlainKey (key : String) : Bool :=
  !keywords.contains key &&
  match key.toList with
  | [] => false
  | c :: cs => (c.isAlpha || c == '_') && cs.all fun c => c.isAlphanum || c == '_'

/-- An object key as it is written. -/
def keyText (key : String) : String :=
  if isPlainKey key then key else quote key

/-- The binary operators. -/
def binaryOperators : List String :=
  ["+", "-", "*", "/", "%", "^", "==", "!=", "<", "<=", ">", ">=", "&&", "||"]

/-! ## Layout -/

/-- The blanks in front of a line. -/
def indent (level : Nat) : String :=
  String.ofList (List.replicate (2 * level) ' ')

/-- Whether a text has more than one line. -/
def isMultiline (s : String) : Bool :=
  s.toList.contains '\n'

/-- Lines between brackets, one level further in. -/
def bracketLines (left right separator : String) (level : Nat) (lines : List String) : String :=
  left ++ "\n" ++ (separator ++ "\n").intercalate (lines.map (indent (level + 1) ++ ·)) ++ "\n" ++
    indent level ++ right

/-- Statements in braces, one per line. -/
def blockText (level : Nat) (statements : List String) : String :=
  if statements.isEmpty then "\x7b\x7d" else bracketLines "\x7b" "\x7d" "" level statements

/-- Items in brackets: on one line, unless one of them has several. -/
def listText (left right : String) (level : Nat) (items : List String) : String :=
  if items.any isMultiline then bracketLines left right "," level items
  else left ++ ", ".intercalate items ++ right

/-- A loop: one statement of one line stays beside its braces. -/
def loopText (level : Nat) (statements : List String) : String :=
  match statements with
  | [s] => if isMultiline s then "loop " ++ blockText level [s] else "loop \x7b " ++ s ++ " \x7d"
  | _ => "loop " ++ blockText level statements

/-- Where a node stands. -/
inductive Position where
  /-- Inside an expression. -/
  | expression
  /-- In a list of statements. -/
  | statement
  /-- As the body of a branch, loop or arm. -/
  | body
deriving DecidableEq, Repr

/-! ## Nodes -/

mutual
/-- The text of a node at a position, `level` levels deep. -/
def text (position : Position) (level : Nat) : Node → Except PrintError String
  | .num _ value => numberText value
  | .str _ value => .ok (quote value)
  | .bool _ value => .ok (if value then "true" else "false")
  | .null _ => .ok "null"
  | .ident _ name => .ok name
  | .tmpl _ parts => do
    return "\x60" ++ String.join (← templateTexts level parts) ++ "\x60"
  | .arr _ items => do
    return listText "[" "]" level (← texts .expression (level + 1) items)
  | .obj _ entries => do
    let inside := listText "\x7b" "\x7d" level (← entryTexts (level + 1) entries)
    return if position = .expression then inside else "(" ++ inside ++ ")"
  | .prop _ target name => do
    return (← text .expression level target) ++ "." ++ name
  | .index _ target index => do
    let t ← text .expression level target
    return t ++ "[" ++ (← text .expression level index) ++ "]"
  | .call _ target args => do
    let as ← texts .expression level args
    return (← text .expression level target) ++ "(" ++ ", ".intercalate as ++ ")"
  | .unary _ op operand => do
    return "(" ++ op ++ (← text .expression level operand) ++ ")"
  | .binary _ op left right => do
    if !binaryOperators.contains op then throw (.unknownOperator op)
    let l ← text .expression level left
    let r ← text .expression level right
    return "(" ++ l ++ " " ++ op ++ " " ++ r ++ ")"
  | .fn _ params body => do
    let ps ← paramTexts level params
    return "@(" ++ ", ".intercalate ps ++ ") " ++
      blockText level (← texts .statement (level + 1) body)
  | .block _ statements => do
    let inside := blockText level (← texts .statement (level + 1) statements)
    return if position = .body then inside else "eval " ++ inside
  | .cond _ test body branches otherwise => do
    let t ← text .expression level test
    let b ← text .body level body
    let bs ← branchTexts level branches
    let e ← elseText level otherwise
    return "if " ++ t ++ " " ++ b ++ String.join bs ++ e
  | .select _ subject arms otherwise => do
    let as ← armTexts (level + 1) arms
    let e ← defaultTexts (level + 1) otherwise
    let head := "match (" ++ (← text .expression level subject) ++ ") "
    let lines := as ++ e
    return if lines.isEmpty then head ++ "\x7b\x7d"
      else head ++ bracketLines "\x7b" "\x7d" "," level lines
  | .loop _ statements => do
    return loopText level (← texts .statement (level + 1) statements)
  | .each _ item items body => do
    let is ← text .expression level items
    return "each let " ++ item.text ++ ", " ++ is ++ " " ++ (← text .body level body)
  | .define _ name (.fn _ params body) false => do
    let ps ← paramTexts level params
    return "@" ++ name.text ++ "(" ++ ", ".intercalate ps ++ ") " ++
      blockText level (← texts .statement (level + 1) body)
  | .define _ name value isMutable => do
    return (if isMutable then "var " else "let ") ++ name.text ++ " = " ++
      (← text .expression level value)
  | .assign _ target value => do
    let t ← text .expression level target
    return t ++ " = " ++ (← text .expression level value)
  | .update _ op target value => do
    let t ← text .expression level target
    return t ++ " " ++ op ++ " " ++ (← text .expression level value)
  | .ret _ value => do
    return "return " ++ (← text .expression level value)
  | .exit _ => .ok "break"
  | .next _ => .ok "continue"
  | .loneParam p => .error (.unprintable (Node.loneParam p).kind)
  | .loneBranch b => .error (.unprintable (Node.loneBranch b).kind)
  | .loneArm a => .error (.unprintable (Node.loneArm a).kind)
  | .bare loc role => .error (.unprintable (Node.bare loc role).kind)

/-- The texts of nodes at one position. -/
def texts (position : Position) (level : Nat) : List Node → Except PrintError (List String)
  | [] => .ok []
  | n :: ns => do
    let t ← text position level n
    return t :: (← texts position level ns)

/-- The parts of a template: texts are escaped, expressions braced. -/
def templateTexts (level : Nat) : List Node → Except PrintError (List String)
  | [] => .ok []
  | .str _ value :: ns => do
    return templateText value :: (← templateTexts level ns)
  | n :: ns => do
    let t ← text .expression level n
    return ("\x7b" ++ t ++ "\x7d") :: (← templateTexts level ns)

/-- The entries of an object. -/
def entryTexts (level : Nat) : List (String × Node) → Except PrintError (List String)
  | [] => .ok []
  | (key, value) :: rest => do
    let v ← text .expression level value
    return (keyText key ++ ": " ++ v) :: (← entryTexts level rest)

/-- The parameters of a function. -/
def paramTexts (level : Nat) : List Param → Except PrintError (List String)
  | [] => .ok []
  | .mk _ name isOptional fallback :: rest => do
    let d ← fallbackText level fallback
    return (name.text ++ (if isOptional then "?" else "") ++ d) :: (← paramTexts level rest)

/-- The default of a parameter. -/
def fallbackText (level : Nat) : Option Node → Except PrintError String
  | none => .ok ""
  | some n => do return " = " ++ (← text .expression level n)

/-- The further branches of a conditional. -/
def branchTexts (level : Nat) : List Branch → Except PrintError (List String)
  | [] => .ok []
  | .mk _ test body :: rest => do
    let t ← text .expression level test
    let b ← text .body level body
    return (" elif " ++ t ++ " " ++ b) :: (← branchTexts level rest)

/-- The last branch of a conditional. -/
def elseText (level : Nat) : Option Node → Except PrintError String
  | none => .ok ""
  | some n => do return " else " ++ (← text .body level n)

/-- The arms of a match. -/
def armTexts (level : Nat) : List Arm → Except PrintError (List String)
  | [] => .ok []
  | .mk _ pattern body :: rest => do
    let p ← text .expression level pattern
    let b ← text .body level body
    return ("case " ++ p ++ " => " ++ b) :: (← armTexts level rest)

/-- The last arm of a match. -/
def defaultTexts (level : Nat) : Option Node → Except PrintError (List String)
  | none => .ok []
  | some n => do return ["default => " ++ (← text .body level n)]
end

/-- The text of a program, one line or more per node. -/
def print (nodes : List Node) : Except PrintError String := do
  return "\n".intercalate (← texts .statement 0 nodes)

end ScriptBridge.AiScript
