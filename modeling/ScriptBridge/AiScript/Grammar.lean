import ScriptBridge.AiScript.Node
import ScriptBridge.AiScript.Token
import ScriptBridge.Data.Assoc
import ScriptBridge.Text.Word

/-!
# The AiScript grammar

`parse` reads AiScript text as a list of nodes. Each rule of the grammar is a definition of its own
over the tokens that are left; where a rule needs an expression or a statement again, it takes it from
`Rules`, the rules of the next level of nesting. `rules n` ties the knot for nesting up to `n`, and
`parse` gives more levels than the text has room for.

* `ReadError` lists the ways in which a text can fail to be a program.
* `Rules` and `rules`: the recursive rules, by depth of nesting.
* `parse`: the nodes of a text.
-/

namespace ScriptBridge.AiScript

/-- Why tokens do not form a program. -/
inductive GrammarCause where
  | expected (wanted found : String)
  | expectedIdentifier (found : String)
  | expectedExpression (found : String)
  | expectedPropertyName
  | unterminatedBlock
  | trailingInterpolation
deriving DecidableEq, Repr

/-- The wording of a cause. -/
def GrammarCause.message : GrammarCause → String
  | expected wanted found => "expected '" ++ wanted ++ "', got '" ++ found ++ "'"
  | expectedIdentifier found => "expected identifier, got '" ++ found ++ "'"
  | expectedExpression found => "expected expression, got '" ++ found ++ "'"
  | expectedPropertyName => "expected property name"
  | unterminatedBlock => "unterminated block"
  | trailingInterpolation => "unexpected token in template interpolation"

/-- Why a text is not a program. -/
inductive ReadError where
  | lexical (error : LexError)
  | grammar (cause : GrammarCause) (line col : Nat)
  /-- A token was asked for after the last one: an object literal ends where a key should stand. -/
  | pastEnd
  /-- The levels of nesting were used up. -/
  | outOfFuel
deriving DecidableEq, Repr

/-- A rule: it takes tokens off the front and gives a value. -/
abbrev Parser := StateT (List Token) (Except ReadError)

namespace Parser

/-! ## Looking at tokens -/

/-- The next token. -/
def current : Parser Token := fun ts =>
  match ts with
  | [] => .error .pastEnd
  | t :: _ => .ok (t, ts)

/-- Takes the next token. -/
def advance : Parser Token := fun ts =>
  match ts with
  | [] => .error .pastEnd
  | t :: rest => .ok (t, rest)

/-- The token after the next, or the last one. -/
def second : Parser Token := fun ts =>
  match ts with
  | [] => .error .pastEnd
  | [t] => .ok (t, ts)
  | _ :: t :: _ => .ok (t, ts)

/-- Fails at the next token. -/
def fail {α : Type} (cause : GrammarCause) : Parser α := do
  let t ← current
  throw (.grammar cause t.line t.col)

end Parser

/-- Whether a token is the given operator or word. -/
def Token.isAny (t : Token) (texts : List String) : Bool :=
  t.kind != .string && t.kind != .template && texts.contains t.text

/-- The place of a token. -/
def Token.loc (t : Token) : Loc :=
  { line := t.line, col := t.col }

/-- The name that a token spells. -/
def Token.name (t : Token) : Name :=
  ⟨t.text, t.loc⟩

namespace Parser

/-- Whether the next token is the given operator or word. -/
def sees (text : String) : Parser Bool := do
  return (← current).isAny [text]

/-- Takes the given operator or word. -/
def expect (text : String) : Parser Token := do
  let t ← current
  if t.isAny [text] then advance else fail (.expected text t.text)

/-- Takes the given operator or word if it is next. -/
def accept (text : String) : Parser Bool := do
  if ← sees text then
    let _ ← advance
    return true
  else return false

/-- Takes an identifier. -/
def identifier : Parser Token := do
  let t ← current
  if t.kind = .ident then advance else fail (.expectedIdentifier t.text)

/-- Passes over tokens while they are among the given ones. -/
def skipAny (texts : List String) : Parser Unit := fun ts => go ts
where
  go : List Token → Except ReadError (Unit × List Token)
    | [] => .error .pastEnd
    | t :: ts => if t.isAny texts then go ts else .ok ((), t :: ts)

/-- Passes over the separators of statements and entries. -/
def skipSeparators : Parser Unit :=
  skipAny [";", ","]

/-- Reads items until the closing token, which it leaves; `check` runs before each item and
`between` after it. -/
def itemsUntil {α : Type} (close : String) (check : Parser Unit) (item : Parser α)
    (between : Parser Unit) : Nat → Parser (List α)
  | 0 => throw .outOfFuel
  | n + 1 => do
    if ← sees close then return []
    check
    let x ← item
    between
    return x :: (← itemsUntil close check item between n)

end Parser

open ScriptBridge.AiScript.Parser

/-- The recursive rules, as seen from one level of nesting further out. -/
structure Rules where
  /-- How often a repetition may go round. -/
  bound : Nat
  expression : Parser Node
  power : Parser Node
  unary : Parser Node
  statement : Parser Node

namespace Rules

/-! ## Blocks and lists -/

/-- A braced list of statements. -/
def block (r : Rules) : Parser (List Node) := do
  let _ ← expect "\x7b"
  skipSeparators
  let check : Parser Unit := do
    if (← current).kind = .eof then fail .unterminatedBlock
  let body ← itemsUntil "\x7d" check r.statement skipSeparators r.bound
  let _ ← expect "\x7d"
  return body

/-- The body of a branch, loop or arm: a block or one statement. -/
def body (r : Rules) : Parser Node := do
  if ← sees "\x7b" then
    let loc := (← current).loc
    return .block loc (← r.block)
  else r.statement

/-- Expressions up to a closing token, which is taken; commas between them are optional. -/
def expressionsUntil (r : Rules) (close : String) : Parser (List Node) := do
  skipAny [","]
  let items ← itemsUntil close (pure ()) r.expression (skipAny [","]) r.bound
  let _ ← expect close
  return items

/-- One parameter and the comma after it. -/
def parameter (r : Rules) : Parser Param := do
  let name := (← identifier).name
  let isOptional ← accept "?"
  let fallback ← if ← accept "=" then some <$> r.expression else pure none
  if !(← sees ")") then
    let _ ← expect ","
  return .mk name.loc name isOptional fallback

/-- A parenthesized parameter list. -/
def parameters (r : Rules) : Parser (List Param) := do
  let _ ← expect "("
  let params ← itemsUntil ")" (pure ()) r.parameter (pure ()) r.bound
  let _ ← expect ")"
  return params

/-! ## Primary expressions -/

/-- An array literal. -/
def array (r : Rules) : Parser Node := do
  let loc := (← expect "[").loc
  return .arr loc (← r.expressionsUntil "]")

/-- One entry of an object literal. Any token can be a key; the end of the text cannot. -/
def entry (r : Rules) : Parser (String × Node) := do
  let key ← advance
  if key.kind = .eof then throw .pastEnd
  let _ ← expect ":"
  return (key.text, ← r.expression)

/-- An object literal. -/
def object (r : Rules) : Parser Node := do
  let loc := (← expect "\x7b").loc
  skipSeparators
  let entries ← itemsUntil "\x7d" (pure ()) r.entry skipSeparators r.bound
  let _ ← expect "\x7d"
  return .obj loc (Assoc.ofPairs entries)

/-- A further branch of a conditional, after its test word. -/
def branch (r : Rules) (loc : Loc) : Parser Branch := do
  let test ← r.expression
  return .mk loc test (← r.body)

/-- The further branches of a conditional. -/
def branches (r : Rules) : Nat → Parser (List Branch)
  | 0 => throw .outOfFuel
  | n + 1 => do
    let t ← current
    if ← accept "elif" then
      let b ← r.branch t.loc
      return b :: (← branches r n)
    else return []

/-- A conditional. -/
def conditional (r : Rules) : Parser Node := do
  let loc := (← expect "if").loc
  let test ← r.expression
  let body ← r.body
  let more ← r.branches r.bound
  let otherwise ← if ← accept "else" then some <$> r.body else pure none
  return .cond loc test body more otherwise

/-- The arms of a match. -/
def arms (r : Rules) : Nat → Parser (List Arm)
  | 0 => throw .outOfFuel
  | n + 1 => do
    let t ← current
    if ← accept "case" then
      let pattern ← r.expression
      let _ ← expect "=>"
      let body ← r.body
      skipSeparators
      return .mk t.loc pattern body :: (← arms r n)
    else return []

/-- A match. -/
def selection (r : Rules) : Parser Node := do
  let loc := (← expect "match").loc
  let subject ← r.expression
  let _ ← expect "\x7b"
  skipSeparators
  let cases ← r.arms r.bound
  let otherwise ← if ← accept "default" then do
      let _ ← expect "=>"
      let body ← r.body
      skipSeparators
      pure (some body)
    else pure none
  let _ ← expect "\x7d"
  return .select loc subject cases otherwise

/-- The expression of an interpolation, which must reach to the end of its source. -/
def interpolation (r : Rules) (source : String) (line col : Nat) : Except ReadError Node :=
  match tokenize source line col with
  | .error e => .error (.lexical e)
  | .ok tokens => do
    let whole : Parser Node := do
      let node ← r.expression
      if (← current).kind != .eof then fail .trailingInterpolation
      return node
    let (node, _) ← whole tokens
    return node

/-- The parts of a template. -/
def templateParts (r : Rules) (loc : Loc) : List TemplatePart → Except ReadError (List Node)
  | [] => .ok []
  | .text value :: rest => do
    return .str loc value :: (← templateParts r loc rest)
  | .code source line col :: rest => do
    let node ← r.interpolation source line col
    return node :: (← templateParts r loc rest)

/-- A template; one without parts holds an empty text. -/
def template (r : Rules) (t : Token) : Parser Node := do
  let parts ← r.templateParts t.loc t.parts
  return .tmpl t.loc (if parts.isEmpty then [.str t.loc ""] else parts)

/-- The expressions that begin with an operator or a reserved word. -/
def marked (r : Rules) (t : Token) : Parser Node := do
  let loc := t.loc
  match t.text with
  | "true" => let _ ← advance; return .bool loc true
  | "false" => let _ ← advance; return .bool loc false
  | "null" => let _ ← advance; return .null loc
  | "eval" => let _ ← advance; return .block loc (← r.block)
  | "if" => r.conditional
  | "match" => r.selection
  | "@" =>
    let _ ← advance
    let params ← r.parameters
    return .fn loc params (← r.block)
  | "(" =>
    let _ ← advance
    let inner ← r.expression
    let _ ← expect ")"
    return inner
  | "[" => r.array
  | "\x7b" => r.object
  | text => fail (.expectedExpression text)

/-- An expression without operators around it. -/
def primary (r : Rules) : Parser Node := do
  let t ← current
  match t.kind with
  | .number => let _ ← advance; return .num t.loc ((Double.ofText? t.text).getD .zero)
  | .string => let _ ← advance; return .str t.loc t.text
  | .template => let _ ← advance; r.template t
  | .ident => let _ ← advance; return .ident t.loc t.text
  | .op | .eof => r.marked t

/-! ## Operators -/

/-- Accesses and calls after an expression. A bracket or parenthesis continues it only without a
space before. -/
def suffixes (r : Rules) : Nat → Node → Parser Node
  | 0, _ => throw .outOfFuel
  | n + 1, node => do
    let t ← current
    if t.isAny ["."] then
      let _ ← advance
      let name ← advance
      if name.kind != .ident && !isWord name.text then
        throw (.grammar .expectedPropertyName name.line name.col)
      suffixes r n (.prop node.loc node name.text)
    else if t.isAny ["["] && !t.spaceBefore then
      let _ ← advance
      let index ← r.expression
      let _ ← expect "]"
      suffixes r n (.index node.loc node index)
    else if t.isAny ["("] && !t.spaceBefore then
      let _ ← advance
      let args ← r.expressionsUntil ")"
      suffixes r n (.call node.loc node args)
    else return node

/-- A primary expression with its accesses and calls. -/
def postfixExpression (r : Rules) : Parser Node := do
  r.suffixes r.bound (← r.primary)

/-- A signed or negated expression. A sign before a numeral belongs to the number. -/
def unaryExpression (r : Rules) : Parser Node := do
  let t ← current
  if t.isAny ["!", "+", "-"] then
    let _ ← advance
    let operand ← current
    if t.text != "!" && operand.kind = .number then
      let _ ← advance
      let value := (Double.ofText? operand.text).getD .zero
      return .num t.loc (if t.text == "-" then value.neg else value)
    else return .unary t.loc t.text (← r.unary)
  else r.postfixExpression

/-- A power, which associates to the right. -/
def powerExpression (r : Rules) : Parser Node := do
  let left ← r.unaryExpression
  if ← accept "^" then return .binary left.loc "^" left (← r.power)
  else return left

/-- Goes on with operators of one level, which associate to the left. -/
def chainFrom (isOperator : Token → Bool) (operand : Parser Node) : Nat → Node → Parser Node
  | 0, _ => throw .outOfFuel
  | n + 1, left => do
    let t ← current
    if isOperator t then
      let _ ← advance
      let right ← operand
      chainFrom isOperator operand n (.binary left.loc t.text left right)
    else return left

/-- Operands joined by operators of one level. -/
def chain (r : Rules) (isOperator : Token → Bool) (operand : Parser Node) : Parser Node := do
  chainFrom isOperator operand r.bound (← operand)

/-- Products. -/
def product (r : Rules) : Parser Node :=
  r.chain (·.isAny ["*", "/", "%"]) r.powerExpression

/-- Sums. A sign at the start of a line begins the next statement. -/
def sum (r : Rules) : Parser Node :=
  r.chain (fun t => t.isAny ["+", "-"] && !t.newlineBefore) r.product

/-- Comparisons. -/
def comparison (r : Rules) : Parser Node :=
  r.chain (·.isAny ["<", "<=", ">", ">="]) r.sum

/-- Equalities. -/
def equality (r : Rules) : Parser Node :=
  r.chain (·.isAny ["==", "!="]) r.comparison

/-- Conjunctions. -/
def conjunction (r : Rules) : Parser Node :=
  r.chain (·.isAny ["&&"]) r.equality

/-- Disjunctions, the loosest expressions. -/
def disjunction (r : Rules) : Parser Node :=
  r.chain (·.isAny ["||"]) r.conjunction

/-! ## Statements -/

/-- A definition with `let` or `var`. -/
def definition (r : Rules) : Parser Node := do
  let t ← advance
  let name := (← identifier).name
  let _ ← expect "="
  return .define t.loc name (← r.expression) (t.text == "var")

/-- A named function. -/
def functionDefinition (r : Rules) : Parser Node := do
  let loc := (← expect "@").loc
  let name := (← identifier).name
  let params ← r.parameters
  let body ← r.block
  return .define loc name (.fn loc params body) false

/-- A loop over items. -/
def eachLoop (r : Rules) : Parser Node := do
  let loc := (← expect "each").loc
  let _ ← expect "let"
  let name := (← identifier).name
  let _ ← expect ","
  let items ← r.expression
  return .each loc name items (← r.body)

/-- An expression, or an assignment to one. -/
def expressionStatement (r : Rules) : Parser Node := do
  let loc := (← current).loc
  let target ← r.expression
  let t ← current
  if t.isAny ["="] then
    let _ ← advance
    return .assign loc target (← r.expression)
  else if t.isAny ["+=", "-="] then
    let _ ← advance
    return .update loc t.text target (← r.expression)
  else return target

/-- A return, with null for a missing value. -/
def returnStatement (r : Rules) : Parser Node := do
  let loc := (← advance).loc
  let t ← current
  if t.kind = .eof || t.newlineBefore || t.isAny [";", "\x7d"] then return .ret loc (.null loc)
  else return .ret loc (← r.expression)

/-- A statement. -/
def anyStatement (r : Rules) : Parser Node := do
  let t ← current
  if t.kind = .ident || t.kind = .string || t.kind = .template then r.expressionStatement
  else
    match t.text with
    | "let" | "var" => r.definition
    | "@" => if (← second).kind = .ident then r.functionDefinition else r.expressionStatement
    | "return" => r.returnStatement
    | "break" => let _ ← advance; return .exit t.loc
    | "continue" => let _ ← advance; return .next t.loc
    | "loop" => let _ ← advance; return .loop t.loc (← r.block)
    | "each" => r.eachLoop
    | "\x7b" => return .block t.loc (← r.block)
    | _ => r.expressionStatement

end Rules

/-- The rules for `n` levels of nesting. -/
def rules : Nat → Rules
  | 0 =>
    { bound := 0, expression := throw .outOfFuel, power := throw .outOfFuel,
      unary := throw .outOfFuel, statement := throw .outOfFuel }
  | n + 1 =>
    { bound := n + 1
      expression := fun ts => (rules n).disjunction ts
      power := fun ts => (rules n).powerExpression ts
      unary := fun ts => (rules n).unaryExpression ts
      statement := fun ts => (rules n).anyStatement ts }

/-- Statements up to the end of the text. -/
def statementsToEnd (r : Rules) : Nat → Parser (List Node)
  | 0 => throw .outOfFuel
  | n + 1 => do
    if (← current).kind = .eof then return []
    let s ← r.statement
    skipSeparators
    return s :: (← statementsToEnd r n)

/-- A whole program. -/
def program (r : Rules) : Parser (List Node) := do
  skipSeparators
  statementsToEnd r r.bound

/-- The nodes of a text. -/
def parse (source : String) : Except ReadError (List Node) :=
  match tokenize source 1 1 with
  | .error e => .error (.lexical e)
  | .ok tokens => do
    let (nodes, _) ← program (rules (4 * source.length + 16)) tokens
    return nodes

end ScriptBridge.AiScript
