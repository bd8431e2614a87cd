import ScriptBridge.TypeScript.Grammar.TypeExpression

/-!
# Expressions

The rules for expressions, from literals to the comma operator. Binary operators are read by
precedence climbing (`operations`); the head of an arrow function is tried first wherever an assignment
can stand, and taken if an arrow follows.
-/

namespace ScriptBridge.TypeScript.Rules

open ScriptBridge.TypeScript.Parser

/-- How tightly a binary operator binds. -/
def precedence? : String → Option Nat
  | "??" => some 1
  | "||" => some 2
  | "&&" => some 3
  | "|" => some 4
  | "^" => some 5
  | "&" => some 6
  | "==" | "!=" | "===" | "!==" => some 7
  | "<" | ">" | "<=" | ">=" | "instanceof" | "in" => some 8
  | "<<" | ">>" | ">>>" => some 9
  | "+" | "-" => some 10
  | "*" | "/" | "%" => some 11
  | "**" => some 12
  | _ => none

/-- How tightly `as` and `satisfies` bind. -/
def assertionPrecedence : Nat := 8

/-- The assignment operators. -/
def assignmentOperators : List String :=
  ["=", "+=", "-=", "*=", "/=", "%=", "**=", "&&=", "||=", "??=", "<<=", ">>=", ">>>=", "&=", "|=",
    "^="]

/-- The words that begin a statement right after an arrow. -/
def arrowStatementWords : List String :=
  ["if", "for", "while", "do", "switch", "return", "throw", "try", "var", "const", "break",
    "continue"]

/-! ## Literals -/

/-- An element of a list of arguments. -/
def argument (r : Rules) : Parser Node := do
  let start := (← current).span
  if ← accept "..." then
    let inner ← r.assignment
    build start (.spread · inner)
  else r.assignment

/-- The parenthesized arguments of a call. -/
def arguments (r : Rules) : Parser (List Node) := do
  skip "("
  let args ← withIn (commaUntil ")" r.argument r.bound)
  skip ")"
  return args

/-- The elements of an array literal; a comma on its own is a hole. -/
def arrayItems (r : Rules) : Nat → Parser (List Node)
  | 0 => throw .outOfFuel
  | n + 1 => do
    if ← sees "]" then return []
    let t ← current
    if ← accept "," then
      let hole ← buildAt t .omitted
      return hole :: (← arrayItems r n)
    let item ← r.argument
    if ← accept "," then return item :: (← arrayItems r n)
    else return [item]

/-- An array literal. -/
def arrayLiteral (r : Rules) : Parser Node := do
  let start := (← expect "[").span
  let items ← withIn (r.arrayItems r.bound)
  skip "]"
  build start (.array · items)

/-- A member of an object literal after its name: a method. -/
def methodTail (r : Rules) (start : Span) (name : Node) (kind : MethodKind)
    (isAsync isGenerator : Bool) : Parser Node := do
  let _ ← r.typeParameters?
  let params ← r.parameters
  let result ← r.resultType?
  let body ← withIn r.block
  build start (.method · name params body result kind isAsync isGenerator)

/-- A member of an object literal after its name: a value or a shorthand. -/
def valueTail (r : Rules) (start : Span) (name : Node) : Parser Node := do
  if ← accept ":" then
    let value ← r.assignment
    build start (.property · name value)
  else
    match name with
    | .ident i =>
      if reservedWords.contains i.name then fail (.missing ":")
      let value ← if ← accept "=" then some <$> r.assignment else pure none
      build start (.shorthand · i value)
    | _ => fail (.missing ":")

/-- A member of an object literal. -/
def objectMember (r : Rules) : Parser Node := do
  let t ← current
  if ← accept "..." then
    let mark ← markFrom t.span
    return .spreadProperty mark (← r.assignment)
  let next ← peek 1
  let startsName := [.ident, .string, .number].contains next.kind || next.text == "["
  let (kind, isAsync) ←
    if t.isAny ["get", "set"] && startsName then do
      let _ ← advance
      pure (if t.text == "get" then MethodKind.getter else .setter, false)
    else if t.isAny ["async"] && (startsName || next.text == "*") && !next.newlineBefore then do
      let _ ← advance
      pure (.method, true)
    else pure (.method, false)
  let isGenerator ← accept "*"
  let name ← r.propertyName
  if ← seesAny ["(", "<"] then r.methodTail t.span name kind isAsync isGenerator
  else if kind ≠ .method || isAsync || isGenerator then fail (.missing "(")
  else r.valueTail t.span name

/-- An object literal. -/
def objectLiteral (r : Rules) : Parser Node := do
  let start := (← expect "\x7b").span
  let members ← withIn (commaUntil "\x7d" r.objectMember r.bound)
  skip "\x7d"
  build start (.object · members)

/-- A function expression, from the word `function` on. -/
def functionExpression (r : Rules) (start : Span) (isAsync : Bool) : Parser Node := do
  skip "function"
  let isGenerator ← accept "*"
  let name ← if (← current).isIdentifier then some <$> identifier else pure none
  let typeParams ← r.typeParameters?
  let params ← r.parameters
  let result ← r.resultType?
  let body ← withIn r.block
  build start (.function · name params body result typeParams isAsync isGenerator)

/-! ## Templates -/

/-- The expression of a substitution, which must reach to the end of its tokens. -/
def substitution (r : Rules) : Parser Node := do
  if (← current).kind == .eof then fail .emptySubstitution
  let e ← r.expression
  let t ← current
  if t.kind != .eof then failAt t (.expected "\x7d" t.describe)
  return e

/-- Parses the substitutions of the template token at position `i`, from the `k`-th piece on. The
tokens of each piece are put back as its parser left them. -/
def templateSpans (r : Rules) (i : Nat) : Nat → List (List Token × String) → Parser (List Node)
  | _, [] => return []
  | k, (tokens, literal) :: rest => do
    let e ← fun s =>
      let result := r.substitution { tokens := tokens.toArray, nextId := s.nextId }
      let restore (inner : ParserState) : ParserState :=
        { s with
          nextId := inner.nextId
          tokens := s.tokens.modify i fun t =>
            { t with pieces := t.pieces.set k (inner.tokens.toList, literal) } }
      match result with
      | .ok e inner => .ok e (restore inner)
      | .error fault inner => .error fault (restore inner)
    let span ← freshMark e.span
    return .templateSpan span e literal :: (← templateSpans r i (k + 1) rest)

/-- A template. -/
def templateLiteral (r : Rules) : Parser Node := do
  let i := (← get).pos
  let t ← advance
  if t.pieces.isEmpty then buildAt t (.plainTemplate · t.head)
  else
    let spans ← r.templateSpans i 0 t.pieces
    buildAt t (.template · t.head spans)

/-! ## Primary expressions and accesses -/

/-- An expression without operators around it. -/
def primary (r : Rules) : Parser Node := do
  let t ← current
  let next ← peek 1
  if t.kind == .number then buildAt (← advance) (.number · t.text)
  else if t.kind == .string then buildAt (← advance) (.string · t.text)
  else if t.kind == .template then r.templateLiteral
  else if t.isAny ["true", "false"] then buildAt (← advance) (.boolean · (t.text == "true"))
  else if t.isAny ["null"] then buildAt (← advance) .null
  else if t.isAny ["this"] then buildAt (← advance) .this
  else if t.isAny ["function"] then r.functionExpression t.span false
  else if t.isAny ["async"] && next.text == "function" && !next.newlineBefore then
    let _ ← advance
    r.functionExpression t.span true
  else if t.isAny ["class"] then failAt t .classExpression
  else if t.isAny ["("] then
    let _ ← advance
    let inner ← withIn r.expression
    skip ")"
    build t.span (.parenthesized · inner)
  else if t.isAny ["["] then r.arrayLiteral
  else if t.isAny ["\x7b"] then r.objectLiteral
  else if t.isIdentifier then return .ident (← identOf (← advance))
  else failAt t (.expectedExpression t.describe)

/-- An index in brackets, after the opening one. -/
def indexTail (r : Rules) : Parser Node := do
  let index ← withIn r.expression
  skip "]"
  return index

/-- The property accesses after the constructor in a `new` expression. -/
def constructorAccesses (r : Rules) (start : Span) : Nat → Node → Parser Node
  | 0, _ => throw .outOfFuel
  | n + 1, callee => do
    if ← accept "." then
      let name ← word
      constructorAccesses r start n (← build start (.propertyAccess · callee name false))
    else if ← accept "[" then
      let index ← r.indexTail
      constructorAccesses r start n (← build start (.elementAccess · callee index false))
    else return callee

/-- A `new` expression. -/
def newExpression (r : Rules) : Parser Node := do
  let start := (← expect "new").span
  if ← sees "." then fail .newTarget
  let callee ← if ← sees "new" then r.construction else r.primary
  let callee ← r.constructorAccesses start r.bound callee
  let args ← if ← sees "(" then r.arguments else pure []
  build start (.construct · callee args)

/-- An access after `?.`. -/
def optionalAccess (r : Rules) (start : Span) (e : Node) : Parser Node := do
  if ← sees "(" then
    let args ← r.arguments
    build start (.call · e args true)
  else if ← accept "[" then
    let index ← r.indexTail
    build start (.elementAccess · e index true)
  else
    let name ← word
    build start (.propertyAccess · e name true)

/-- Accesses, calls and non-null marks after an expression. -/
def accesses (r : Rules) (start : Span) : Nat → Node → Parser Node
  | 0, _ => throw .outOfFuel
  | n + 1, e => do
    let t ← current
    if t.isAny ["."] then
      let _ ← advance
      let name ← word
      accesses r start n (← build start (.propertyAccess · e name false))
    else if t.isAny ["?."] then
      let _ ← advance
      accesses r start n (← r.optionalAccess start e)
    else if t.isAny ["["] then
      let _ ← advance
      let index ← r.indexTail
      accesses r start n (← build start (.elementAccess · e index false))
    else if t.isAny ["("] then
      let args ← r.arguments
      accesses r start n (← build start (.call · e args false))
    else if t.isAny ["!"] && !t.newlineBefore then
      let _ ← advance
      accesses r start n (← build start (.nonNull · e))
    else if t.kind == .template then failAt t .taggedTemplate
    else return e

/-- An expression that can stand left of an operator. -/
def leftHandSide (r : Rules) : Parser Node := do
  let start := (← current).span
  let e ← if ← sees "new" then r.newExpression else r.primary
  r.accesses start r.bound e

/-! ## Operators -/

/-- Whether a token can begin the operand of `await`. -/
def startsOperand (t : Token) : Bool :=
  if t.newlineBefore || t.kind == .eof then false
  else if t.kind == .op then t.reads ["(", "[", "\x7b", "!", "-", "+", "~", "++", "--"]
  else !(t.kind == .ident && t.reads ["in", "instanceof", "as", "satisfies", "of"])

/-- A word operator and its operand. The region of the node is that of the word alone. -/
def wordOperator (r : Rules) (f : Mark → Node → Node) : Parser Node := do
  let t ← advance
  let mark ← markFrom t.span
  return f mark (← r.unary)

/-- A unary expression. -/
def unaryExpression (r : Rules) : Parser Node := do
  let t ← current
  if t.kind == .op && t.reads ["!", "-", "+", "~", "++", "--"] then
    let _ ← advance
    let operand ← r.unary
    build t.span (.prefixUnary · t.text operand)
  else if t.isAny ["typeof"] then r.wordOperator .typeOf
  else if t.isAny ["void"] then r.wordOperator .voidOf
  else if t.isAny ["delete"] then r.wordOperator .deleteOf
  else if t.isAny ["await"] && startsOperand (← peek 1) then r.wordOperator .awaitOf
  else if t.isAny ["<"] then failAt t .angleAssertion
  else
    let e ← r.leftHandSide
    let after ← current
    if after.kind == .op && after.reads ["++", "--"] && !after.newlineBefore then
      let _ ← advance
      build t.span (.postfixUnary · e after.text)
    else return e

/-- The type after `as` or `satisfies`. -/
def assertedType (r : Rules) : Parser Node := do
  let t ← current
  if ← accept "const" then buildAt t (.typeReference · "const" [])
  else r.type

/-- Goes on with the operators that bind at least as tightly as `least`. -/
def operations (r : Rules) (start : Span) (least : Nat) : Nat → Node → Parser Node
  | 0, _ => throw .outOfFuel
  | n + 1, left => do
    let t ← current
    if t.kind == .ident && t.reads ["as", "satisfies"] && !t.newlineBefore &&
        least ≤ assertionPrecedence then
      let _ ← advance
      let type ← r.assertedType
      operations r start least n (← build start fun m =>
        if t.text == "as" then .asType m left type else .satisfiesType m left type)
    else
      match precedence? t.text with
      | none => return left
      | some prec =>
        if !(t.kind == .op || t.kind == .ident) || prec < least ||
            (t.text == "in" && (← get).noIn) then return left
        let _ ← advance
        let right ← r.binary (if t.text == "**" then prec else prec + 1)
        operations r start least n (← build start (.binary · left t.text right))

/-- Unary expressions joined by operators that bind at least as tightly as `least`. -/
def binaryExpression (r : Rules) (least : Nat) : Parser Node := do
  let start := (← current).span
  let left ← r.unaryExpression
  r.operations start least r.bound left

/-- A conditional expression. -/
def conditionalExpression (r : Rules) : Parser Node := do
  let start := (← current).span
  let test ← r.binaryExpression 1
  if ← accept "?" then
    let whenTrue ← withIn r.assignment
    skip ":"
    let whenFalse ← r.assignment
    build start (.conditional · test whenTrue whenFalse)
  else return test

/-! ## Arrow functions -/

/-- The type parameters, parameters and result type of an arrow function. -/
structure ArrowHead where
  typeParams : List Node
  params : List Node
  result : Option Node

/-- The head of an arrow function with parenthesized parameters. -/
def arrowHead (r : Rules) : Parser ArrowHead := do
  let typeParams ← r.typeParameters?
  let params ← r.parameters
  let result ← r.resultType?
  if !(← sees "=>") then fail (.missing "=>")
  return ⟨typeParams, params, result⟩

/-- The body of an arrow function. A statement word opens a body of that one statement. -/
def arrowBody (r : Rules) : Parser Node := do
  let t ← current
  if t.isAny ["\x7b"] then withIn r.block
  else if t.kind == .ident && t.reads arrowStatementWords then
    let s ← withIn r.statement
    return .block (← freshMark s.span) [s]
  else r.assignment

/-- Takes `async` if it stands before an arrow function. -/
def arrowAsync : Parser Bool := do
  let next ← peek 1
  if (← sees "async") && !next.newlineBefore &&
      ((next.isIdentifier && (← peek 2).text == "=>") || next.reads ["(", "<"]) then
    let _ ← advance
    return true
  else return false

/-- The head of an arrow function, if one comes next. -/
def arrowHead? (r : Rules) : Parser (Option ArrowHead) := do
  let t ← current
  let next ← peek 1
  if t.isIdentifier && next.text == "=>" && next.kind == .op then
    let name ← identifier
    let param := Node.parameter (← freshMark name.mark.span) (.ident name) none none false false
    return some ⟨[], [param], none⟩
  else if t.isAny ["(", "<"] then speculate r.arrowHead
  else return none

/-- An arrow function, if one comes next. -/
def arrowFunction? (r : Rules) : Parser (Option Node) := do
  let start := (← current).span
  let saved := (← get).pos
  let isAsync ← arrowAsync
  match ← r.arrowHead? with
  | none =>
    modify fun s => { s with pos := saved }
    return none
  | some head =>
    if (← current).newlineBefore then fail .lineBreakBeforeArrow
    skip "=>"
    let body ← r.arrowBody
    some <$> build start (.arrow · head.params body head.result head.typeParams isAsync)

/-- An arrow function, an assignment or a conditional expression. -/
def assignmentExpression (r : Rules) : Parser Node := do
  match ← r.arrowFunction? with
  | some arrow => return arrow
  | none =>
    let start := (← current).span
    let left ← r.conditionalExpression
    let t ← current
    if t.kind == .op && t.reads assignmentOperators then
      let _ ← advance
      let right ← r.assignment
      build start (.binary · left t.text right)
    else return left

/-- Goes on with comma operators. -/
def commaTail (r : Rules) (start : Span) : Nat → Node → Parser Node
  | 0, _ => throw .outOfFuel
  | n + 1, left => do
    if ← accept "," then
      let right ← r.assignment
      commaTail r start n (← build start (.binary · left "," right))
    else return left

/-- Any expression. -/
def anyExpression (r : Rules) : Parser Node := do
  let start := (← current).span
  r.commaTail start r.bound (← r.assignment)

end ScriptBridge.TypeScript.Rules
