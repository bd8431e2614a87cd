import ScriptBridge.TypeScript.Node
import ScriptBridge.TypeScript.Numeral

/-!
# The state of the TypeScript parser

A `Parser` runs over an array of tokens. It keeps its state when it fails: closing a list of type
arguments can split a token such as `>>` in place, and a later attempt at the same tokens sees the
split. `speculate` tries a parser and on a failure of grammar goes back to where it was, except for
tokens that were split.

* `GrammarCause`, `ParseFault`: the ways to fail.
* `current`, `peek`, `advance`, `sees`, `expect`: looking at and taking tokens.
* `spanFrom`, `build`: the region since a token, and a node over it.
* `Rules`: the recursive rules of the grammar, by depth of nesting.
-/

namespace ScriptBridge.TypeScript

/-- Why tokens do not form a program. -/
inductive GrammarCause where
  | expected (wanted found : String)
  | expectedIdentifier (found : String)
  | expectedModuleSpecifier (found : String)
  | expectedClause (found : String)
  | expectedExpression (found : String)
  | expectedType (found : String)
  | missing (wanted : String)
  | missingDeclaration
  | missingInterfaceName
  | missingHandler
  | missingColon
  | emptySubstitution
  | lineBreakBeforeArrow
  | exportImport
  | importRequire
  | angleAssertion
  | taggedTemplate
  | newTarget
  | classExpression
deriving DecidableEq, Repr

/-- The wording of a cause. -/
def GrammarCause.message : GrammarCause → String
  | expected wanted found => "expected '" ++ wanted ++ "', got " ++ found
  | expectedIdentifier found => "expected identifier, got " ++ found
  | expectedModuleSpecifier found => "expected module specifier, got " ++ found
  | expectedClause found => "expected 'case' or 'default', got " ++ found
  | expectedExpression found => "expression expected, got " ++ found
  | expectedType found => "type expected, got " ++ found
  | missing wanted => "expected '" ++ wanted ++ "'"
  | missingDeclaration => "declaration expected"
  | missingInterfaceName => "expected interface name"
  | missingHandler => "expected 'catch' or 'finally'"
  | missingColon => "expected ':' after property name"
  | emptySubstitution => "expression expected in template substitution"
  | lineBreakBeforeArrow => "line break not allowed before '=>'"
  | exportImport => "'export import' is not supported"
  | importRequire => "'import = require()' is not supported"
  | angleAssertion => "angle-bracket type assertions are not supported; use 'as'"
  | taggedTemplate => "tagged templates are not supported"
  | newTarget => "'new.target' is not supported"
  | classExpression => "class expressions are not supported"

/-- Why parsing stopped. -/
inductive ParseFault where
  | grammar (cause : GrammarCause) (line col : Nat)
  /-- A numeric literal type has no value. -/
  | numeral (fault : NumeralFault)
  /-- The levels of nesting were used up. -/
  | outOfFuel
deriving DecidableEq, Repr

/-- Where a parser is. -/
structure ParserState where
  tokens : Array Token
  pos : Nat := 0
  /-- Whether `in` ends an expression, as in the head of a loop. -/
  noIn : Bool := false
  /-- The identity that the next node gets. -/
  nextId : Nat := 0

/-- A parser. A failure keeps the state it was met in. -/
abbrev Parser := EStateM ParseFault ParserState

namespace Token

/-- What an error message calls a token. -/
def describe (t : Token) : String :=
  match t.kind with
  | .eof => "end of input"
  | .string => "string literal"
  | .template => "template literal"
  | _ => "'" ++ t.text ++ "'"

/-- Whether a token is one of the given operators or words. -/
def isAny (t : Token) (texts : List String) : Bool :=
  (t.kind == .op || t.kind == .ident) && texts.contains t.text

/-- Whether a token is a word that can name something. -/
def isIdentifier (t : Token) : Bool :=
  t.kind == .ident && !reservedWords.contains t.text

/-- Whether the text of a token, whatever its class, is one of the given ones. -/
def reads (t : Token) (texts : List String) : Bool :=
  texts.contains t.text

end Token

namespace Parser

/-! ## Taking tokens -/

/-- The token `n` places ahead, or the last one. -/
def peek (n : Nat) : Parser Token := do
  let s ← get
  return (s.tokens[s.pos + n]?).getD (s.tokens.back?.getD default)

/-- The next token. -/
def current : Parser Token :=
  peek 0

/-- Takes the next token; the end of the text stays. -/
def advance : Parser Token := do
  let t ← current
  if t.kind != .eof then modify fun s => { s with pos := s.pos + 1 }
  return t

/-- Whether the next token is one of the given operators or words. -/
def seesAny (texts : List String) : Parser Bool := do
  return (← current).isAny texts

/-- Whether the next token is the given operator or word. -/
def sees (text : String) : Parser Bool :=
  seesAny [text]

/-- Fails at a token. -/
def failAt {α : Type} (t : Token) (cause : GrammarCause) : Parser α :=
  throw (.grammar cause t.span.line t.span.col)

/-- Fails at the next token. -/
def fail {α : Type} (cause : GrammarCause) : Parser α := do
  failAt (← current) cause

/-- Fails at the start of a region. -/
def failSpan {α : Type} (span : Span) (cause : GrammarCause) : Parser α :=
  throw (.grammar cause span.line span.col)

/-- Takes the given operator or word. -/
def expect (text : String) : Parser Token := do
  let t ← current
  if t.isAny [text] then advance else failAt t (.expected text t.describe)

/-- Takes the given operator or word and forgets it. -/
def skip (text : String) : Parser Unit := do
  let _ ← expect text

/-- Takes the given operator or word if it is next. -/
def accept (text : String) : Parser Bool := do
  if ← sees text then
    let _ ← advance
    return true
  else return false

/-- Takes a semicolon if it is next. -/
def semicolon : Parser Unit := do
  let _ ← accept ";"

/-- Takes one `>`, splitting a longer operator that begins with it. -/
def closeAngle : Parser Unit := do
  let t ← current
  if t.kind == .op && t.text == ">" then
    let _ ← advance
  else if t.kind == .op && t.text.toList.head? == some '>' then
    let rest : Token :=
      { t with
        text := String.ofList t.text.toList.tail
        span := { t.span with start := t.span.start + 1, col := t.span.col + 1 } }
    modify fun s => { s with tokens := s.tokens.setIfInBounds s.pos rest }
  else failAt t (.expected ">" t.describe)

/-! ## Backtracking -/

/-- Tries a parser. After a failure of grammar the place is as before, and `none` is given. -/
def speculate {α : Type} (p : Parser α) : Parser (Option α) := fun s =>
  match p s with
  | .ok a s' => .ok (some a) s'
  | .error (.grammar _ _ _) s' => .ok none { s' with pos := s.pos, noIn := s.noIn }
  | .error e s' => .error e s'

/-- Runs a parser with `in` as an operator or not. -/
def withNoIn {α : Type} (noIn : Bool) (p : Parser α) : Parser α := do
  let saved := (← get).noIn
  modify fun s => { s with noIn }
  let a ← p
  modify fun s => { s with noIn := saved }
  return a

/-- Runs a parser with `in` allowed, as inside brackets and bodies. -/
def withIn {α : Type} (p : Parser α) : Parser α :=
  withNoIn false p

/-! ## Building nodes -/

/-- The region from a start to the end of the last token taken. -/
def spanFrom (start : Span) : Parser Span := do
  let s ← get
  let last := ((s.tokens[s.pos - 1]?).getD default).span
  if last.stop < start.start then
    return { start with stop := start.start, endLine := start.line, endCol := start.col }
  else return { start with stop := last.stop, endLine := last.endLine, endCol := last.endCol }

/-- A mark with an identity of its own. -/
def freshMark (span : Span) : Parser Mark := do
  let s ← get
  set { s with nextId := s.nextId + 1 }
  return ⟨s.nextId, span⟩

/-- A mark for the region from a start to the last token taken. -/
def markFrom (start : Span) : Parser Mark := do
  freshMark (← spanFrom start)

/-- A node over the region from a start to the last token taken. -/
def build (start : Span) (f : Mark → Node) : Parser Node := do
  return f (← markFrom start)

/-- A node over one token. -/
def buildAt (t : Token) (f : Mark → Node) : Parser Node := do
  return f (← freshMark t.span)

/-- The name that a token spells. -/
def identOf (t : Token) : Parser Ident := do
  return ⟨← freshMark t.span, t.text⟩

/-- An identifier. -/
def identifier : Parser Ident := do
  let t ← current
  if t.isIdentifier then identOf (← advance) else failAt t (.expectedIdentifier t.describe)

/-- Any word, reserved or not. -/
def word : Parser Ident := do
  let t ← current
  if t.kind == .ident then identOf (← advance) else failAt t (.expectedIdentifier t.describe)

/-! ## Repetition -/

/-- Items separated by commas, until the closing token is next or a comma is missing. -/
def commaUntil {α : Type} (close : String) (item : Parser α) : Nat → Parser (List α)
  | 0 => throw .outOfFuel
  | n + 1 => do
    if ← sees close then return []
    let x ← item
    if ← accept "," then return x :: (← commaUntil close item n)
    else return [x]

/-- One or more items separated by commas. -/
def commaList {α : Type} (item : Parser α) : Nat → Parser (List α)
  | 0 => throw .outOfFuel
  | n + 1 => do
    let x ← item
    if ← accept "," then return x :: (← commaList item n)
    else return [x]

/-- Items until one of the closing tokens is next; the text must not end before. -/
def itemsUntil {α : Type} (closes : List String) (item : Parser α) : Nat → Parser (List α)
  | 0 => throw .outOfFuel
  | n + 1 => do
    if ← seesAny closes then return []
    let t ← current
    if t.kind == .eof then failAt t (.expected "\x7d" t.describe)
    let x ← item
    return x :: (← itemsUntil closes item n)

/-- Passes over tokens up to the bracket that closes the one already taken. -/
def skipNested (opening closing : String) : Nat → Nat → Parser Unit
  | 0, _ => throw .outOfFuel
  | n + 1, depth => do
    let t ← current
    if t.kind == .eof then failAt t (.missing closing)
    let _ ← advance
    if t.isAny [opening] then skipNested opening closing n (depth + 1)
    else if t.isAny [closing] then
      match depth with
      | 0 => return
      | d + 1 => skipNested opening closing n d
    else skipNested opening closing n depth

/-- Passes over a bracketed region. -/
def skipBalanced (bound : Nat) (opening closing : String) : Parser Unit := do
  skip opening
  skipNested opening closing bound 0

end Parser

/-- The recursive rules, as seen from one level of nesting further out. -/
structure Rules where
  /-- How often a repetition may go round. -/
  bound : Nat
  statement : Parser Node
  expression : Parser Node
  assignment : Parser Node
  /-- Operators of at least the given precedence. -/
  binary : Nat → Parser Node
  unary : Parser Node
  construction : Parser Node
  bindingName : Parser Node
  type : Parser Node
  typeOperator : Parser Node

end ScriptBridge.TypeScript
