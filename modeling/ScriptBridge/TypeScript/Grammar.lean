import ScriptBridge.TypeScript.Grammar.Statement
import ScriptBridge.TypeScript.Token.Lexer

/-!
# Parsing TypeScript

`rules n` ties the rules of the grammar together for nesting up to `n`. `parse` reads a text as a
`SourceFile`, with more levels of nesting than the text has room for.
-/

namespace ScriptBridge.TypeScript

open ScriptBridge.TypeScript.Parser

/-- The rules for `n` levels of nesting. -/
def rules : Nat → Rules
  | 0 =>
    { bound := 0, statement := throw .outOfFuel, expression := throw .outOfFuel,
      assignment := throw .outOfFuel, binary := fun _ => throw .outOfFuel,
      unary := throw .outOfFuel, construction := throw .outOfFuel,
      bindingName := throw .outOfFuel, type := throw .outOfFuel, typeOperator := throw .outOfFuel }
  | n + 1 =>
    { bound := n + 1
      statement := fun s => (rules n).anyStatement s
      expression := fun s => (rules n).anyExpression s
      assignment := fun s => (rules n).assignmentExpression s
      binary := fun least s => (rules n).binaryExpression least s
      unary := fun s => (rules n).unaryExpression s
      construction := fun s => (rules n).newExpression s
      bindingName := fun s => (rules n).binding s
      type := fun s => (rules n).anyType s
      typeOperator := fun s => (rules n).operatorType s }

/-- Statements up to the end of the tokens. -/
def statementsToEnd (r : Rules) : Nat → Parser (List Node)
  | 0 => throw .outOfFuel
  | n + 1 => do
    if (← current).kind == .eof then return []
    let s ← r.statement
    return s :: (← statementsToEnd r n)

/-- A whole file. -/
def sourceFile (r : Rules) (fileName text : String) : Parser SourceFile := do
  let statements ← statementsToEnd r r.bound
  let last := (← current).span
  let span : Span := ⟨0, text.length, 1, 1, last.line, last.col⟩
  return { fileName, text, span, statements }

/-- Why a text is not a file of the language. -/
inductive SyntaxFault where
  | lexical (error : LexError)
  | parse (fault : ParseFault)
deriving DecidableEq, Repr

/-- Parses a text; its nodes are numbered from `firstId`, and the next free number is given back. -/
def parseFrom (firstId : Nat) (fileName text : String) : Except SyntaxFault (SourceFile × Nat) :=
  match tokenize text with
  | .error e => .error (.lexical e)
  | .ok tokens =>
    match sourceFile (rules (8 * text.length + 64)) fileName text
        { tokens := tokens.toArray, nextId := firstId } with
    | .ok file s => .ok (file, s.nextId)
    | .error fault _ => .error (.parse fault)

/-- Parses a text. -/
def parse (fileName text : String) : Except SyntaxFault SourceFile :=
  Prod.fst <$> parseFrom 0 fileName text

end ScriptBridge.TypeScript
