import ScriptBridge.Number.Reading
import ScriptBridge.Text.Letter

/-!
# TypeScript tokens

A `Token` is a lexical unit with its place. Words are identifiers whether reserved or not; the grammar
tells them apart. A template is one token that keeps its texts and the tokens of its substitutions.
-/

namespace ScriptBridge.TypeScript

/-- A number that a line can have: lines count from one. -/
class IsLine (line : Nat) : Prop where
  pos : 0 < line

instance IsLine.succ (n : Nat) : IsLine (n + 1) := ⟨n.succ_pos⟩

instance IsLine.one : IsLine 1 := .succ 0

/-- A region of a source text: offsets from zero, lines and columns from one. -/
structure Span where
  start : Nat := 0
  stop : Nat := 0
  line : Nat := 1
  col : Nat := 1
  endLine : Nat := 1
  endCol : Nat := 1
  [isLine : IsLine line]
deriving DecidableEq, Repr

attribute [instance] Span.isLine

instance : Inhabited Span := ⟨{}⟩

/-- The classes of tokens. -/
inductive TokenKind where
  | number
  | string
  | template
  | ident
  | op
  | eof
deriving DecidableEq, Repr, Inhabited

/-- A token. The `text` of a string is its value; of all others it is the source. -/
structure Token where
  kind : TokenKind
  text : String
  span : Span
  newlineBefore : Bool := false
  /-- The text of a template before its first substitution. -/
  head : String := ""
  /-- The substitutions of a template, each with the text after it. -/
  pieces : List (List Token × String) := []

instance : Inhabited Token := ⟨{ kind := .eof, text := "", span := {} }⟩

/-- The words that can never be identifiers. -/
def reservedWords : List String :=
  ["break", "case", "catch", "class", "const", "continue", "debugger", "default", "delete", "do",
    "else", "enum", "export", "extends", "false", "finally", "for", "function", "if", "import", "in",
    "instanceof", "new", "null", "return", "super", "switch", "this", "throw", "true", "try",
    "typeof", "var", "void", "while", "with"]

/-- The operators of several characters; where two fit, the earlier one is meant. -/
def longOperators : List String :=
  [">>>=", "...", "===", "!==", "**=", "&&=", "||=", "??=", "<<=", ">>=", ">>>", "=>", "==", "!=",
    "<=", ">=", "&&", "||", "??", "?.", "++", "--", "+=", "-=", "*=", "/=", "%=", "&=", "|=", "^=",
    "**", "<<", ">>"]

/-- The operators of one character. -/
def singleOperators : List Char :=
  ['+', '-', '*', '/', '%', '&', '|', '^', '~', '!', '<', '>', '=', '(', ')', '[', ']', '\x7b',
    '\x7d', ',', ':', ';', '.', '?', '@']

/-- What may begin an identifier. -/
def isNameStart (c : Char) : Bool :=
  c == '_' || c == '$' || isLetter c

/-- What may go on an identifier. -/
def isNamePart (c : Char) : Bool :=
  isNameStart c || isDigit c

/-- Why a text has no tokens. -/
inductive LexCause where
  | unterminatedComment
  | unterminatedString
  | unterminatedTemplate
  | unterminatedSubstitution
  | unfinishedEscape
  | invalidHexEscape
  | invalidUnicodeEscape
  | invalidExponent
  | bigint
  | unexpectedCharacter (c : Char)
deriving DecidableEq, Repr

/-- The wording of a cause. -/
def LexCause.message : LexCause → String
  | unterminatedComment => "unterminated comment"
  | unterminatedString => "unterminated string literal"
  | unterminatedTemplate => "unterminated template literal"
  | unterminatedSubstitution => "unterminated template substitution"
  | unfinishedEscape => "unexpected end of input in escape"
  | invalidHexEscape => "invalid hex escape"
  | invalidUnicodeEscape => "invalid unicode escape"
  | invalidExponent => "invalid number exponent"
  | bigint => "bigint literals are not supported"
  | unexpectedCharacter c => "unexpected character '" ++ c.toString ++ "'"

/-- A failure to tokenize. -/
inductive LexError where
  | placed (cause : LexCause) (line col : Nat)
  /-- An escape names a number beyond the last code point. -/
  | noSuchCodePoint (value : Nat)
  /-- The levels of nested templates were used up. -/
  | outOfFuel
deriving DecidableEq, Repr

end ScriptBridge.TypeScript
