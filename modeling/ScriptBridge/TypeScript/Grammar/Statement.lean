import ScriptBridge.TypeScript.Grammar.Expression

/-!
# Statements and declarations

The rules for statements, declarations, imports and exports. The body of a class is passed over.
-/

namespace ScriptBridge.TypeScript.Rules

open ScriptBridge.TypeScript.Parser

/-- The words that can follow `declare`. -/
def declarationWords : List String :=
  ["const", "let", "var", "function", "class", "enum", "interface", "type", "namespace", "module",
    "global", "abstract", "async"]

/-- A modifier made of one token. -/
def modifierOf (t : Token) : Parser Modifier := do
  return ⟨← freshMark t.span, t.text⟩

/-- Whether a token is a modifier when another one follows it on the same line. -/
def isModifierBefore (t next : Token) : Bool :=
  t.kind == .ident && !next.newlineBefore &&
    ((t.text == "declare" && next.reads declarationWords) ||
      (t.text == "async" && next.text == "function") ||
      (t.text == "abstract" && next.text == "class") ||
      (t.text == "const" && next.text == "enum"))

/-- The modifiers before a declaration. -/
def declarationModifiers : Nat → Parser (List Modifier)
  | 0 => throw .outOfFuel
  | n + 1 => do
    if isModifierBefore (← current) (← peek 1) then
      let m ← modifierOf (← advance)
      return m :: (← declarationModifiers n)
    else return []

/-- Whether the text so far is a complete statement. -/
def seesStatementEnd : Parser Bool := do
  let t ← current
  return t.newlineBefore || t.kind == .eof || t.isAny [";", "\x7d"]

/-! ## Imports and exports -/

/-- The text that names a module. -/
def moduleSpecifier : Parser (Mark × String) := do
  let t ← current
  if t.kind == .string then
    let _ ← advance
    return (← freshMark t.span, t.text)
  else failAt t (.expectedModuleSpecifier t.describe)

/-- Takes the word `type` before a specifier and tells whether it stood there. -/
def typeOnlyMark : Parser Bool := do
  let next ← peek 1
  if (← sees "type") && next.kind == .ident && next.text != "as" then
    let _ ← advance
    return true
  else return false

/-- One name of an export list. -/
def exportSpecifier : Parser Node := do
  let start := (← current).span
  let _ ← typeOnlyMark
  let first ← word
  if ← accept "as" then
    let name ← word
    build start (.exportSpecifier · (some first) name)
  else build start (.exportSpecifier · none first)

/-- An export list or an export of everything, after its first word. -/
def exportList (r : Rules) (start : Span) (isTypeOnly : Bool) : Parser Node := do
  if ← accept "*" then
    if ← accept "as" then
      let _ ← word
    skip "from"
    let specifier ← moduleSpecifier
    semicolon
    build start (.exportDeclaration · none (some specifier) isTypeOnly)
  else
    skip "\x7b"
    let elements ← commaUntil "\x7d" exportSpecifier r.bound
    skip "\x7d"
    let specifier ← if ← accept "from" then some <$> moduleSpecifier else pure none
    semicolon
    build start (.exportDeclaration · (some elements) specifier isTypeOnly)

/-- One name of an import list. -/
def importSpecifier : Parser Node := do
  let start := (← current).span
  let isTypeOnly ← typeOnlyMark
  let imported ← word
  if ← accept "as" then
    let name ← identifier
    build start (.importSpecifier · (some imported) name isTypeOnly)
  else if reservedWords.contains imported.name then
    failSpan imported.mark.span (.expectedIdentifier ("'" ++ imported.name ++ "'"))
  else build start (.importSpecifier · none imported isTypeOnly)

/-- Takes the word `type` of an import clause and tells whether it stood there. -/
def clauseTypeOnly : Parser Bool := do
  let next ← peek 1
  if (← sees "type") && (next.reads ["\x7b", "*"] || (next.kind == .ident && next.text != "from")) then
    let _ ← advance
    return true
  else return false

/-- The default name of an import clause. -/
def clauseName : Parser (Option Ident) := do
  let t ← current
  if t.kind == .ident && t.text != "from" then
    let name ← identifier
    if ← sees "=" then fail .importRequire
    let _ ← accept ","
    return some name
  else if t.isAny ["from"] && (← peek 1).text == "from" then some <$> word
  else return none

/-- What an import brings in. -/
def importClause (r : Rules) : Parser Node := do
  let start := (← current).span
  let isTypeOnly ← clauseTypeOnly
  let name ← clauseName
  if ← accept "*" then
    skip "as"
    let allAs ← identifier
    build start (.importClause · name (some allAs) none isTypeOnly)
  else if ← accept "\x7b" then
    let elements ← commaUntil "\x7d" importSpecifier r.bound
    skip "\x7d"
    build start (.importClause · name none (some elements) isTypeOnly)
  else build start (.importClause · name none none isTypeOnly)

/-- An import declaration. -/
def importDeclaration (r : Rules) : Parser Node := do
  let start := (← expect "import").span
  if (← current).kind == .string then
    let (mark, text) ← moduleSpecifier
    semicolon
    build start (.importDeclaration · none mark text)
  else
    let clause ← r.importClause
    skip "from"
    let (mark, text) ← moduleSpecifier
    let t ← current
    if t.isAny ["with", "assert"] && !t.newlineBefore then
      let _ ← advance
      skipBalanced r.bound "\x7b" "\x7d"
    semicolon
    build start (.importDeclaration · (some clause) mark text)

/-! ## Declarations -/

/-- Whether `let` begins a declaration, by the token after it. -/
def letDeclares (next : Token) : Bool :=
  next.kind == .ident || next.reads ["[", "\x7b"]

/-- One declared variable. -/
def variableDeclaration (r : Rules) : Parser Node := do
  let start := (← current).span
  let target ← r.binding
  let _ ← accept "!"
  let type ← r.annotation?
  let value ← if ← accept "=" then some <$> r.assignment else pure none
  build start (.variableDeclaration · target type value)

/-- A declaring word and the variables after it. -/
def variableList (r : Rules) : Parser Node := do
  let keyword ← advance
  let declarations ← commaList r.variableDeclaration r.bound
  build keyword.span (.variableList · keyword.text declarations)

/-- A function declaration; one without a body ends as a statement does. -/
def functionDeclaration (r : Rules) (start : Span) (modifiers : List Modifier) : Parser Node := do
  skip "function"
  let isGenerator ← accept "*"
  let name ← if ← seesAny ["(", "<"] then pure none else some <$> identifier
  let typeParams ← r.typeParameters?
  let params ← r.parameters
  let result ← r.resultType?
  let body ← if ← sees "\x7b" then some <$> r.block else do
    semicolon
    pure none
  build start (.functionDeclaration · modifiers name params body result typeParams
    (hasModifier modifiers "async") isGenerator)

/-- Passes over the head of a class, up to its body. -/
def skipClassHead : Nat → Parser Unit
  | 0 => throw .outOfFuel
  | n + 1 => do
    let t ← current
    if t.isAny ["\x7b"] then return
    if t.kind == .eof then failAt t (.expected "\x7b" t.describe)
    let _ ← advance
    skipClassHead n

/-- A class declaration, of which only the name is kept. -/
def classDeclaration (r : Rules) (start : Span) (modifiers : List Modifier) : Parser Node := do
  skip "class"
  let t ← current
  let name ← if t.isIdentifier && !t.isAny ["extends", "implements"] then some <$> identifier
    else pure none
  skipClassHead r.bound
  skipBalanced r.bound "\x7b" "\x7d"
  build start (.classDeclaration · modifiers name)

/-- A member of an enumeration. -/
def enumMember (r : Rules) : Parser Node := do
  let start := (← current).span
  let name ← r.propertyName
  let value ← if ← accept "=" then some <$> r.assignment else pure none
  build start (.enumMember · name value)

/-- An enumeration. -/
def enumDeclaration (r : Rules) (start : Span) (modifiers : List Modifier) : Parser Node := do
  skip "enum"
  let name ← identifier
  skip "\x7b"
  let members ← commaUntil "\x7d" r.enumMember r.bound
  skip "\x7d"
  build start (.enumDeclaration · modifiers name members)

/-- An interface that another one extends. -/
def heritageType (r : Rules) : Parser Node := do
  let type ← r.primaryType
  match type with
  | .typeReference .. => return type
  | _ => failSpan type.span .missingInterfaceName

/-- An interface. -/
def interfaceDeclaration (r : Rules) (start : Span) (modifiers : List Modifier) : Parser Node := do
  skip "interface"
  let name ← identifier
  let typeParams ← r.typeParameters?
  let heritage ← if ← accept "extends" then commaList r.heritageType r.bound else pure []
  let members ← r.typeMembers
  build start (.interfaceDeclaration · modifiers name typeParams heritage members)

/-- A type alias. -/
def typeAlias (r : Rules) (start : Span) (modifiers : List Modifier) : Parser Node := do
  skip "type"
  let name ← identifier
  let typeParams ← r.typeParameters?
  skip "="
  let type ← r.type
  semicolon
  build start (.typeAlias · modifiers name typeParams type)

/-- The further parts of a dotted namespace name. -/
def moduleNameTail : Nat → Ident → Parser Ident
  | 0, _ => throw .outOfFuel
  | n + 1, name => do
    if ← accept "." then
      let part ← identifier
      moduleNameTail n ⟨← markFrom name.mark.span, name.name ++ "." ++ part.name⟩
    else return name

/-- A namespace, a module with a quoted name, or the global scope. -/
def moduleDeclaration (r : Rules) (start : Span) (modifiers : List Modifier) : Parser Node := do
  let keyword ← advance
  let name ←
    if keyword.text == "global" then identOf keyword
    else if (← current).kind == .string then identOf (← advance)
    else moduleNameTail r.bound (← identifier)
  skip "\x7b"
  let statements ← itemsUntil ["\x7d"] r.statement r.bound
  skip "\x7d"
  build start (.moduleDeclaration · modifiers name statements)

/-! ## Statements -/

/-- A parenthesized expression that belongs to a statement word. -/
def headExpression (r : Rules) : Parser Node := do
  skip "("
  let e ← withIn r.expression
  skip ")"
  return e

/-- A conditional statement. -/
def ifStatement (r : Rules) : Parser Node := do
  let start := (← expect "if").span
  let test ← r.headExpression
  let body ← r.statement
  let otherwise ← if ← accept "else" then some <$> r.statement else pure none
  build start (.ifStatement · test body otherwise)

/-- What a loop head starts with. -/
def forStart (r : Rules) : Parser (Option Node) := do
  let t ← current
  if t.isAny [";"] then return none
  else if t.isAny ["const", "var"] || (t.isAny ["let"] && letDeclares (← peek 1)) then
    some <$> r.variableList
  else some <$> r.expression

/-- A loop head of three parts, after the first. -/
def forTail (r : Rules) (start : Span) (first : Option Node) : Parser Node := do
  skip ";"
  let test ← if ← sees ";" then pure none else some <$> withIn r.expression
  skip ";"
  let advance ← if ← sees ")" then pure none else some <$> withIn r.expression
  skip ")"
  let body ← r.statement
  build start (.forStatement · first test advance body)

/-- A loop with `for`. -/
def forStatement (r : Rules) : Parser Node := do
  let start := (← expect "for").span
  let isAwait ← accept "await"
  skip "("
  let first ← withNoIn true r.forStart
  match first with
  | none => r.forTail start none
  | some target =>
    if ← accept "of" then
      let items ← withIn r.assignment
      skip ")"
      let body ← r.statement
      build start (.forOfStatement · target items body isAwait)
    else if ← accept "in" then
      let items ← withIn r.expression
      skip ")"
      let body ← r.statement
      build start (.forInStatement · target items body)
    else r.forTail start first

/-- What a clause of a switch compares with; `none` for the default. -/
def clauseTest (r : Rules) : Parser (Option Node) := do
  let t ← current
  if ← accept "case" then some <$> withIn r.expression
  else if ← accept "default" then return none
  else failAt t (.expectedClause t.describe)

/-- A clause of a switch. -/
def switchClause (r : Rules) : Parser Node := do
  let t ← current
  let test ← r.clauseTest
  skip ":"
  let body ← itemsUntil ["case", "default", "\x7d"] r.statement r.bound
  match test with
  | some test => build t.span (.caseClause · test body)
  | none => build t.span (.defaultClause · body)

/-- The clauses of a switch. -/
def switchClauses (r : Rules) : Nat → Parser (List Node)
  | 0 => throw .outOfFuel
  | n + 1 => do
    if ← sees "\x7d" then return []
    let clause ← r.switchClause
    return clause :: (← switchClauses r n)

/-- A switch. -/
def switchStatement (r : Rules) : Parser Node := do
  let start := (← expect "switch").span
  let subject ← r.headExpression
  skip "\x7b"
  let clauses ← r.switchClauses r.bound
  skip "\x7d"
  build start (.switchStatement · subject clauses)

/-- What a handler binds, in parentheses; its type is passed over. -/
def catchBinding (r : Rules) : Parser (Option Node) := do
  if ← accept "(" then
    let target ← r.binding
    let _ ← r.annotation?
    skip ")"
    return some target
  else return none

/-- A handler. The region of the node ends before its block. -/
def catchClause (r : Rules) : Parser Node := do
  let start := (← advance).span
  let binding ← r.catchBinding
  let mark ← markFrom start
  return .catchClause mark binding (← r.block)

/-- A guarded block with its handlers. -/
def tryStatement (r : Rules) : Parser Node := do
  let start := (← expect "try").span
  let body ← r.block
  let handler ← if ← sees "catch" then some <$> r.catchClause else pure none
  let final ← if ← accept "finally" then some <$> r.block else pure none
  if handler.isNone && final.isNone then fail .missingHandler
  build start (.tryStatement · body handler final)

/-- A jump, with the label it goes to. -/
def jumpStatement : Parser Node := do
  let keyword ← advance
  let t ← current
  let label ← if t.isIdentifier && !t.newlineBefore then some <$> identifier else pure none
  semicolon
  build keyword.span fun m =>
    if keyword.text == "break" then .breakStatement m label else .continueStatement m label

/-- A statement that begins with a word of its own; `none` for all others. -/
def wordStatement? (r : Rules) (t : Token) : Option (Parser Node) :=
  if t.kind != .ident then none
  else
    match t.text with
    | "if" => some r.ifStatement
    | "for" => some r.forStatement
    | "while" => some do
      let _ ← advance
      let test ← r.headExpression
      let body ← r.statement
      build t.span (.whileStatement · test body)
    | "do" => some do
      let _ ← advance
      let body ← r.statement
      skip "while"
      let test ← r.headExpression
      semicolon
      build t.span (.doStatement · body test)
    | "switch" => some r.switchStatement
    | "return" => some do
      let _ ← advance
      let value ← if ← seesStatementEnd then pure none else some <$> r.expression
      semicolon
      build t.span (.returnStatement · value)
    | "break" | "continue" => some jumpStatement
    | "throw" => some do
      let _ ← advance
      let value ← r.expression
      semicolon
      build t.span (.throwStatement · value)
    | "try" => some r.tryStatement
    | _ => none

/-- A statement that is no declaration. -/
def plainStatement (r : Rules) : Parser Node := do
  let t ← current
  let next ← peek 1
  if t.isAny ["\x7b"] then r.block
  else if t.isAny [";"] then
    let _ ← advance
    build t.span .empty
  else
    match r.wordStatement? t with
    | some statement => statement
    | none =>
      if t.isIdentifier && next.text == ":" && next.kind == .op then
        let label ← identifier
        skip ":"
        let body ← r.statement
        build t.span (.labeled · label body)
      else
        let e ← r.expression
        semicolon
        build t.span (.expressionStatement · e)

/-- A declaration, or without modifiers any other statement. -/
def declarationOrStatement (r : Rules) (start : Span) (modifiers : List Modifier) : Parser Node := do
  let t ← current
  let next ← peek 1
  let sameLine := !next.newlineBefore
  if t.isAny ["const", "var"] || (t.isAny ["let"] && letDeclares next) then
    let declarations ← r.variableList
    semicolon
    build start (.variableStatement · modifiers declarations)
  else if t.isAny ["function"] then r.functionDeclaration start modifiers
  else if t.isAny ["class"] then r.classDeclaration start modifiers
  else if t.isAny ["enum"] then r.enumDeclaration start modifiers
  else if t.isAny ["interface"] && next.kind == .ident && sameLine then
    r.interfaceDeclaration start modifiers
  else if t.isAny ["type"] && next.isIdentifier && sameLine then r.typeAlias start modifiers
  else if t.isAny ["namespace", "module"] && sameLine && [.ident, .string].contains next.kind then
    r.moduleDeclaration start modifiers
  else if t.isAny ["global"] && next.text == "\x7b" then r.moduleDeclaration start modifiers
  else if modifiers.isEmpty then r.plainStatement
  else failAt t .missingDeclaration

/-- An exported default, after its two words. -/
def exportDefault (r : Rules) (start : Span) (modifiers : List Modifier) : Parser Node := do
  let t ← current
  if t.isAny ["function", "class", "abstract", "interface"] ||
      (t.isAny ["async"] && (← peek 1).text == "function") then
    let more ← declarationModifiers r.bound
    r.declarationOrStatement start (modifiers ++ more)
  else
    let e ← r.assignment
    semicolon
    build start (.exportAssignment · e true)

/-- An export of any kind. -/
def exportStatement (r : Rules) : Parser Node := do
  let keyword ← advance
  let start := keyword.span
  let exported ← modifierOf keyword
  let t ← current
  if t.isAny ["\x7b", "*"] then r.exportList start false
  else if t.isAny ["type"] && (← peek 1).reads ["\x7b", "*"] then
    let _ ← advance
    r.exportList start true
  else if ← accept "=" then
    let e ← r.assignment
    semicolon
    build start (.exportAssignment · e false)
  else if t.isAny ["default"] then
    let isDefault ← modifierOf (← advance)
    r.exportDefault start [exported, isDefault]
  else if t.isAny ["import"] then failAt t .exportImport
  else
    let more ← declarationModifiers r.bound
    r.declarationOrStatement start (exported :: more)

/-- Any statement. -/
def anyStatement (r : Rules) : Parser Node := do
  let t ← current
  if t.isAny ["export"] then r.exportStatement
  else if t.isAny ["import"] && !(← peek 1).reads ["(", "."] then r.importDeclaration
  else
    let modifiers ← declarationModifiers r.bound
    r.declarationOrStatement t.span modifiers

end ScriptBridge.TypeScript.Rules
