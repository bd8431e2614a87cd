import ScriptBridge.TypeScript.Grammar.Pattern

/-!
# Types

The rules for type annotations. A mapped type reads as `any`, a template type as `string`, and a call
or construct signature among the members of a type is passed over.
-/

namespace ScriptBridge.TypeScript.Rules

open ScriptBridge.TypeScript.Parser

/-- The words for the built-in types. -/
def typeWords : List String :=
  ["any", "unknown", "never", "void", "undefined", "null", "number", "string", "boolean", "object",
    "symbol", "bigint"]

/-- The value of a numeric literal type. -/
def literalNumber (text : String) : Parser Double :=
  match numericValue text with
  | .ok x => return x
  | .error fault => throw (.numeral fault)

/-! ## Members -/

/-- Whether the braces that come next hold a mapped type. -/
def seesMappedType : Parser Bool := do
  let n := if (← peek 1).reads ["+", "-"] then 2 else 1
  let n := if (← peek n).reads ["readonly"] then n + 1 else n
  return (← peek n).text == "[" && (← peek (n + 1)).kind == .ident && (← peek (n + 2)).text == "in"

/-- The parameters and result of a call signature. -/
def signature (r : Rules) : Parser (List Node × Option Node) := do
  let _ ← r.typeParameters?
  let params ← r.parameters
  return (params, ← r.resultType?)

/-- The name of a member as text; a computed one has none. -/
def memberName (r : Rules) : Parser String := do
  if ← sees "[" then
    skipBalanced r.bound "[" "]"
    return ""
  else
    match ← r.propertyName with
    | .ident i => return i.name
    | .string _ value => return value
    | .number _ text => return text
    | _ => return ""

/-- A named member of a type, after its modifiers. -/
def namedMember (r : Rules) (start : Span) : Parser Node := do
  let name ← r.memberName
  let isOptional ← accept "?"
  if ← seesAny ["(", "<"] then
    let (params, result) ← r.signature
    build start (.methodSignature · name isOptional params result)
  else
    let type ← r.annotation?
    build start (.propertySignature · name isOptional type)

/-- A member of a type; call and construct signatures give none. -/
def typeMember (r : Rules) : Parser (Option Node) := do
  let start := (← current).span
  if ← seesAny ["(", "<"] then
    let _ ← r.signature
    return none
  if (← sees "new") && (← peek 1).reads ["(", "<"] then
    let _ ← advance
    let _ ← r.signature
    return none
  if (← sees "readonly") && !(← peek 1).reads [":", "?", "(", ";", ",", "\x7d"] then
    let _ ← advance
  if (← seesAny ["get", "set"]) && (← peek 1).kind == .ident && (← peek 2).text == "(" then
    let _ ← advance
  if (← sees "[") && (← peek 1).isIdentifier && (← peek 2).text == ":" then
    let _ ← advance
    let _ ← advance
    let _ ← advance
    let key ← r.type
    skip "]"
    skip ":"
    let type ← r.type
    some <$> build start (.indexSignature · key type)
  else some <$> r.namedMember start

/-- Passes over the separators after a member. -/
def skipMemberEnds : Nat → Parser Unit
  | 0 => throw .outOfFuel
  | n + 1 => do
    if ← seesAny [";", ","] then
      let _ ← advance
      skipMemberEnds n

/-- The braced members of a type. -/
def typeMembers (r : Rules) : Parser (List Node) := do
  skip "\x7b"
  let member : Parser (Option Node) := do
    let m ← r.typeMember
    skipMemberEnds r.bound
    return m
  let members ← itemsUntil ["\x7d"] member r.bound
  skip "\x7d"
  return members.filterMap fun m => m

/-- An object type. -/
def typeLiteral (r : Rules) : Parser Node := do
  let start := (← current).span
  if ← seesMappedType then
    skipBalanced r.bound "\x7b" "\x7d"
    build start (.keywordType · "any")
  else
    let members ← r.typeMembers
    build start (.typeLiteral · members)

/-! ## Primary types -/

/-- An element of a tuple type, without its label. -/
def tupleElement (r : Rules) : Parser Node := do
  let _ ← accept "..."
  let t ← current
  let next ← peek 1
  if t.kind == .ident && (next.text == ":" || (next.text == "?" && (← peek 2).text == ":")) then
    let _ ← advance
    let _ ← accept "?"
    skip ":"
  let type ← r.type
  let _ ← accept "?"
  return type

/-- A tuple type. -/
def tupleType (r : Rules) : Parser Node := do
  let start := (← expect "[").span
  let elements ← commaUntil "]" r.tupleElement r.bound
  skip "]"
  build start (.tupleType · elements)

/-- Type arguments in angle brackets. -/
def typeArguments (r : Rules) : Parser (List Node) := do
  skip "<"
  let args ← commaList r.type r.bound
  closeAngle
  return args

/-- The accesses after the name in a type query. -/
def queryAccesses (start : Span) : Nat → Node → Parser Node
  | 0, _ => throw .outOfFuel
  | n + 1, e => do
    if ← accept "." then
      let name ← word
      queryAccesses start n (← build start (.propertyAccess · e name false))
    else return e

/-- The further parts of a qualified type name. -/
def qualifiers : Nat → String → Parser String
  | 0, _ => throw .outOfFuel
  | n + 1, name => do
    if ← accept "." then
      let part ← word
      qualifiers n (name ++ "." ++ part.name)
    else return name

/-- A type without operators around it. -/
def primaryType (r : Rules) : Parser Node := do
  let t ← current
  if t.kind == .string then buildAt (← advance) (.literalType · (.str t.text))
  else if t.kind == .number then
    let _ ← advance
    let x ← literalNumber t.text
    buildAt t (.literalType · (.num x))
  else if t.isAny ["-"] && (← peek 1).kind == .number then
    let _ ← advance
    let digits ← advance
    let mark ← markFrom t.span
    return .literalType mark (.num (← literalNumber digits.text).neg)
  else if t.isAny ["true", "false"] then
    buildAt (← advance) (.literalType · (.bool (t.text == "true")))
  else if t.kind == .template then buildAt (← advance) (.keywordType · "string")
  else if t.isAny ["\x7b"] then r.typeLiteral
  else if t.isAny ["["] then r.tupleType
  else if t.isAny ["("] then
    let _ ← advance
    let inner ← r.type
    skip ")"
    return inner
  else if t.isAny ["typeof"] then
    let _ ← advance
    let e ← queryAccesses t.span r.bound (.ident (← identifier))
    build t.span (.typeQuery · e)
  else if t.isAny ["this"] then buildAt (← advance) (.keywordType · "any")
  else if t.kind == .ident && typeWords.contains t.text && (← peek 1).text != "." then
    buildAt (← advance) (.keywordType · t.text)
  else if t.kind == .ident then
    let _ ← advance
    let name ← qualifiers r.bound t.text
    let args ← if (← sees "<") && !(← current).newlineBefore then r.typeArguments else pure []
    build t.span (.typeReference · name args)
  else failAt t (.expectedType t.describe)

/-! ## Operators on types -/

/-- The brackets after a type: arrays and indexed accesses. -/
def typeSuffixes (r : Rules) (start : Span) : Nat → Node → Parser Node
  | 0, _ => throw .outOfFuel
  | n + 1, type => do
    if (← sees "[") && !(← current).newlineBefore then
      let _ ← advance
      if ← accept "]" then
        typeSuffixes r start n (← build start (.arrayType · type))
      else
        let index ← r.type
        skip "]"
        typeSuffixes r start n (← build start (.indexedAccess · type index))
    else return type

/-- A type with an operator word before it, or with brackets after it. -/
def operatorType (r : Rules) : Parser Node := do
  let t ← current
  if t.isAny ["keyof", "readonly", "unique"] &&
      !(← peek 1).reads [")", ",", ";", "]", "=", ">", "|", "&"] then
    let _ ← advance
    let inner ← r.typeOperator
    build t.span (.typeOperator · t.text inner)
  else r.typeSuffixes t.span r.bound (← r.primaryType)

/-- The further members of a union or intersection. -/
def joinedTypes (joiner : String) (item : Parser Node) : Nat → Parser (List Node)
  | 0 => throw .outOfFuel
  | n + 1 => do
    if ← accept joiner then
      let x ← item
      return x :: (← joinedTypes joiner item n)
    else return []

/-- Types joined by an operator, which may also stand before the first; one alone is itself. -/
def joined (r : Rules) (joiner : String) (f : Mark → List Node → Node) (item : Parser Node) :
    Parser Node := do
  let start := (← current).span
  let _ ← accept joiner
  let first ← item
  let more ← joinedTypes joiner item r.bound
  if more.isEmpty then return first
  else build start (f · (first :: more))

/-- Intersections. -/
def intersectionType (r : Rules) : Parser Node :=
  r.joined "&" .intersectionType r.operatorType

/-- Unions. -/
def unionType (r : Rules) : Parser Node :=
  r.joined "|" .unionType r.intersectionType

/-- The parameters of a function type, up to its arrow. -/
def functionTypeHead (r : Rules) : Parser (List Node) := do
  let _ ← r.typeParameters?
  let params ← r.parameters
  if !(← sees "=>") then fail (.missing "=>")
  return params

/-- A construct type or a union. -/
def constructOrUnion (r : Rules) : Parser Node := do
  let t ← current
  if t.isAny ["new"] || (t.isAny ["abstract"] && (← peek 1).text == "new") then
    let _ ← accept "abstract"
    let _ ← advance
    let params ← r.functionTypeHead
    skip "=>"
    let result ← r.type
    build t.span (.functionType · params result)
  else r.unionType

/-- Any type. A parenthesis opens a function type if an arrow follows the parameters. -/
def anyType (r : Rules) : Parser Node := do
  let t ← current
  if t.isAny ["(", "<"] then
    match ← speculate r.functionTypeHead with
    | some params =>
      skip "=>"
      let result ← r.resultType
      build t.span (.functionType · params result)
    | none => r.constructOrUnion
  else r.constructOrUnion

end ScriptBridge.TypeScript.Rules
