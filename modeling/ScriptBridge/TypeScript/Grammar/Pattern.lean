import ScriptBridge.TypeScript.Grammar.State

/-!
# Names, patterns and parameters

The rules for what can be bound or declared: property names, destructuring patterns, type parameters
and parameter lists.
-/

namespace ScriptBridge.TypeScript.Rules

open ScriptBridge.TypeScript.Parser

/-- A property name: a word, a string, a number or a bracketed expression. -/
def propertyName (r : Rules) : Parser Node := do
  let t ← current
  if t.kind == .string then buildAt (← advance) (.string · t.text)
  else if t.kind == .number then buildAt (← advance) (.number · t.text)
  else if t.isAny ["["] then
    let _ ← advance
    let e ← withIn r.assignment
    skip "]"
    build t.span (.computedName · e)
  else return .ident (← word)

/-- A default value after `=`, if there is one. -/
def fallback (r : Rules) : Parser (Option Node) := do
  if ← accept "=" then some <$> withIn r.assignment else return none

/-- An element of an object pattern. -/
def objectElement (r : Rules) : Parser Node := do
  let start := (← current).span
  if ← accept "..." then
    let name ← identifier
    build start (.bindingElement · none (.ident name) none true)
  else
    let key ← r.propertyName
    let (key, target) ←
      if ← accept ":" then
        pure (some key, ← r.bindingName)
      else
        match key with
        | .ident i =>
          if reservedWords.contains i.name then failSpan key.span .missingColon
          else pure (none, key)
        | _ => failSpan key.span .missingColon
    let value ← r.fallback
    build start (.bindingElement · key target value false)

/-- An object pattern. -/
def objectPattern (r : Rules) : Parser Node := do
  let start := (← expect "\x7b").span
  let elements ← commaUntil "\x7d" r.objectElement r.bound
  skip "\x7d"
  build start (.objectPattern · elements)

/-- The elements of an array pattern; a comma on its own is a hole. -/
def arrayElements (r : Rules) : Nat → Parser (List Node)
  | 0 => throw .outOfFuel
  | n + 1 => do
    if ← sees "]" then return []
    let t ← current
    if ← accept "," then
      let hole ← buildAt t .omitted
      return hole :: (← arrayElements r n)
    let isRest ← accept "..."
    let target ← r.bindingName
    let value ← r.fallback
    let element ← build t.span (.bindingElement · none target value isRest)
    if ← accept "," then return element :: (← arrayElements r n)
    else return [element]

/-- An array pattern. -/
def arrayPattern (r : Rules) : Parser Node := do
  let start := (← expect "[").span
  let elements ← r.arrayElements r.bound
  skip "]"
  build start (.arrayPattern · elements)

/-- What a declaration binds: a name or a pattern. -/
def binding (r : Rules) : Parser Node := do
  if ← sees "\x7b" then r.objectPattern
  else if ← sees "[" then r.arrayPattern
  else return .ident (← identifier)

/-- A type after a colon, if there is one. -/
def annotation? (r : Rules) : Parser (Option Node) := do
  if ← accept ":" then some <$> r.type else return none

/-- Passes over the words that can stand before a parameter. -/
def skipAccessWords : Nat → Parser Unit
  | 0 => throw .outOfFuel
  | n + 1 => do
    let next ← peek 1
    if (← current).reads ["public", "private", "protected", "readonly"] &&
        (next.isIdentifier || next.reads ["\x7b", "["]) then
      let _ ← advance
      skipAccessWords n

/-- A parameter. -/
def parameter (r : Rules) : Parser Node := do
  let start := (← current).span
  skipAccessWords r.bound
  let isRest ← accept "..."
  let target ← if ← sees "this" then Node.ident <$> identOf (← advance) else r.binding
  let isOptional ← accept "?"
  let type ← r.annotation?
  let value ← r.fallback
  build start (.parameter · target type value isOptional isRest)

/-- A parenthesized parameter list. -/
def parameters (r : Rules) : Parser (List Node) := do
  skip "("
  let params ← commaUntil ")" r.parameter r.bound
  skip ")"
  return params

/-- A type parameter. -/
def typeParameter (r : Rules) : Parser Node := do
  let t ← current
  if t.isAny ["const", "in", "out"] && (← peek 1).isIdentifier then
    let _ ← advance
  let name ← identifier
  let bound ← if ← accept "extends" then some <$> r.type else pure none
  let value ← if ← accept "=" then some <$> r.type else pure none
  build t.span (.typeParameter · name bound value)

/-- A list of type parameters in angle brackets. -/
def typeParameters (r : Rules) : Parser (List Node) := do
  skip "<"
  let params ← commaList r.typeParameter r.bound
  closeAngle
  return params

/-- A list of type parameters, or none. -/
def typeParameters? (r : Rules) : Parser (List Node) := do
  if ← sees "<" then r.typeParameters else return []

/-- A result type. A type predicate reads as `boolean`, an assertion as `void`. -/
def resultType (r : Rules) : Parser Node := do
  let t ← current
  let next ← peek 1
  if t.isAny ["asserts"] && (next.isIdentifier || next.text == "this") then
    let _ ← advance
    let _ ← advance
    if ← accept "is" then
      let _ ← r.type
    build t.span (.keywordType · "void")
  else if t.kind == .ident && next.text == "is" && !next.newlineBefore then
    let _ ← advance
    let _ ← advance
    let _ ← r.type
    build t.span (.keywordType · "boolean")
  else r.type

/-- A result type after a colon, if there is one. -/
def resultType? (r : Rules) : Parser (Option Node) := do
  if ← accept ":" then some <$> r.resultType else return none

/-- A braced list of statements. -/
def block (r : Rules) : Parser Node := do
  let start := (← expect "\x7b").span
  let statements ← withIn (itemsUntil ["\x7d"] r.statement r.bound)
  skip "\x7d"
  build start (.block · statements)

end ScriptBridge.TypeScript.Rules
