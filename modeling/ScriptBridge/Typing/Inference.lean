import ScriptBridge.TypeScript.PropertyKey
import ScriptBridge.Typing.Written

/-!
# Types from values

The types of expressions and of declared values. Annotations win; else the type comes from the value a
variable starts with or from what a function returns. What cannot be seen through is `any`.

* `inferExpression`: the type of an expression.
* `inferSymbol`: the type of a declared value.
-/

namespace ScriptBridge.Typing

open ScriptBridge.Binding ScriptBridge.TypeScript

/-! ## Operators -/

/-- Operators whose result is a number. -/
def arithmeticOperators : List String :=
  ["-", "*", "/", "%", "**", "|", "&", "^", "<<", ">>", ">>>", "-=", "*=", "/=", "%=", "**=", "|=",
    "&=", "^=", "<<=", ">>=", ">>>="]

/-- Operators whose result is a truth value. -/
def comparisonOperators : List String :=
  ["==", "!=", "===", "!==", "<", ">", "<=", ">=", "in", "instanceof"]

/-- Whether adding a value of a type gives a string. -/
def makesString (t : Ty) : Bool :=
  t.fits .string && !t.isNever && !t.isNullish

/-- The type of a sum. -/
def sumType (left right : Ty) : Ty :=
  if left.isAny || right.isAny then .any
  else if makesString left || makesString right then .primitive .string
  else if left.fits .number && right.fits .number then .primitive .number
  else .any

/-- The type of an operation from those of its operands. -/
def combinedType (operator : String) (left right : Ty) : TypeM Ty := do
  match operator with
  | "+" | "+=" => return sumType left right
  | "&&" | "&&=" =>
    if left.isBoolean && right.isBoolean then return .primitive .boolean
    else join [left, right]
  | "||" | "||=" | "??" | "??=" => do join [← withoutNullish left, right]
  | _ => return .any

/-- The type of an operation on two operands. -/
def binaryType (ask : Asker) (left : Node) (operator : String) (right : Node) : TypeM Ty := do
  if operator == "=" || operator == "," then ask (.expression right)
  else if comparisonOperators.contains operator then return .primitive .boolean
  else if arithmeticOperators.contains operator then return .primitive .number
  else
    let leftType ← ask (.expression left)
    let rightType ← ask (.expression right)
    combinedType operator leftType rightType

/-- The type of an operation before its operand. -/
def prefixType (operator : String) (operand : Node) : TypeM Ty := do
  if operator == "!" then return .primitive .boolean
  match operand with
  | .number _ text =>
    if operator == "-" then return .numberLiteral (← orNumeralFault (numericValue text)).neg
    else if operator == "+" then return .numberLiteral (← orNumeralFault (numericValue text))
    else return .primitive .number
  | _ => return .primitive .number

/-! ## Names and access -/

/-- The type of a name. -/
def identType (ask : Asker) (i : Ident) : TypeM Ty := do
  match (← read).bindings.symbolOf? i.mark.id with
  | some id => ask (.symbol id)
  | none =>
    return match i.name with
      | "undefined" => .primitive .undefined
      | "NaN" | "Infinity" => .primitive .number
      | _ => .any

/-- The index that a number stands for: a whole number that is not negative. -/
def indexOf? (x : Double) : Option Nat :=
  if x.negative && !x.isZero then none else x.natAbs?

/-- The type of an access with a key in brackets. -/
def elementAccessType (ask : Asker) (target key : Node) : TypeM Ty := do
  let targetType ← ask (.expression target)
  let keyType ← ask (.expression key)
  let byIndex : TypeM Ty := do
    match ← membersOf? ask targetType with
    | some (_, index) => return index.getD .any
    | none =>
      match keyType with
      | .numberLiteral x => elementOf (indexOf? x) targetType
      | _ => elementOf none targetType
  match keyType, targetType with
  | .textLiteral name, .record .. | .textLiteral name, .declared ..
  | .textLiteral name, .union _ => propertyOf ask name targetType
  | _, _ => byIndex

/-! ## Literals -/

/-- The type of an element of an array literal. -/
def arrayItemType (ask : Asker) : Node → TypeM Ty
  | .spread _ e => do elementOf none (← ask (.expression e))
  | e => do widened (← ask (.expression e))

/-- The type of an array literal. -/
def arrayLiteralType (ask : Asker) : List Node → TypeM Ty
  | [] => return .array .any
  | elements => do return .array (← join (← elements.mapM (arrayItemType ask)))

/-- Adds the properties that the parts of an object literal have. -/
def literalProperties (ask : Asker) : List (String × Ty) → List Node → TypeM (List (String × Ty))
  | table, [] => return table
  | table, .property _ name value :: rest => do
    match ← orNumeralFault (propertyKey? name) with
    | some key =>
      let t ← widened (← ask (.expression value))
      literalProperties ask (Assoc.set key t table) rest
    | none => literalProperties ask table rest
  | table, .shorthand _ name _ :: rest => do
    let t ← widened (← ask (.expression (.ident name)))
    literalProperties ask (Assoc.set name.name t table) rest
  | table, .method _ name params body result _ _ _ :: rest => do
    match ← orNumeralFault (propertyKey? name) with
    | some key =>
      let t ← signature ask [] params result (some body)
      literalProperties ask (Assoc.set key t table) rest
    | none => literalProperties ask table rest
  | table, .spreadProperty _ e :: rest => do
    match ← membersOf? ask (← ask (.expression e)) with
    | some (more, _) => literalProperties ask (mergeProperties table more) rest
    | none => literalProperties ask table rest
  | table, _ :: rest => literalProperties ask table rest

/-! ## Expressions and symbols -/

/-- The type of an expression, not looked up. -/
def inferExpression (ask : Asker) : Node → TypeM Ty
  | .number _ text => do return .numberLiteral (← orNumeralFault (numericValue text))
  | .string _ value => return .textLiteral value
  | .plainTemplate _ text => return .textLiteral text
  | .template .. | .typeOf .. => return .primitive .string
  | .boolean _ value => return .truthLiteral value
  | .null _ => return .primitive .null
  | .ident i => identType ask i
  | .parenthesized _ e | .satisfiesType _ e _ | .awaitOf _ e | .spread _ e => ask (.expression e)
  | .asType _ e (.typeReference m name args) =>
    if name == "const" then ask (.expression e)
    else ask (.written [] (.typeReference m name args))
  | .asType _ _ type => ask (.written [] type)
  | .nonNull _ e => do withoutNullish (← ask (.expression e))
  | .voidOf .. => return .primitive .undefined
  | .deleteOf .. => return .primitive .boolean
  | .prefixUnary _ operator operand => prefixType operator operand
  | .postfixUnary .. => return .primitive .number
  | .binary _ left operator right => binaryType ask left operator right
  | .conditional _ _ whenTrue whenFalse => do
    let first ← ask (.expression whenTrue)
    join [first, ← ask (.expression whenFalse)]
  | .call _ callee _ _ => do resultOf (← ask (.expression callee))
  | .propertyAccess _ target name _ => do propertyOf ask name.name (← ask (.expression target))
  | .elementAccess _ target key _ => elementAccessType ask target key
  | .arrow _ params body result _ _ => signature ask [] params result (some body)
  | .function _ _ params body result _ _ _ => signature ask [] params result (some body)
  | .array _ elements => arrayLiteralType ask elements
  | .object _ properties => do newRecord (← literalProperties ask [] properties) none
  | _ => return .any

/-- The type of an expression, remembered. -/
def expressionType (ask : Asker) (e : Node) : TypeM Ty := do
  match (← get).expressions[e.id]? with
  | some t => return t
  | none =>
    let t ← inferExpression ask e
    modify fun memory => { memory with expressions := memory.expressions.insert e.id t }
    return t

/-- The type of a variable as a whole, before its pattern takes it apart. -/
def variableType (ask : Asker) (s : Symbol) (type value : Option Node) : TypeM Ty := do
  match type, s.iterated, value with
  | some type, _, _ => ask (.written [] type)
  | none, some items, _ => do elementOf none (← ask (.expression items))
  | none, none, some value =>
    let t ← ask (.expression value)
    if s.kind = .constant then return t else widened t
  | none, none, none => return .any

/-- The type of a declared value, not looked up. -/
def inferSymbol (ask : Asker) (id : SymbolId) : TypeM Ty := do
  let program ← read
  let s := program.bindings.symbol id
  match s.kind, s.declaration with
  | .imported, _ =>
    match s.target with
    | some (.file file) =>
      let name := (program.file file).source.fileName
      newDeclared ("typeof import(\"" ++ name ++ "\")") (.file file)
    | some (.symbol target) => ask (.symbol target)
    | none => return .any
  | .constant, .variableDeclaration _ _ type value
  | .changeable, .variableDeclaration _ _ type value
  | .hoisted, .variableDeclaration _ _ type value => do
    followPath ask (← variableType ask s type value) s.path
  | .parameter, .parameter _ _ type fallback _ _ => do
    followPath ask (← declaredType ask [] type fallback) s.path
  | .function, .functionDeclaration _ _ _ params body result _ _ _
  | .anonymous, .functionDeclaration _ _ _ params body result _ _ _ =>
    signature ask [] params result body
  | .space, _ => newDeclared ("typeof " ++ s.name) (.space id)
  | .anonymous, .exportAssignment _ e _ => ask (.expression e)
  | _, _ => return .any

/-- The type of a declared value, remembered. One that depends on itself is `any`. -/
def symbolType (ask : Asker) (id : SymbolId) : TypeM Ty := do
  match (← get).symbols[id]? with
  | some t => return t
  | none =>
    if ← isResolving id then return .any
    let t ← whileResolving id (inferSymbol ask id)
    modify fun memory => { memory with symbols := memory.symbols.insert id t }
    return t

end ScriptBridge.Typing
