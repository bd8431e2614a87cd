import ScriptBridge.Project.ModuleFault
import ScriptBridge.TypeScript.Node
import ScriptBridge.Typing.Text

/-!
# Why a program cannot be converted

A program is refused with a `Cause` at a node of it. Causes fall into three families: constructs
without a counterpart, constructs that are used in a way that has none, and values of a wrong type.

* `Cause.message`: the wording.
* `Cause.family`: the family.
* `ConvertFault`: all the ways in which a conversion stops.
-/

namespace ScriptBridge.Conversion

open TypeScript

/-- The families of causes. -/
inductive Family where
  | unsupported
  | semantic
  | typeViolation
deriving DecidableEq, Repr

/-- Why a construct is refused. -/
inductive Cause where
  -- Constructs without a counterpart
  | noConversion (kind : String)
  | nullLiteral
  | spreadElement
  | arrayHole
  | objectSpread
  | shorthandDefault
  | computedName
  | accessor
  | asyncFunction
  | generatorFunction
  | restParameter
  | label
  | operator (operator : String)
  | assignmentAsExpression
  | keyword (word : String)
  | optionalChain
  | spreadArgument
  | space
  | reExport
  | exportAssignment
  | awaitLoop
  | keyLoop
  -- Constructs used in a way without a counterpart
  | reservedName (name : String)
  | missingInitializer
  | unnamedFunction
  | assignmentTarget
  | loopVariable
  | fallThrough
  | breakInCase
  | patternRest
  | patternDefault
  | patternKey
  | bindingPattern (kind : String)
  | assignmentPattern (kind : String)
  -- Values of a wrong type
  | conditionType (type : String)
  | iterableType (type : String)
  | arrayIndexType (type : String)
  | objectIndexType (type : String)
  | indexedType (type : String)
deriving DecidableEq, Repr

namespace Cause

/-- The family of a cause. -/
def family : Cause → Family
  | noConversion .. | nullLiteral | spreadElement | arrayHole | objectSpread | shorthandDefault
  | computedName | accessor | asyncFunction | generatorFunction | restParameter | label
  | operator .. | assignmentAsExpression | keyword .. | optionalChain | spreadArgument | space
  | reExport | exportAssignment | awaitLoop | keyLoop => .unsupported
  | reservedName .. | missingInitializer | unnamedFunction | assignmentTarget | loopVariable
  | fallThrough | breakInCase | patternRest | patternDefault | patternKey | bindingPattern ..
  | assignmentPattern .. => .semantic
  | conditionType .. | iterableType .. | arrayIndexType .. | objectIndexType .. | indexedType .. =>
    .typeViolation

/-- The wording of a cause. -/
def message : Cause → String
  | noConversion kind => "no conversion for " ++ kind
  | nullLiteral => "null is not supported, use undefined instead"
  | spreadElement => "spread elements are not supported"
  | arrayHole => "array holes are not supported"
  | objectSpread => "object spread is not supported"
  | shorthandDefault => "shorthand property defaults are not supported"
  | computedName => "computed property names are not supported"
  | accessor => "accessors are not supported"
  | asyncFunction => "async functions are not supported"
  | generatorFunction => "generator functions are not supported"
  | restParameter => "rest parameters are not supported"
  | label => "labels are not supported"
  | operator op => "operator '" ++ op ++ "' is not supported"
  | assignmentAsExpression => "assignment cannot be used as an expression"
  | keyword word => "'" ++ word ++ "' is not supported"
  | optionalChain => "optional chaining is not supported"
  | spreadArgument => "spread arguments are not supported"
  | space => "namespaces are not supported"
  | reExport => "re-exports are not supported"
  | exportAssignment => "'export =' is not supported"
  | awaitLoop => "'for await' is not supported"
  | keyLoop => "'for-in' is not supported, use for-of over Obj.keys"
  | reservedName name => "'" ++ name ++ "' is a reserved word and cannot be used as a name"
  | missingInitializer => "variable declaration requires an initializer"
  | unnamedFunction => "function declaration requires a name"
  | assignmentTarget => "invalid assignment target"
  | loopVariable => "for-of requires a single variable declaration"
  | fallThrough => "case must end in break or return"
  | breakInCase => "break inside a case body is not supported"
  | patternRest => "rest elements are not supported in destructuring"
  | patternDefault => "default values are not supported in destructuring"
  | patternKey => "computed keys are not supported in destructuring"
  | bindingPattern kind => "unsupported binding pattern " ++ kind
  | assignmentPattern kind => "unsupported destructuring target " ++ kind
  | conditionType type => "condition must be boolean, got '" ++ type ++ "'"
  | iterableType type => "for-of source must be an array, got '" ++ type ++ "'"
  | arrayIndexType type => "array index must be number, got '" ++ type ++ "'"
  | objectIndexType type => "object index must be string, got '" ++ type ++ "'"
  | indexedType type => "element access requires an array or object, got '" ++ type ++ "'"

end Cause

/-- A refused construct: why, which form, and where. -/
structure Refusal where
  cause : Cause
  /-- The name of the form of the refused node. -/
  node : String
  span : Span
  file : String
deriving DecidableEq, Repr

/-- Why a conversion stops. -/
inductive ConvertFault where
  | refused (refusal : Refusal)
  | module (fault : ModuleFault)
  /-- A numeric literal has no value. -/
  | numeral (fault : NumeralFault)
  | typing (fault : Typing.TypeFault)
  | outOfFuel
deriving DecidableEq, Repr

end ScriptBridge.Conversion
