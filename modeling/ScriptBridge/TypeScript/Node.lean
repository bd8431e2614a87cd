import ScriptBridge.Number.Double
import ScriptBridge.TypeScript.Token

/-!
# TypeScript trees

`Node` is the tree of a TypeScript program as written: types, expressions, patterns and statements.
Every node carries a `Mark`, its place in the text and a number that no other node has, by which later
stages attach what they find out about it.

* `Ident`, `Modifier`, `Node`, `SourceFile`: the tree.
* `Node.kind`: the name of a node's form.
* `Node.children`: the nodes directly inside, in the order of their fields.
-/

namespace ScriptBridge.TypeScript

/-- The identity and the place of a node. -/
structure Mark where
  id : Nat
  span : Span
deriving DecidableEq, Repr, Inhabited

/-- A name in any position. -/
structure Ident where
  mark : Mark
  name : String
deriving DecidableEq, Repr, Inhabited

/-- A word before a declaration. -/
structure Modifier where
  mark : Mark
  word : String
deriving DecidableEq, Repr, Inhabited

/-- The value of a literal type. -/
inductive LiteralValue where
  | str (value : String)
  | num (value : Double)
  | bool (value : Bool)
deriving DecidableEq, Repr

/-- The flavours of a method of an object literal. -/
inductive MethodKind where
  | method
  | getter
  | setter
deriving DecidableEq, Repr

/-- A form of the language. -/
inductive Node where
  -- Types
  | keywordType (mark : Mark) (name : String)
  | typeReference (mark : Mark) (name : String) (args : List Node)
  | arrayType (mark : Mark) (element : Node)
  | tupleType (mark : Mark) (elements : List Node)
  | unionType (mark : Mark) (types : List Node)
  | intersectionType (mark : Mark) (types : List Node)
  | functionType (mark : Mark) (params : List Node) (result : Node)
  | typeLiteral (mark : Mark) (members : List Node)
  | propertySignature (mark : Mark) (name : String) (isOptional : Bool) (type : Option Node)
  | methodSignature (mark : Mark) (name : String) (isOptional : Bool) (params : List Node)
      (result : Option Node)
  | indexSignature (mark : Mark) (key : Node) (type : Node)
  | literalType (mark : Mark) (value : LiteralValue)
  | typeOperator (mark : Mark) (operator : String) (type : Node)
  | indexedAccess (mark : Mark) (object : Node) (index : Node)
  | typeQuery (mark : Mark) (expression : Node)
  | typeParameter (mark : Mark) (name : Ident) (bound : Option Node) (fallback : Option Node)
  -- Expressions
  | ident (ident : Ident)
  | number (mark : Mark) (text : String)
  | string (mark : Mark) (value : String)
  | plainTemplate (mark : Mark) (text : String)
  | templateSpan (mark : Mark) (expression : Node) (literal : String)
  | template (mark : Mark) (head : String) (spans : List Node)
  | boolean (mark : Mark) (value : Bool)
  | null (mark : Mark)
  | this (mark : Mark)
  | omitted (mark : Mark)
  | spread (mark : Mark) (expression : Node)
  | array (mark : Mark) (elements : List Node)
  | computedName (mark : Mark) (expression : Node)
  | property (mark : Mark) (name : Node) (value : Node)
  | shorthand (mark : Mark) (name : Ident) (fallback : Option Node)
  | spreadProperty (mark : Mark) (expression : Node)
  | method (mark : Mark) (name : Node) (params : List Node) (body : Node) (result : Option Node)
      (kind : MethodKind) (isAsync isGenerator : Bool)
  | object (mark : Mark) (properties : List Node)
  | parenthesized (mark : Mark) (expression : Node)
  | call (mark : Mark) (callee : Node) (args : List Node) (isOptional : Bool)
  | construct (mark : Mark) (callee : Node) (args : List Node)
  | propertyAccess (mark : Mark) (target : Node) (name : Ident) (isOptional : Bool)
  | elementAccess (mark : Mark) (target : Node) (key : Node) (isOptional : Bool)
  | prefixUnary (mark : Mark) (operator : String) (operand : Node)
  | postfixUnary (mark : Mark) (operand : Node) (operator : String)
  | binary (mark : Mark) (left : Node) (operator : String) (right : Node)
  | conditional (mark : Mark) (test : Node) (whenTrue : Node) (whenFalse : Node)
  | arrow (mark : Mark) (params : List Node) (body : Node) (result : Option Node)
      (typeParams : List Node) (isAsync : Bool)
  | function (mark : Mark) (name : Option Ident) (params : List Node) (body : Node)
      (result : Option Node) (typeParams : List Node) (isAsync isGenerator : Bool)
  | asType (mark : Mark) (expression : Node) (type : Node)
  | satisfiesType (mark : Mark) (expression : Node) (type : Node)
  | nonNull (mark : Mark) (expression : Node)
  | typeOf (mark : Mark) (expression : Node)
  | voidOf (mark : Mark) (expression : Node)
  | deleteOf (mark : Mark) (expression : Node)
  | awaitOf (mark : Mark) (expression : Node)
  -- Patterns and parameters
  | bindingElement (mark : Mark) (key : Option Node) (target : Node) (fallback : Option Node)
      (isRest : Bool)
  | objectPattern (mark : Mark) (elements : List Node)
  | arrayPattern (mark : Mark) (elements : List Node)
  | parameter (mark : Mark) (target : Node) (type : Option Node) (fallback : Option Node)
      (isOptional isRest : Bool)
  -- Statements
  | block (mark : Mark) (statements : List Node)
  | empty (mark : Mark)
  | expressionStatement (mark : Mark) (expression : Node)
  | variableDeclaration (mark : Mark) (target : Node) (type : Option Node) (value : Option Node)
  | variableList (mark : Mark) (keyword : String) (declarations : List Node)
  | variableStatement (mark : Mark) (modifiers : List Modifier) (declarations : Node)
  | functionDeclaration (mark : Mark) (modifiers : List Modifier) (name : Option Ident)
      (params : List Node) (body : Option Node) (result : Option Node) (typeParams : List Node)
      (isAsync isGenerator : Bool)
  | classDeclaration (mark : Mark) (modifiers : List Modifier) (name : Option Ident)
  | enumMember (mark : Mark) (name : Node) (value : Option Node)
  | enumDeclaration (mark : Mark) (modifiers : List Modifier) (name : Ident) (members : List Node)
  | interfaceDeclaration (mark : Mark) (modifiers : List Modifier) (name : Ident)
      (typeParams : List Node) (heritage : List Node) (members : List Node)
  | typeAlias (mark : Mark) (modifiers : List Modifier) (name : Ident) (typeParams : List Node)
      (type : Node)
  | moduleDeclaration (mark : Mark) (modifiers : List Modifier) (name : Ident)
      (statements : List Node)
  | importSpecifier (mark : Mark) (imported : Option Ident) (name : Ident) (isTypeOnly : Bool)
  | importClause (mark : Mark) (name : Option Ident) (allAs : Option Ident)
      (elements : Option (List Node)) (isTypeOnly : Bool)
  | importDeclaration (mark : Mark) (clause : Option Node) (specifierMark : Mark)
      (specifier : String)
  | exportSpecifier (mark : Mark) (localName : Option Ident) (name : Ident)
  | exportDeclaration (mark : Mark) (elements : Option (List Node))
      (specifier : Option (Mark × String)) (isTypeOnly : Bool)
  | exportAssignment (mark : Mark) (expression : Node) (isDefault : Bool)
  | ifStatement (mark : Mark) (test : Node) (body : Node) (otherwise : Option Node)
  | doStatement (mark : Mark) (body : Node) (test : Node)
  | whileStatement (mark : Mark) (test : Node) (body : Node)
  | forStatement (mark : Mark) (start : Option Node) (test : Option Node) (advance : Option Node)
      (body : Node)
  | forOfStatement (mark : Mark) (target : Node) (items : Node) (body : Node) (isAwait : Bool)
  | forInStatement (mark : Mark) (target : Node) (items : Node) (body : Node)
  | continueStatement (mark : Mark) (label : Option Ident)
  | breakStatement (mark : Mark) (label : Option Ident)
  | returnStatement (mark : Mark) (value : Option Node)
  | caseClause (mark : Mark) (test : Node) (statements : List Node)
  | defaultClause (mark : Mark) (statements : List Node)
  | switchStatement (mark : Mark) (subject : Node) (clauses : List Node)
  | throwStatement (mark : Mark) (value : Node)
  | catchClause (mark : Mark) (binding : Option Node) (body : Node)
  | tryStatement (mark : Mark) (body : Node) (handler : Option Node) (final : Option Node)
  | labeled (mark : Mark) (label : Ident) (statement : Node)
  | modifier (modifier : Modifier)

instance : Inhabited Node := ⟨.empty default⟩

/-- A parsed file. -/
structure SourceFile where
  fileName : String
  text : String
  span : Span
  statements : List Node
deriving Inhabited

namespace Node

/-- The identity and place of a node. -/
def mark : Node → Mark
  | keywordType m _ | typeReference m _ _ | arrayType m _ | tupleType m _ | unionType m _
  | intersectionType m _ | functionType m _ _ | typeLiteral m _ | propertySignature m _ _ _
  | methodSignature m _ _ _ _ | indexSignature m _ _ | literalType m _ | typeOperator m _ _
  | indexedAccess m _ _ | typeQuery m _ | typeParameter m _ _ _ | ident ⟨m, _⟩ | number m _
  | string m _ | plainTemplate m _ | templateSpan m _ _ | template m _ _ | boolean m _ | null m
  | this m | omitted m | spread m _ | array m _ | computedName m _ | property m _ _
  | shorthand m _ _ | spreadProperty m _ | method m _ _ _ _ _ _ _ | object m _
  | parenthesized m _ | call m _ _ _ | construct m _ _ | propertyAccess m _ _ _
  | elementAccess m _ _ _ | prefixUnary m _ _ | postfixUnary m _ _ | binary m _ _ _
  | conditional m _ _ _ | arrow m _ _ _ _ _ | function m _ _ _ _ _ _ _ | asType m _ _
  | satisfiesType m _ _ | nonNull m _ | typeOf m _ | voidOf m _ | deleteOf m _ | awaitOf m _
  | bindingElement m _ _ _ _ | objectPattern m _ | arrayPattern m _ | parameter m _ _ _ _ _
  | block m _ | empty m | expressionStatement m _ | variableDeclaration m _ _ _
  | variableList m _ _ | variableStatement m _ _ | functionDeclaration m _ _ _ _ _ _ _ _
  | classDeclaration m _ _ | enumMember m _ _ | enumDeclaration m _ _ _
  | interfaceDeclaration m _ _ _ _ _ | typeAlias m _ _ _ _ | moduleDeclaration m _ _ _
  | importSpecifier m _ _ _ | importClause m _ _ _ _ | importDeclaration m _ _ _
  | exportSpecifier m _ _ | exportDeclaration m _ _ _ | exportAssignment m _ _
  | ifStatement m _ _ _ | doStatement m _ _ | whileStatement m _ _ | forStatement m _ _ _ _
  | forOfStatement m _ _ _ _ | forInStatement m _ _ _ | continueStatement m _
  | breakStatement m _ | returnStatement m _ | caseClause m _ _ | defaultClause m _
  | switchStatement m _ _ | throwStatement m _ | catchClause m _ _ | tryStatement m _ _ _
  | labeled m _ _ | modifier ⟨m, _⟩ => m

/-- The place of a node. -/
def span (n : Node) : Span :=
  n.mark.span

/-- The identity of a node. -/
def id (n : Node) : Nat :=
  n.mark.id

/-- The name of a node's form. -/
def kind : Node → String
  | keywordType .. => "KeywordType"
  | typeReference .. => "TypeReference"
  | arrayType .. => "ArrayType"
  | tupleType .. => "TupleType"
  | unionType .. => "UnionType"
  | intersectionType .. => "IntersectionType"
  | functionType .. => "FunctionType"
  | typeLiteral .. => "TypeLiteral"
  | propertySignature .. => "PropertySignature"
  | methodSignature .. => "MethodSignature"
  | indexSignature .. => "IndexSignature"
  | literalType .. => "LiteralType"
  | typeOperator .. => "TypeOperator"
  | indexedAccess .. => "IndexedAccessType"
  | typeQuery .. => "TypeQuery"
  | typeParameter .. => "TypeParameter"
  | ident .. => "Identifier"
  | number .. => "NumericLiteral"
  | string .. => "StringLiteral"
  | plainTemplate .. => "NoSubstitutionTemplateLiteral"
  | templateSpan .. => "TemplateSpan"
  | template .. => "TemplateExpression"
  | boolean .. => "BooleanLiteral"
  | null .. => "NullLiteral"
  | this .. => "ThisExpression"
  | omitted .. => "OmittedExpression"
  | spread .. => "SpreadElement"
  | array .. => "ArrayLiteralExpression"
  | computedName .. => "ComputedPropertyName"
  | property .. => "PropertyAssignment"
  | shorthand .. => "ShorthandPropertyAssignment"
  | spreadProperty .. => "SpreadAssignment"
  | method .. => "MethodDeclaration"
  | object .. => "ObjectLiteralExpression"
  | parenthesized .. => "ParenthesizedExpression"
  | call .. => "CallExpression"
  | construct .. => "NewExpression"
  | propertyAccess .. => "PropertyAccessExpression"
  | elementAccess .. => "ElementAccessExpression"
  | prefixUnary .. => "PrefixUnaryExpression"
  | postfixUnary .. => "PostfixUnaryExpression"
  | binary .. => "BinaryExpression"
  | conditional .. => "ConditionalExpression"
  | arrow .. => "ArrowFunction"
  | function .. => "FunctionExpression"
  | asType .. => "AsExpression"
  | satisfiesType .. => "SatisfiesExpression"
  | nonNull .. => "NonNullExpression"
  | typeOf .. => "TypeOfExpression"
  | voidOf .. => "VoidExpression"
  | deleteOf .. => "DeleteExpression"
  | awaitOf .. => "AwaitExpression"
  | bindingElement .. => "BindingElement"
  | objectPattern .. => "ObjectBindingPattern"
  | arrayPattern .. => "ArrayBindingPattern"
  | parameter .. => "Parameter"
  | block .. => "Block"
  | empty .. => "EmptyStatement"
  | expressionStatement .. => "ExpressionStatement"
  | variableDeclaration .. => "VariableDeclaration"
  | variableList .. => "VariableDeclarationList"
  | variableStatement .. => "VariableStatement"
  | functionDeclaration .. => "FunctionDeclaration"
  | classDeclaration .. => "ClassDeclaration"
  | enumMember .. => "EnumMember"
  | enumDeclaration .. => "EnumDeclaration"
  | interfaceDeclaration .. => "InterfaceDeclaration"
  | typeAlias .. => "TypeAliasDeclaration"
  | moduleDeclaration .. => "ModuleDeclaration"
  | importSpecifier .. => "ImportSpecifier"
  | importClause .. => "ImportClause"
  | importDeclaration .. => "ImportDeclaration"
  | exportSpecifier .. => "ExportSpecifier"
  | exportDeclaration .. => "ExportDeclaration"
  | exportAssignment .. => "ExportAssignment"
  | ifStatement .. => "IfStatement"
  | doStatement .. => "DoStatement"
  | whileStatement .. => "WhileStatement"
  | forStatement .. => "ForStatement"
  | forOfStatement .. => "ForOfStatement"
  | forInStatement .. => "ForInStatement"
  | continueStatement .. => "ContinueStatement"
  | breakStatement .. => "BreakStatement"
  | returnStatement .. => "ReturnStatement"
  | caseClause .. => "CaseClause"
  | defaultClause .. => "DefaultClause"
  | switchStatement .. => "SwitchStatement"
  | throwStatement .. => "ThrowStatement"
  | catchClause .. => "CatchClause"
  | tryStatement .. => "TryStatement"
  | labeled .. => "LabeledStatement"
  | modifier .. => "Modifier"

/-- The words before a declaration. -/
def modifiers : Node → List Modifier
  | variableStatement _ ms _ | functionDeclaration _ ms _ _ _ _ _ _ _ | classDeclaration _ ms _
  | enumDeclaration _ ms _ _ | interfaceDeclaration _ ms _ _ _ _ | typeAlias _ ms _ _ _
  | moduleDeclaration _ ms _ _ => ms
  | _ => []

/-- The same declaration with other words before it. -/
def setModifiers (ms : List Modifier) : Node → Node
  | variableStatement m _ l => variableStatement m ms l
  | functionDeclaration m _ n ps b r tps a g => functionDeclaration m ms n ps b r tps a g
  | classDeclaration m _ n => classDeclaration m ms n
  | enumDeclaration m _ n es => enumDeclaration m ms n es
  | interfaceDeclaration m _ n tps hs es => interfaceDeclaration m ms n tps hs es
  | typeAlias m _ n tps t => typeAlias m ms n tps t
  | moduleDeclaration m _ n ss => moduleDeclaration m ms n ss
  | n => n

/-- An expression without the parentheses around it. -/
def unwrap : Node → Node
  | parenthesized _ e => unwrap e
  | e => e

/-- The nodes directly inside a node, in the order of its fields. -/
def children : Node → List Node
  | typeReference _ _ args => args
  | arrayType _ e => [e]
  | tupleType _ es => es
  | unionType _ ts => ts
  | intersectionType _ ts => ts
  | functionType _ ps r => ps ++ [r]
  | typeLiteral _ ms => ms
  | propertySignature _ _ _ t => t.toList
  | methodSignature _ _ _ ps r => ps ++ r.toList
  | indexSignature _ k t => [k, t]
  | typeOperator _ _ t => [t]
  | indexedAccess _ o i => [o, i]
  | typeQuery _ e => [e]
  | typeParameter _ n b d => ident n :: b.toList ++ d.toList
  | templateSpan _ e _ => [e]
  | template _ _ ss => ss
  | spread _ e => [e]
  | array _ es => es
  | computedName _ e => [e]
  | property _ n v => [n, v]
  | shorthand _ n d => ident n :: d.toList
  | spreadProperty _ e => [e]
  | method _ n ps b r _ _ _ => n :: ps ++ b :: r.toList
  | object _ ps => ps
  | parenthesized _ e => [e]
  | call _ f as _ => f :: as
  | construct _ f as => f :: as
  | propertyAccess _ t n _ => [t, ident n]
  | elementAccess _ t k _ => [t, k]
  | prefixUnary _ _ x => [x]
  | postfixUnary _ x _ => [x]
  | binary _ x _ y => [x, y]
  | conditional _ c t f => [c, t, f]
  | arrow _ ps b r tps _ => ps ++ b :: r.toList ++ tps
  | function _ n ps b r tps _ _ => n.toList.map ident ++ ps ++ b :: r.toList ++ tps
  | asType _ e t => [e, t]
  | satisfiesType _ e t => [e, t]
  | nonNull _ e => [e]
  | typeOf _ e => [e]
  | voidOf _ e => [e]
  | deleteOf _ e => [e]
  | awaitOf _ e => [e]
  | bindingElement _ k t d _ => k.toList ++ t :: d.toList
  | objectPattern _ es => es
  | arrayPattern _ es => es
  | parameter _ n t d _ _ => n :: t.toList ++ d.toList
  | block _ ss => ss
  | expressionStatement _ e => [e]
  | variableDeclaration _ n t v => n :: t.toList ++ v.toList
  | variableList _ _ ds => ds
  | variableStatement _ ms l => ms.map modifier ++ [l]
  | functionDeclaration _ ms n ps b r tps _ _ =>
    ms.map modifier ++ n.toList.map ident ++ ps ++ b.toList ++ r.toList ++ tps
  | classDeclaration _ ms n => ms.map modifier ++ n.toList.map ident
  | enumMember _ n v => n :: v.toList
  | enumDeclaration _ ms n es => ms.map modifier ++ ident n :: es
  | interfaceDeclaration _ ms n tps hs es => ms.map modifier ++ ident n :: tps ++ hs ++ es
  | typeAlias _ ms n tps t => ms.map modifier ++ ident n :: tps ++ [t]
  | moduleDeclaration _ ms n ss => ms.map modifier ++ ident n :: ss
  | importSpecifier _ i n _ => i.toList.map ident ++ [ident n]
  | importClause _ n a es _ => n.toList.map ident ++ a.toList.map ident ++ es.getD []
  | importDeclaration _ c sm s => c.toList ++ [string sm s]
  | exportSpecifier _ l n => l.toList.map ident ++ [ident n]
  | exportDeclaration _ es s _ => es.getD [] ++ s.toList.map fun (m, v) => string m v
  | exportAssignment _ e _ => [e]
  | ifStatement _ c b e => c :: b :: e.toList
  | doStatement _ b c => [b, c]
  | whileStatement _ c b => [c, b]
  | forStatement _ s c a b => s.toList ++ c.toList ++ a.toList ++ [b]
  | forOfStatement _ t i b _ => [t, i, b]
  | forInStatement _ t i b => [t, i, b]
  | continueStatement _ l => l.toList.map ident
  | breakStatement _ l => l.toList.map ident
  | returnStatement _ v => v.toList
  | caseClause _ c ss => c :: ss
  | defaultClause _ ss => ss
  | switchStatement _ s cs => s :: cs
  | throwStatement _ v => [v]
  | catchClause _ v b => v.toList ++ [b]
  | tryStatement _ b h f => b :: h.toList ++ f.toList
  | labeled _ l s => [ident l, s]
  | keywordType .. | literalType .. | ident .. | number .. | string .. | plainTemplate ..
  | boolean .. | null .. | this .. | omitted .. | empty .. | modifier .. => []

end Node

/-- Whether a declaration has the given word before it. -/
def hasModifier (modifiers : List Modifier) (word : String) : Bool :=
  modifiers.any (·.word == word)

end ScriptBridge.TypeScript
