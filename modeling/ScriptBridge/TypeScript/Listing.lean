import ScriptBridge.Data.Tree
import ScriptBridge.TypeScript.Node

/-!
# Listing a TypeScript tree

`Node.tree` lists a node as plain data: its kind, its region and its fields by name.
-/

namespace ScriptBridge.TypeScript

/-- A region as its six numbers. -/
def Span.tree (s : Span) : Tree :=
  .list [.nat s.start, .nat s.stop, .nat s.line, .nat s.col, .nat s.endLine, .nat s.endCol]

/-- A listing of a node: kind, region, fields. -/
def nodeTree (kind : String) (m : Mark) (fields : List (String × Tree)) : Tree :=
  .record (("kind", .str kind) :: ("span", m.span.tree) :: fields)

/-- A listing of a name. -/
def Ident.tree (i : Ident) : Tree :=
  nodeTree "Identifier" i.mark [("name", .str i.name)]

/-- A listing of a name that may be missing. -/
def identTree? : Option Ident → Tree
  | none => .null
  | some i => i.tree

/-- A listing of a modifier. -/
def Modifier.tree (m : Modifier) : Tree :=
  nodeTree "Modifier" m.mark [("decl_kind", .str m.word)]

/-- A listing of the text that names a module. -/
def specifierTree (m : Mark) (value : String) : Tree :=
  nodeTree "StringLiteral" m [("value", .str value)]

/-- A listing of a module name that may be missing. -/
def specifierTree? : Option (Mark × String) → Tree
  | none => .null
  | some (m, value) => specifierTree m value

/-- A listing of the value of a literal type. -/
def LiteralValue.tree : LiteralValue → Tree
  | str value => .str value
  | num value => .record [("num", .num value)]
  | bool value => .bool value

/-- The word for the flavour of a method. -/
def MethodKind.word : MethodKind → String
  | method => "method"
  | getter => "get"
  | setter => "set"

mutual
/-- A listing of a node. -/
def Node.tree : Node → Tree
  | .ident i => i.tree
  | .modifier m => m.tree
  | .keywordType m a => nodeTree "KeywordType" m [("name", .str a)]
  | .typeReference m a b => nodeTree "TypeReference" m
      [("name", .str a), ("args", .list (treesOf b))]
  | .arrayType m a => nodeTree "ArrayType" m [("element", Node.tree a)]
  | .tupleType m a => nodeTree "TupleType" m [("elements", .list (treesOf a))]
  | .unionType m a => nodeTree "UnionType" m [("types", .list (treesOf a))]
  | .intersectionType m a => nodeTree "IntersectionType" m [("types", .list (treesOf a))]
  | .functionType m a b => nodeTree "FunctionType" m
      [("params", .list (treesOf a)), ("return_type", Node.tree b)]
  | .typeLiteral m a => nodeTree "TypeLiteral" m [("members", .list (treesOf a))]
  | .propertySignature m a b c => nodeTree "PropertySignature" m
      [("name", .str a), ("optional", .bool b), ("type", treeOf? c)]
  | .methodSignature m a b c d => nodeTree "MethodSignature" m
      [("name", .str a), ("optional", .bool b), ("params", .list (treesOf c)),
        ("return_type", treeOf? d)]
  | .indexSignature m a b => nodeTree "IndexSignature" m
      [("key_type", Node.tree a), ("type", Node.tree b)]
  | .literalType m a => nodeTree "LiteralType" m [("value", a.tree)]
  | .typeOperator m a b => nodeTree "TypeOperator" m [("operator", .str a), ("type", Node.tree b)]
  | .indexedAccess m a b => nodeTree "IndexedAccessType" m
      [("object_type", Node.tree a), ("index_type", Node.tree b)]
  | .typeQuery m a => nodeTree "TypeQuery" m [("expression", Node.tree a)]
  | .typeParameter m a b c => nodeTree "TypeParameter" m
      [("name", a.tree), ("constraint", treeOf? b), ("default", treeOf? c)]
  | .number m a => nodeTree "NumericLiteral" m [("text", .str a)]
  | .string m a => nodeTree "StringLiteral" m [("value", .str a)]
  | .plainTemplate m a => nodeTree "NoSubstitutionTemplateLiteral" m [("text", .str a)]
  | .templateSpan m a b => nodeTree "TemplateSpan" m
      [("expression", Node.tree a), ("literal", .str b)]
  | .template m a b => nodeTree "TemplateExpression" m
      [("head", .str a), ("spans", .list (treesOf b))]
  | .boolean m a => nodeTree "BooleanLiteral" m [("value", .bool a)]
  | .null m => nodeTree "NullLiteral" m []
  | .this m => nodeTree "ThisExpression" m []
  | .omitted m => nodeTree "OmittedExpression" m []
  | .spread m a => nodeTree "SpreadElement" m [("expression", Node.tree a)]
  | .array m a => nodeTree "ArrayLiteralExpression" m [("elements", .list (treesOf a))]
  | .computedName m a => nodeTree "ComputedPropertyName" m [("expression", Node.tree a)]
  | .property m a b => nodeTree "PropertyAssignment" m
      [("name", Node.tree a), ("initializer", Node.tree b)]
  | .shorthand m a b => nodeTree "ShorthandPropertyAssignment" m
      [("name", a.tree), ("default", treeOf? b)]
  | .spreadProperty m a => nodeTree "SpreadAssignment" m [("expression", Node.tree a)]
  | .method m a b c d e f g => nodeTree "MethodDeclaration" m
      [("name", Node.tree a), ("params", .list (treesOf b)), ("body", Node.tree c),
        ("return_type", treeOf? d), ("decl_kind", .str e.word), ("is_async", .bool f),
        ("is_generator", .bool g)]
  | .object m a => nodeTree "ObjectLiteralExpression" m [("properties", .list (treesOf a))]
  | .parenthesized m a => nodeTree "ParenthesizedExpression" m [("expression", Node.tree a)]
  | .call m a b c => nodeTree "CallExpression" m
      [("expression", Node.tree a), ("arguments", .list (treesOf b)), ("optional", .bool c)]
  | .construct m a b => nodeTree "NewExpression" m
      [("expression", Node.tree a), ("arguments", .list (treesOf b))]
  | .propertyAccess m a b c => nodeTree "PropertyAccessExpression" m
      [("expression", Node.tree a), ("name", b.tree), ("optional", .bool c)]
  | .elementAccess m a b c => nodeTree "ElementAccessExpression" m
      [("expression", Node.tree a), ("argument", Node.tree b), ("optional", .bool c)]
  | .prefixUnary m a b => nodeTree "PrefixUnaryExpression" m
      [("operator", .str a), ("operand", Node.tree b)]
  | .postfixUnary m a b => nodeTree "PostfixUnaryExpression" m
      [("operand", Node.tree a), ("operator", .str b)]
  | .binary m a b c => nodeTree "BinaryExpression" m
      [("left", Node.tree a), ("operator", .str b), ("right", Node.tree c)]
  | .conditional m a b c => nodeTree "ConditionalExpression" m
      [("condition", Node.tree a), ("when_true", Node.tree b), ("when_false", Node.tree c)]
  | .arrow m a b c d e => nodeTree "ArrowFunction" m
      [("params", .list (treesOf a)), ("body", Node.tree b), ("return_type", treeOf? c),
        ("type_params", .list (treesOf d)), ("is_async", .bool e)]
  | .function m a b c d e f g => nodeTree "FunctionExpression" m
      [("name", identTree? a), ("params", .list (treesOf b)), ("body", Node.tree c),
        ("return_type", treeOf? d), ("type_params", .list (treesOf e)), ("is_async", .bool f),
        ("is_generator", .bool g)]
  | .asType m a b => nodeTree "AsExpression" m [("expression", Node.tree a), ("type", Node.tree b)]
  | .satisfiesType m a b => nodeTree "SatisfiesExpression" m
      [("expression", Node.tree a), ("type", Node.tree b)]
  | .nonNull m a => nodeTree "NonNullExpression" m [("expression", Node.tree a)]
  | .typeOf m a => nodeTree "TypeOfExpression" m [("expression", Node.tree a)]
  | .voidOf m a => nodeTree "VoidExpression" m [("expression", Node.tree a)]
  | .deleteOf m a => nodeTree "DeleteExpression" m [("expression", Node.tree a)]
  | .awaitOf m a => nodeTree "AwaitExpression" m [("expression", Node.tree a)]
  | .bindingElement m a b c d => nodeTree "BindingElement" m
      [("property_name", treeOf? a), ("name", Node.tree b), ("initializer", treeOf? c),
        ("rest", .bool d)]
  | .objectPattern m a => nodeTree "ObjectBindingPattern" m [("elements", .list (treesOf a))]
  | .arrayPattern m a => nodeTree "ArrayBindingPattern" m [("elements", .list (treesOf a))]
  | .parameter m a b c d e => nodeTree "Parameter" m
      [("name", Node.tree a), ("type", treeOf? b), ("initializer", treeOf? c),
        ("optional", .bool d), ("rest", .bool e)]
  | .block m a => nodeTree "Block" m [("statements", .list (treesOf a))]
  | .empty m => nodeTree "EmptyStatement" m []
  | .expressionStatement m a => nodeTree "ExpressionStatement" m [("expression", Node.tree a)]
  | .variableDeclaration m a b c => nodeTree "VariableDeclaration" m
      [("name", Node.tree a), ("type", treeOf? b), ("initializer", treeOf? c)]
  | .variableList m a b => nodeTree "VariableDeclarationList" m
      [("decl_kind", .str a), ("declarations", .list (treesOf b))]
  | .variableStatement m a b => nodeTree "VariableStatement" m
      [("modifiers", .list (a.map Modifier.tree)), ("declaration_list", Node.tree b)]
  | .functionDeclaration m a b c d e f g h => nodeTree "FunctionDeclaration" m
      [("modifiers", .list (a.map Modifier.tree)), ("name", identTree? b),
        ("params", .list (treesOf c)), ("body", treeOf? d), ("return_type", treeOf? e),
        ("type_params", .list (treesOf f)), ("is_async", .bool g), ("is_generator", .bool h)]
  | .classDeclaration m a b => nodeTree "ClassDeclaration" m
      [("modifiers", .list (a.map Modifier.tree)), ("name", identTree? b)]
  | .enumMember m a b => nodeTree "EnumMember" m [("name", Node.tree a), ("initializer", treeOf? b)]
  | .enumDeclaration m a b c => nodeTree "EnumDeclaration" m
      [("modifiers", .list (a.map Modifier.tree)), ("name", b.tree),
        ("members", .list (treesOf c))]
  | .interfaceDeclaration m a b c d e => nodeTree "InterfaceDeclaration" m
      [("modifiers", .list (a.map Modifier.tree)), ("name", b.tree),
        ("type_params", .list (treesOf c)), ("heritage", .list (treesOf d)),
        ("members", .list (treesOf e))]
  | .typeAlias m a b c d => nodeTree "TypeAliasDeclaration" m
      [("modifiers", .list (a.map Modifier.tree)), ("name", b.tree),
        ("type_params", .list (treesOf c)), ("type", Node.tree d)]
  | .moduleDeclaration m a b c => nodeTree "ModuleDeclaration" m
      [("modifiers", .list (a.map Modifier.tree)), ("name", b.tree),
        ("statements", .list (treesOf c))]
  | .importSpecifier m a b c => nodeTree "ImportSpecifier" m
      [("property_name", identTree? a), ("name", b.tree), ("type_only", .bool c)]
  | .importClause m a b c d => nodeTree "ImportClause" m
      [("name", identTree? a), ("namespace", identTree? b), ("elements", treesOf? c),
        ("type_only", .bool d)]
  | .importDeclaration m a sm s => nodeTree "ImportDeclaration" m
      [("import_clause", treeOf? a), ("module_specifier", specifierTree sm s)]
  | .exportSpecifier m a b => nodeTree "ExportSpecifier" m
      [("property_name", identTree? a), ("name", b.tree)]
  | .exportDeclaration m a b c => nodeTree "ExportDeclaration" m
      [("elements", treesOf? a), ("module_specifier", specifierTree? b), ("type_only", .bool c)]
  | .exportAssignment m a b => nodeTree "ExportAssignment" m
      [("expression", Node.tree a), ("is_default", .bool b)]
  | .ifStatement m a b c => nodeTree "IfStatement" m
      [("expression", Node.tree a), ("then_statement", Node.tree b), ("else_statement", treeOf? c)]
  | .doStatement m a b => nodeTree "DoStatement" m
      [("statement", Node.tree a), ("expression", Node.tree b)]
  | .whileStatement m a b => nodeTree "WhileStatement" m
      [("expression", Node.tree a), ("statement", Node.tree b)]
  | .forStatement m a b c d => nodeTree "ForStatement" m
      [("initializer", treeOf? a), ("condition", treeOf? b), ("incrementor", treeOf? c),
        ("statement", Node.tree d)]
  | .forOfStatement m a b c d => nodeTree "ForOfStatement" m
      [("initializer", Node.tree a), ("expression", Node.tree b), ("statement", Node.tree c),
        ("is_await", .bool d)]
  | .forInStatement m a b c => nodeTree "ForInStatement" m
      [("initializer", Node.tree a), ("expression", Node.tree b), ("statement", Node.tree c)]
  | .continueStatement m a => nodeTree "ContinueStatement" m [("label", identTree? a)]
  | .breakStatement m a => nodeTree "BreakStatement" m [("label", identTree? a)]
  | .returnStatement m a => nodeTree "ReturnStatement" m [("expression", treeOf? a)]
  | .caseClause m a b => nodeTree "CaseClause" m
      [("expression", Node.tree a), ("statements", .list (treesOf b))]
  | .defaultClause m a => nodeTree "DefaultClause" m [("statements", .list (treesOf a))]
  | .switchStatement m a b => nodeTree "SwitchStatement" m
      [("expression", Node.tree a), ("clauses", .list (treesOf b))]
  | .throwStatement m a => nodeTree "ThrowStatement" m [("expression", Node.tree a)]
  | .catchClause m a b => nodeTree "CatchClause" m [("variable", treeOf? a), ("block", Node.tree b)]
  | .tryStatement m a b c => nodeTree "TryStatement" m
      [("try_block", Node.tree a), ("catch_clause", treeOf? b), ("finally_block", treeOf? c)]
  | .labeled m a b => nodeTree "LabeledStatement" m [("label", a.tree), ("statement", Node.tree b)]

def treesOf : List Node → List Tree
  | [] => []
  | n :: ns => Node.tree n :: treesOf ns

def treeOf? : Option Node → Tree
  | none => .null
  | some n => Node.tree n

def treesOf? : Option (List Node) → Tree
  | none => .null
  | some ns => .list (treesOf ns)
end

/-- A listing of a file. -/
def SourceFile.tree (f : SourceFile) : Tree :=
  nodeTree "SourceFile" ⟨0, f.span⟩ [("statements", .list (treesOf f.statements))]

end ScriptBridge.TypeScript
