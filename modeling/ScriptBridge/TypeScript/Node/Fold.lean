import ScriptBridge.TypeScript.Node

/-!
# Folding over a tree

`Node.fold f` computes a value for every node from the node and the values of the nodes directly
inside it, in the order of `Node.children`. Traversals that treat most forms alike are folds; one that
looks from the outside in folds to a function.
-/

namespace ScriptBridge.TypeScript

variable {α : Type}

/-- The values of a name that may be missing. -/
def foldIdent (f : Node → List α → α) (i : Option Ident) : List α :=
  i.toList.map fun i => f (.ident i) []

/-- The values of modifiers. -/
def foldModifiers (f : Node → List α → α) (ms : List Modifier) : List α :=
  ms.map fun m => f (.modifier m) []

/-- The values of a module name that may be missing. -/
def foldSpecifier (f : Node → List α → α) (s : Option (Mark × String)) : List α :=
  s.toList.map fun (m, value) => f (.string m value) []

namespace Node

mutual
/-- The value of a node. -/
def fold (f : Node → List α → α) : Node → α
  | .typeReference m a b => f (.typeReference m a b) (foldAll f b)
  | .arrayType m a => f (.arrayType m a) [fold f a]
  | .tupleType m a => f (.tupleType m a) (foldAll f a)
  | .unionType m a => f (.unionType m a) (foldAll f a)
  | .intersectionType m a => f (.intersectionType m a) (foldAll f a)
  | .functionType m a b => f (.functionType m a b) (foldAll f a ++ [fold f b])
  | .typeLiteral m a => f (.typeLiteral m a) (foldAll f a)
  | .propertySignature m a b c => f (.propertySignature m a b c) (foldOption f c)
  | .methodSignature m a b c d => f (.methodSignature m a b c d) (foldAll f c ++ foldOption f d)
  | .indexSignature m a b => f (.indexSignature m a b) [fold f a, fold f b]
  | .typeOperator m a b => f (.typeOperator m a b) [fold f b]
  | .indexedAccess m a b => f (.indexedAccess m a b) [fold f a, fold f b]
  | .typeQuery m a => f (.typeQuery m a) [fold f a]
  | .typeParameter m a b c =>
    f (.typeParameter m a b c)
      ([f (.ident a) []] ++ foldOption f b ++ foldOption f c)
  | .templateSpan m a b => f (.templateSpan m a b) [fold f a]
  | .template m a b => f (.template m a b) (foldAll f b)
  | .spread m a => f (.spread m a) [fold f a]
  | .array m a => f (.array m a) (foldAll f a)
  | .computedName m a => f (.computedName m a) [fold f a]
  | .property m a b => f (.property m a b) [fold f a, fold f b]
  | .shorthand m a b => f (.shorthand m a b) ([f (.ident a) []] ++ foldOption f b)
  | .spreadProperty m a => f (.spreadProperty m a) [fold f a]
  | .method m a b c d e x y =>
    f (.method m a b c d e x y)
      ([fold f a] ++ foldAll f b ++ [fold f c] ++ foldOption f d)
  | .object m a => f (.object m a) (foldAll f a)
  | .parenthesized m a => f (.parenthesized m a) [fold f a]
  | .call m a b c => f (.call m a b c) ([fold f a] ++ foldAll f b)
  | .construct m a b => f (.construct m a b) ([fold f a] ++ foldAll f b)
  | .propertyAccess m a b c => f (.propertyAccess m a b c) [fold f a, f (.ident b) []]
  | .elementAccess m a b c => f (.elementAccess m a b c) [fold f a, fold f b]
  | .prefixUnary m a b => f (.prefixUnary m a b) [fold f b]
  | .postfixUnary m a b => f (.postfixUnary m a b) [fold f a]
  | .binary m a b c => f (.binary m a b c) [fold f a, fold f c]
  | .conditional m a b c => f (.conditional m a b c) [fold f a, fold f b, fold f c]
  | .arrow m a b c d e =>
    f (.arrow m a b c d e)
      (foldAll f a ++ [fold f b] ++ foldOption f c ++ foldAll f d)
  | .function m a b c d e x y =>
    f (.function m a b c d e x y)
      (foldIdent f a ++ foldAll f b ++ [fold f c] ++ foldOption f d ++ foldAll f e)
  | .asType m a b => f (.asType m a b) [fold f a, fold f b]
  | .satisfiesType m a b => f (.satisfiesType m a b) [fold f a, fold f b]
  | .nonNull m a => f (.nonNull m a) [fold f a]
  | .typeOf m a => f (.typeOf m a) [fold f a]
  | .voidOf m a => f (.voidOf m a) [fold f a]
  | .deleteOf m a => f (.deleteOf m a) [fold f a]
  | .awaitOf m a => f (.awaitOf m a) [fold f a]
  | .bindingElement m a b c d =>
    f (.bindingElement m a b c d)
      (foldOption f a ++ [fold f b] ++ foldOption f c)
  | .objectPattern m a => f (.objectPattern m a) (foldAll f a)
  | .arrayPattern m a => f (.arrayPattern m a) (foldAll f a)
  | .parameter m a b c d e =>
    f (.parameter m a b c d e)
      ([fold f a] ++ foldOption f b ++ foldOption f c)
  | .block m a => f (.block m a) (foldAll f a)
  | .expressionStatement m a => f (.expressionStatement m a) [fold f a]
  | .variableDeclaration m a b c =>
    f (.variableDeclaration m a b c)
      ([fold f a] ++ foldOption f b ++ foldOption f c)
  | .variableList m a b => f (.variableList m a b) (foldAll f b)
  | .variableStatement m a b => f (.variableStatement m a b) (foldModifiers f a ++ [fold f b])
  | .functionDeclaration m a b c d e x y z =>
    f (.functionDeclaration m a b c d e x y z)
      (foldModifiers f a ++ foldIdent f b ++ foldAll f c ++ foldOption f d ++ foldOption f e ++
        foldAll f x)
  | .classDeclaration m a b => f (.classDeclaration m a b) (foldModifiers f a ++ foldIdent f b)
  | .enumMember m a b => f (.enumMember m a b) ([fold f a] ++ foldOption f b)
  | .enumDeclaration m a b c =>
    f (.enumDeclaration m a b c)
      (foldModifiers f a ++ [f (.ident b) []] ++ foldAll f c)
  | .interfaceDeclaration m a b c d e =>
    f (.interfaceDeclaration m a b c d e)
      (foldModifiers f a ++ [f (.ident b) []] ++ foldAll f c ++ foldAll f d ++ foldAll f e)
  | .typeAlias m a b c d =>
    f (.typeAlias m a b c d)
      (foldModifiers f a ++ [f (.ident b) []] ++ foldAll f c ++ [fold f d])
  | .moduleDeclaration m a b c =>
    f (.moduleDeclaration m a b c)
      (foldModifiers f a ++ [f (.ident b) []] ++ foldAll f c)
  | .importSpecifier m a b c => f (.importSpecifier m a b c) (foldIdent f a ++ [f (.ident b) []])
  | .importClause m a b c d =>
    f (.importClause m a b c d)
      (foldIdent f a ++ foldIdent f b ++ foldLists f c)
  | .importDeclaration m a sm s =>
    f (.importDeclaration m a sm s)
      (foldOption f a ++ [f (.string sm s) []])
  | .exportSpecifier m a b => f (.exportSpecifier m a b) (foldIdent f a ++ [f (.ident b) []])
  | .exportDeclaration m a b c =>
    f (.exportDeclaration m a b c)
      (foldLists f a ++ foldSpecifier f b)
  | .exportAssignment m a b => f (.exportAssignment m a b) [fold f a]
  | .ifStatement m a b c => f (.ifStatement m a b c) ([fold f a, fold f b] ++ foldOption f c)
  | .doStatement m a b => f (.doStatement m a b) [fold f a, fold f b]
  | .whileStatement m a b => f (.whileStatement m a b) [fold f a, fold f b]
  | .forStatement m a b c d =>
    f (.forStatement m a b c d)
      (foldOption f a ++ foldOption f b ++ foldOption f c ++ [fold f d])
  | .forOfStatement m a b c d => f (.forOfStatement m a b c d) [fold f a, fold f b, fold f c]
  | .forInStatement m a b c => f (.forInStatement m a b c) [fold f a, fold f b, fold f c]
  | .continueStatement m a => f (.continueStatement m a) (foldIdent f a)
  | .breakStatement m a => f (.breakStatement m a) (foldIdent f a)
  | .returnStatement m a => f (.returnStatement m a) (foldOption f a)
  | .caseClause m a b => f (.caseClause m a b) ([fold f a] ++ foldAll f b)
  | .defaultClause m a => f (.defaultClause m a) (foldAll f a)
  | .switchStatement m a b => f (.switchStatement m a b) ([fold f a] ++ foldAll f b)
  | .throwStatement m a => f (.throwStatement m a) [fold f a]
  | .catchClause m a b => f (.catchClause m a b) (foldOption f a ++ [fold f b])
  | .tryStatement m a b c =>
    f (.tryStatement m a b c)
      ([fold f a] ++ foldOption f b ++ foldOption f c)
  | .labeled m a b => f (.labeled m a b) [f (.ident a) [], fold f b]
  | n@(.keywordType ..) | n@(.literalType ..) | n@(.ident ..) | n@(.number ..) | n@(.string ..)
  | n@(.plainTemplate ..) | n@(.boolean ..) | n@(.null ..) | n@(.this ..) | n@(.omitted ..)
  | n@(.empty ..) | n@(.modifier ..) => f n []

/-- The values of nodes. -/
def foldAll (f : Node → List α → α) : List Node → List α
  | [] => []
  | n :: ns => fold f n :: foldAll f ns

/-- The values of a node that may be missing. -/
def foldOption (f : Node → List α → α) : Option Node → List α
  | none => []
  | some n => [fold f n]

/-- The values of nodes that may be missing. -/
def foldLists (f : Node → List α → α) : Option (List Node) → List α
  | none => []
  | some ns => foldAll f ns
end

/-- The node and all nodes inside it, each before those inside it. -/
def preorder (n : Node) : List Node :=
  fold (fun n inside => n :: inside.flatten) n

/-- How deeply nodes are nested in a node, itself included. -/
def height (n : Node) : Nat :=
  fold (fun _ inside => inside.foldl max 0 + 1) n

end Node

end ScriptBridge.TypeScript
