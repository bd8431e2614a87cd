import ScriptBridge.AiScript.Node
import ScriptBridge.Data.Tree

/-!
# Listing an AiScript tree

`Node.tree` lists a node as plain data: its kind, its fields by name, and whatever `place` tells about
where it came from. `Node.lineTree` tells the line only, for nodes that have one.
-/

namespace ScriptBridge.AiScript

/-- A listing of a node: kind, fields, place. -/
def formTree (place : Loc → List (String × Tree)) (kind : String) (loc : Loc)
    (fields : List (String × Tree)) : Tree :=
  .record (("kind", .str kind) :: fields ++ place loc)

/-- A listing of a name where it is bound. -/
def Name.tree (place : Loc → List (String × Tree)) (name : Name) : Tree :=
  formTree place "Ident" name.loc [("name", .str name.text)]

mutual
/-- A listing of a node. -/
def Node.tree (place : Loc → List (String × Tree)) : Node → Tree
  | .num l v => formTree place "Num" l [("value", .num v)]
  | .str l v => formTree place "Str" l [("value", .str v)]
  | .bool l v => formTree place "Bool" l [("value", .bool v)]
  | .null l => formTree place "Null" l []
  | .tmpl l ps => formTree place "Tmpl" l [("parts", .list (nodeTrees place ps))]
  | .arr l is => formTree place "Arr" l [("items", .list (nodeTrees place is))]
  | .obj l es => formTree place "Obj" l [("entries", .table (entryTrees place es))]
  | .ident l n => formTree place "Ident" l [("name", .str n)]
  | .prop l t n => formTree place "Prop" l [("target", Node.tree place t), ("name", .str n)]
  | .index l t i =>
    formTree place "Index" l [("target", Node.tree place t), ("index", Node.tree place i)]
  | .call l t as =>
    formTree place "Call" l [("target", Node.tree place t), ("args", .list (nodeTrees place as))]
  | .unary l o x => formTree place "UnaryOp" l [("op", .str o), ("operand", Node.tree place x)]
  | .binary l o x y =>
    formTree place "BinaryOp" l
      [("op", .str o), ("left", Node.tree place x), ("right", Node.tree place y)]
  | .fn l ps b =>
    formTree place "Fn" l
      [("params", .list (paramTrees place ps)), ("children", .list (nodeTrees place b))]
  | .cond l t b bs e =>
    formTree place "If" l
      [("cond", Node.tree place t), ("then", Node.tree place b),
        ("elseif", .list (branchTrees place bs)), ("else_", optionTree place e)]
  | .select l s as e =>
    formTree place "Match" l
      [("about", Node.tree place s), ("cases", .list (armTrees place as)),
        ("default", optionTree place e)]
  | .block l ss => formTree place "Block" l [("statements", .list (nodeTrees place ss))]
  | .loop l ss => formTree place "Loop" l [("statements", .list (nodeTrees place ss))]
  | .each l v is b =>
    formTree place "Each" l
      [("var", v.tree place), ("items", Node.tree place is), ("body", Node.tree place b)]
  | .define l n v m =>
    formTree place "Def" l
      [("dest", n.tree place), ("expr", Node.tree place v), ("mutable", .bool m)]
  | .assign l t v => formTree place "Assign" l [("dest", Node.tree place t), ("expr", Node.tree place v)]
  | .update l o t v =>
    formTree place "OpAssign" l
      [("op", .str o), ("dest", Node.tree place t), ("expr", Node.tree place v)]
  | .ret l v => formTree place "Return" l [("expr", Node.tree place v)]
  | .exit l => formTree place "Break" l []
  | .next l => formTree place "Continue" l []
  | .loneParam p => Param.tree place p
  | .loneBranch b => Branch.tree place b
  | .loneArm a => Arm.tree place a
  | .bare l r => formTree place (Node.bare l r).kind l []

/-- A listing of a parameter. -/
def Param.tree (place : Loc → List (String × Tree)) : Param → Tree
  | .mk l n o d =>
    formTree place "Param" l
      [("dest", n.tree place), ("optional", .bool o), ("default", optionTree place d)]

/-- A listing of a branch. -/
def Branch.tree (place : Loc → List (String × Tree)) : Branch → Tree
  | .mk l t b => formTree place "Elif" l [("cond", Node.tree place t), ("then", Node.tree place b)]

/-- A listing of an arm. -/
def Arm.tree (place : Loc → List (String × Tree)) : Arm → Tree
  | .mk l p b => formTree place "MatchCase" l [("q", Node.tree place p), ("a", Node.tree place b)]

def nodeTrees (place : Loc → List (String × Tree)) : List Node → List Tree
  | [] => []
  | n :: ns => Node.tree place n :: nodeTrees place ns

def optionTree (place : Loc → List (String × Tree)) : Option Node → Tree
  | none => .null
  | some n => Node.tree place n

def paramTrees (place : Loc → List (String × Tree)) : List Param → List Tree
  | [] => []
  | p :: ps => Param.tree place p :: paramTrees place ps

def branchTrees (place : Loc → List (String × Tree)) : List Branch → List Tree
  | [] => []
  | b :: bs => Branch.tree place b :: branchTrees place bs

def armTrees (place : Loc → List (String × Tree)) : List Arm → List Tree
  | [] => []
  | a :: as => Arm.tree place a :: armTrees place as

def entryTrees (place : Loc → List (String × Tree)) : List (String × Node) → List (String × Tree)
  | [] => []
  | (k, n) :: rest => (k, Node.tree place n) :: entryTrees place rest
end

/-- A place as the four numbers of its region. -/
def regionFields (l : Loc) : List (String × Tree) :=
  [("loc", .list [.nat l.line, .nat l.col, .nat l.endLine, .nat l.endCol])]

/-- A place as its line, if it has one. -/
def lineFields (l : Loc) : List (String × Tree) :=
  if l.line = 0 then [] else [("line", .nat l.line)]

end ScriptBridge.AiScript
