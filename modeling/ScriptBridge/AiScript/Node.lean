import ScriptBridge.Number.Double

/-!
# AiScript trees

`Node` is the tree of an AiScript program. Expressions and statements share one type, because a block,
a branch or a match arm may hold either. Every node carries the place it came from, which equality
(`Node.same`) does not look at.

`Node.same` is equality of trees up to places, with numbers compared by value and objects compared
without regard to the order of their keys.
-/

namespace ScriptBridge.AiScript

/-- A region of source text, lines and columns counted from one. A line of zero is "no place". -/
structure Loc where
  line : Nat := 0
  col : Nat := 0
  endLine : Nat := 0
  endCol : Nat := 0
deriving DecidableEq, Repr, Inhabited

/-- A name where it is bound. -/
structure Name where
  text : String
  loc : Loc := {}
deriving DecidableEq, Repr, Inhabited

/-- The grammatical roles that a node can have without being any particular form. -/
inductive Role where
  | node
  | expr
  | stmt
deriving DecidableEq, Repr

mutual
/-- A form of the language. -/
inductive Node where
  | num (loc : Loc) (value : Double)
  | str (loc : Loc) (value : String)
  | bool (loc : Loc) (value : Bool)
  | null (loc : Loc)
  /-- A template; its parts are texts (`str`) and interpolated expressions. -/
  | tmpl (loc : Loc) (parts : List Node)
  | arr (loc : Loc) (items : List Node)
  /-- An object; keys are unique and in order of insertion. -/
  | obj (loc : Loc) (entries : List (String × Node))
  | ident (loc : Loc) (name : String)
  | prop (loc : Loc) (target : Node) (name : String)
  | index (loc : Loc) (target : Node) (index : Node)
  | call (loc : Loc) (target : Node) (args : List Node)
  | unary (loc : Loc) (op : String) (operand : Node)
  | binary (loc : Loc) (op : String) (left : Node) (right : Node)
  | fn (loc : Loc) (params : List Param) (body : List Node)
  | cond (loc : Loc) (test : Node) (body : Node) (branches : List Branch) (otherwise : Option Node)
  | select (loc : Loc) (subject : Node) (arms : List Arm) (otherwise : Option Node)
  | block (loc : Loc) (statements : List Node)
  | loop (loc : Loc) (statements : List Node)
  | each (loc : Loc) (item : Name) (items : Node) (body : Node)
  | define (loc : Loc) (name : Name) (value : Node) (isMutable : Bool)
  | assign (loc : Loc) (target : Node) (value : Node)
  | update (loc : Loc) (op : String) (target : Node) (value : Node)
  | ret (loc : Loc) (value : Node)
  | exit (loc : Loc)
  | next (loc : Loc)
  /-- A parameter on its own, outside a parameter list. -/
  | loneParam (param : Param)
  /-- A branch on its own, outside a conditional. -/
  | loneBranch (branch : Branch)
  /-- A match arm on its own, outside a match. -/
  | loneArm (arm : Arm)
  /-- A node that is no particular form. -/
  | bare (loc : Loc) (role : Role)

/-- A function parameter. -/
inductive Param where
  | mk (loc : Loc) (name : Name) (isOptional : Bool) (fallback : Option Node)

/-- A further branch of a conditional. -/
inductive Branch where
  | mk (loc : Loc) (test : Node) (body : Node)

/-- An arm of a match. -/
inductive Arm where
  | mk (loc : Loc) (pattern : Node) (body : Node)
end

instance : Inhabited Node := ⟨.null {}⟩

instance : Inhabited Param := ⟨.mk {} default false none⟩

instance : Inhabited Branch := ⟨.mk {} default default⟩

instance : Inhabited Arm := ⟨.mk {} default default⟩

namespace Param

def loc : Param → Loc
  | .mk loc _ _ _ => loc

def name : Param → Name
  | .mk _ name _ _ => name

end Param

namespace Node

/-! ## Places -/

/-- The place of a node. -/
def loc : Node → Loc
  | num loc _ | str loc _ | bool loc _ | null loc | tmpl loc _ | arr loc _ | obj loc _
  | ident loc _ | prop loc _ _ | index loc _ _ | call loc _ _ | unary loc _ _ | binary loc _ _ _
  | fn loc _ _ | cond loc _ _ _ _ | select loc _ _ _ | block loc _ | loop loc _ | each loc _ _ _
  | define loc _ _ _ | assign loc _ _ | update loc _ _ _ | ret loc _ | exit loc | next loc
  | bare loc _ => loc
  | loneParam (.mk loc _ _ _) => loc
  | loneBranch (.mk loc _ _) => loc
  | loneArm (.mk loc _ _) => loc

/-- The same node at another place; the nodes inside keep theirs. -/
def setLoc (l : Loc) : Node → Node
  | num _ v => num l v
  | str _ v => str l v
  | bool _ v => bool l v
  | null _ => null l
  | tmpl _ ps => tmpl l ps
  | arr _ is => arr l is
  | obj _ es => obj l es
  | ident _ n => ident l n
  | prop _ t n => prop l t n
  | index _ t i => index l t i
  | call _ t as => call l t as
  | unary _ o x => unary l o x
  | binary _ o x y => binary l o x y
  | fn _ ps b => fn l ps b
  | cond _ t b bs e => cond l t b bs e
  | select _ s as e => select l s as e
  | block _ ss => block l ss
  | loop _ ss => loop l ss
  | each _ v is b => each l v is b
  | define _ n v m => define l n v m
  | assign _ t v => assign l t v
  | update _ o t v => update l o t v
  | ret _ v => ret l v
  | exit _ => exit l
  | next _ => next l
  | loneParam (.mk _ n o f) => loneParam (.mk l n o f)
  | loneBranch (.mk _ t b) => loneBranch (.mk l t b)
  | loneArm (.mk _ p b) => loneArm (.mk l p b)
  | bare _ r => bare l r

/-- The name of a node's form, as error messages and tree listings give it. -/
def kind : Node → String
  | num .. => "Num"
  | str .. => "Str"
  | bool .. => "Bool"
  | null .. => "Null"
  | tmpl .. => "Tmpl"
  | arr .. => "Arr"
  | obj .. => "Obj"
  | ident .. => "Ident"
  | prop .. => "Prop"
  | index .. => "Index"
  | call .. => "Call"
  | unary .. => "UnaryOp"
  | binary .. => "BinaryOp"
  | fn .. => "Fn"
  | cond .. => "If"
  | select .. => "Match"
  | block .. => "Block"
  | loop .. => "Loop"
  | each .. => "Each"
  | define .. => "Def"
  | assign .. => "Assign"
  | update .. => "OpAssign"
  | ret .. => "Return"
  | exit .. => "Break"
  | next .. => "Continue"
  | loneParam .. => "Param"
  | loneBranch .. => "Elif"
  | loneArm .. => "MatchCase"
  | bare _ .node => "Node"
  | bare _ .expr => "Expr"
  | bare _ .stmt => "Stmt"

end Node

/-! ## Equality up to places -/

mutual
/-- Equality of trees up to places. -/
def Node.same : Node → Node → Bool
  | .num _ x, n => match n with | .num _ y => x.numEq y | _ => false
  | .str _ x, n => match n with | .str _ y => x == y | _ => false
  | .bool _ x, n => match n with | .bool _ y => x == y | _ => false
  | .null _, n => match n with | .null _ => true | _ => false
  | .tmpl _ xs, n => match n with | .tmpl _ ys => sameAll xs ys | _ => false
  | .arr _ xs, n => match n with | .arr _ ys => sameAll xs ys | _ => false
  | .obj _ xs, n =>
    match n with
    | .obj _ ys => xs.length == ys.length && sameEntries ys xs
    | _ => false
  | .ident _ x, n => match n with | .ident _ y => x == y | _ => false
  | .prop _ t x, n => match n with | .prop _ u y => Node.same t u && x == y | _ => false
  | .index _ t i, n => match n with | .index _ u j => Node.same t u && Node.same i j | _ => false
  | .call _ t xs, n => match n with | .call _ u ys => Node.same t u && sameAll xs ys | _ => false
  | .unary _ o x, n => match n with | .unary _ p y => o == p && Node.same x y | _ => false
  | .binary _ o x y, n =>
    match n with
    | .binary _ p u v => o == p && Node.same x u && Node.same y v
    | _ => false
  | .fn _ ps b, n => match n with | .fn _ qs c => sameParams ps qs && sameAll b c | _ => false
  | .cond _ t b bs e, n =>
    match n with
    | .cond _ u c cs f => Node.same t u && Node.same b c && sameBranches bs cs && sameOption e f
    | _ => false
  | .select _ s as e, n =>
    match n with
    | .select _ t bs f => Node.same s t && sameArms as bs && sameOption e f
    | _ => false
  | .block _ xs, n => match n with | .block _ ys => sameAll xs ys | _ => false
  | .loop _ xs, n => match n with | .loop _ ys => sameAll xs ys | _ => false
  | .each _ v xs b, n =>
    match n with
    | .each _ w ys c => v.text == w.text && Node.same xs ys && Node.same b c
    | _ => false
  | .define _ x v m, n =>
    match n with
    | .define _ y w k => x.text == y.text && Node.same v w && m == k
    | _ => false
  | .assign _ t v, n => match n with | .assign _ u w => Node.same t u && Node.same v w | _ => false
  | .update _ o t v, n =>
    match n with
    | .update _ p u w => o == p && Node.same t u && Node.same v w
    | _ => false
  | .ret _ x, n => match n with | .ret _ y => Node.same x y | _ => false
  | .exit _, n => match n with | .exit _ => true | _ => false
  | .next _, n => match n with | .next _ => true | _ => false
  | .loneParam p, n => match n with | .loneParam q => Param.same p q | _ => false
  | .loneBranch b, n => match n with | .loneBranch c => Branch.same b c | _ => false
  | .loneArm a, n => match n with | .loneArm b => Arm.same a b | _ => false
  | .bare _ r, n => match n with | .bare _ s => r == s | _ => false

def Param.same : Param → Param → Bool
  | .mk _ x o d, .mk _ y p e => x.text == y.text && o == p && sameOption d e

def Branch.same : Branch → Branch → Bool
  | .mk _ t b, .mk _ u c => Node.same t u && Node.same b c

def Arm.same : Arm → Arm → Bool
  | .mk _ p b, .mk _ q c => Node.same p q && Node.same b c

def sameAll : List Node → List Node → Bool
  | [], ys => ys.isEmpty
  | x :: xs, ys => match ys with | y :: ys => Node.same x y && sameAll xs ys | [] => false

def sameOption : Option Node → Option Node → Bool
  | none, y => y.isNone
  | some x, y => match y with | some y => Node.same x y | none => false

def sameParams : List Param → List Param → Bool
  | [], ys => ys.isEmpty
  | x :: xs, ys => match ys with | y :: ys => Param.same x y && sameParams xs ys | [] => false

def sameBranches : List Branch → List Branch → Bool
  | [], ys => ys.isEmpty
  | x :: xs, ys => match ys with | y :: ys => Branch.same x y && sameBranches xs ys | [] => false

def sameArms : List Arm → List Arm → Bool
  | [], ys => ys.isEmpty
  | x :: xs, ys => match ys with | y :: ys => Arm.same x y && sameArms xs ys | [] => false

/-- Whether every entry has its like in another object. -/
def sameEntries (others : List (String × Node)) : List (String × Node) → Bool
  | [] => true
  | (k, v) :: rest =>
    (match others.lookup k with | some w => Node.same v w | none => false) && sameEntries others rest
end

end ScriptBridge.AiScript
