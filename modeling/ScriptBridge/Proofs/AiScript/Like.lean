import ScriptBridge.AiScript.Node

/-!
# Trees that are alike

Two trees are alike if they differ in places only. `Like known` relates such trees in the forms that
conversion produces, and tells that every name which they refer to is known.

* `Node.unplaced`: a tree without its places.
* `Node.names`: the names that a tree refers to.
* `Like.unplaced_eq`, `Like.known_of_mem`: what trees that are alike have in common.
-/

namespace ScriptBridge.AiScript

/-! ## Trees without places -/

mutual
/-- The same tree without any places. -/
def Node.unplaced : Node → Node
  | .num _ x => .num {} x
  | .str _ x => .str {} x
  | .bool _ x => .bool {} x
  | .null _ => .null {}
  | .tmpl _ parts => .tmpl {} (unplacedAll parts)
  | .arr _ items => .arr {} (unplacedAll items)
  | .obj _ entries => .obj {} (unplacedEntries entries)
  | .ident _ name => .ident {} name
  | .prop _ target name => .prop {} target.unplaced name
  | .index _ target key => .index {} target.unplaced key.unplaced
  | .call _ target args => .call {} target.unplaced (unplacedAll args)
  | .unary _ op operand => .unary {} op operand.unplaced
  | .binary _ op left right => .binary {} op left.unplaced right.unplaced
  | .fn _ params body => .fn {} (unplacedParams params) (unplacedAll body)
  | .cond _ test body branches otherwise =>
    .cond {} test.unplaced body.unplaced (unplacedBranches branches) (unplacedOption otherwise)
  | .select _ subject arms otherwise =>
    .select {} subject.unplaced (unplacedArms arms) (unplacedOption otherwise)
  | .block _ statements => .block {} (unplacedAll statements)
  | .loop _ statements => .loop {} (unplacedAll statements)
  | .each _ item items body => .each {} ⟨item.text, {}⟩ items.unplaced body.unplaced
  | .define _ name value isMutable => .define {} ⟨name.text, {}⟩ value.unplaced isMutable
  | .assign _ target value => .assign {} target.unplaced value.unplaced
  | .update _ op target value => .update {} op target.unplaced value.unplaced
  | .ret _ value => .ret {} value.unplaced
  | .exit _ => .exit {}
  | .next _ => .next {}
  | .loneParam param => .loneParam param.unplaced
  | .loneBranch branch => .loneBranch branch.unplaced
  | .loneArm arm => .loneArm arm.unplaced
  | .bare _ role => .bare {} role

/-- The same parameter without any places. -/
def Param.unplaced : Param → Param
  | .mk _ name isOptional fallback => .mk {} ⟨name.text, {}⟩ isOptional (unplacedOption fallback)

/-- The same branch without any places. -/
def Branch.unplaced : Branch → Branch
  | .mk _ test body => .mk {} test.unplaced body.unplaced

/-- The same arm without any places. -/
def Arm.unplaced : Arm → Arm
  | .mk _ pattern body => .mk {} pattern.unplaced body.unplaced

/-- The same nodes without any places. -/
def unplacedAll : List Node → List Node
  | [] => []
  | n :: ns => n.unplaced :: unplacedAll ns

/-- The same node, which may be missing, without any places. -/
def unplacedOption : Option Node → Option Node
  | none => none
  | some n => some n.unplaced

/-- The same entries without any places. -/
def unplacedEntries : List (String × Node) → List (String × Node)
  | [] => []
  | (key, n) :: rest => (key, n.unplaced) :: unplacedEntries rest

/-- The same parameters without any places. -/
def unplacedParams : List Param → List Param
  | [] => []
  | p :: ps => p.unplaced :: unplacedParams ps

/-- The same branches without any places. -/
def unplacedBranches : List Branch → List Branch
  | [] => []
  | b :: bs => b.unplaced :: unplacedBranches bs

/-- The same arms without any places. -/
def unplacedArms : List Arm → List Arm
  | [] => []
  | a :: as => a.unplaced :: unplacedArms as
end

theorem length_unplacedAll (ns : List Node) : (unplacedAll ns).length = ns.length := by
  induction ns with
  | nil => rfl
  | cons n ns ih => rw [unplacedAll, List.length_cons, List.length_cons, ih]

theorem unplacedAll_append (ns ms : List Node) :
    unplacedAll (ns ++ ms) = unplacedAll ns ++ unplacedAll ms := by
  induction ns with
  | nil => rfl
  | cons n ns ih => rw [List.cons_append, unplacedAll, unplacedAll, ih, List.cons_append]

/-! ## Names -/

mutual
/-- The names that a tree refers to. -/
def Node.names : Node → List String
  | .num .. | .str .. | .bool .. | .null .. | .exit .. | .next .. | .bare .. => []
  | .ident _ name => [name]
  | .tmpl _ nodes | .arr _ nodes | .block _ nodes | .loop _ nodes => namesAll nodes
  | .obj _ entries => namesEntries entries
  | .prop _ target _ => target.names
  | .index _ target key => target.names ++ key.names
  | .call _ target args => target.names ++ namesAll args
  | .unary _ _ operand => operand.names
  | .binary _ _ left right => left.names ++ right.names
  | .fn _ params body => namesParams params ++ namesAll body
  | .cond _ test body branches otherwise =>
    test.names ++ body.names ++ namesBranches branches ++ namesOption otherwise
  | .select _ subject arms otherwise => subject.names ++ namesArms arms ++ namesOption otherwise
  | .each _ _ items body => items.names ++ body.names
  | .define _ _ value _ | .ret _ value => value.names
  | .assign _ target value | .update _ _ target value => target.names ++ value.names
  | .loneParam (.mk _ _ _ fallback) => namesOption fallback
  | .loneBranch (.mk _ test body) => test.names ++ body.names
  | .loneArm (.mk _ pattern body) => pattern.names ++ body.names

/-- The names that trees refer to. -/
def namesAll : List Node → List String
  | [] => []
  | n :: ns => n.names ++ namesAll ns

/-- The names that a tree, which may be missing, refers to. -/
def namesOption : Option Node → List String
  | none => []
  | some n => n.names

/-- The names that the entries of an object refer to. -/
def namesEntries : List (String × Node) → List String
  | [] => []
  | (_, n) :: rest => n.names ++ namesEntries rest

/-- The names that the defaults of parameters refer to. -/
def namesParams : List Param → List String
  | [] => []
  | .mk _ _ _ fallback :: rest => namesOption fallback ++ namesParams rest

/-- The names that further branches refer to. -/
def namesBranches : List Branch → List String
  | [] => []
  | .mk _ test body :: rest => test.names ++ body.names ++ namesBranches rest

/-- The names that the arms of a match refer to. -/
def namesArms : List Arm → List String
  | [] => []
  | .mk _ pattern body :: rest => pattern.names ++ body.names ++ namesArms rest
end

theorem namesAll_append (ns ms : List Node) :
    namesAll (ns ++ ms) = namesAll ns ++ namesAll ms := by
  induction ns with
  | nil => rfl
  | cons n ns ih => rw [List.cons_append, namesAll, namesAll, ih, List.append_assoc]

/-! ## Trees that are alike -/

mutual
/-- Trees of the forms that conversion produces that differ in places only, all of whose names are
known. -/
inductive Like (known : String → Prop) : Node → Node → Prop
  | num {l l' : Loc} {x : Double} : Like known (.num l x) (.num l' x)
  | str {l l' : Loc} {x : String} : Like known (.str l x) (.str l' x)
  | bool {l l' : Loc} {x : Bool} : Like known (.bool l x) (.bool l' x)
  | null {l l' : Loc} : Like known (.null l) (.null l')
  | tmpl {l l' : Loc} {xs ys : List Node} (parts : LikeAll known xs ys) :
      Like known (.tmpl l xs) (.tmpl l' ys)
  | arr {l l' : Loc} {xs ys : List Node} (items : LikeAll known xs ys) :
      Like known (.arr l xs) (.arr l' ys)
  | obj {l l' : Loc} {xs ys : List (String × Node)}
      (entries : LikeEntries known xs ys) : Like known (.obj l xs) (.obj l' ys)
  | ident {l l' : Loc} {name : String} (isKnown : known name) :
      Like known (.ident l name) (.ident l' name)
  | prop {l l' : Loc} {x y : Node} {name : String} (target : Like known x y) :
      Like known (.prop l x name) (.prop l' y name)
  | index {l l' : Loc} {x y k k' : Node} (target : Like known x y) (key : Like known k k') :
      Like known (.index l x k) (.index l' y k')
  | call {l l' : Loc} {x y : Node} {xs ys : List Node} (target : Like known x y)
      (args : LikeAll known xs ys) : Like known (.call l x xs) (.call l' y ys)
  | unary {l l' : Loc} {op : String} {x y : Node} (operand : Like known x y) :
      Like known (.unary l op x) (.unary l' op y)
  | binary {l l' : Loc} {op : String} {x y u v : Node} (left : Like known x y)
      (right : Like known u v) : Like known (.binary l op x u) (.binary l' op y v)
  | fn {l l' : Loc} {ps qs : List Param} {xs ys : List Node}
      (params : LikeParams known ps qs) (body : LikeAll known xs ys) :
      Like known (.fn l ps xs) (.fn l' qs ys)
  | cond {l l' : Loc} {t u x y : Node} {bs cs : List Branch} {v w : Option Node}
      (test : Like known t u) (body : Like known x y)
      (branches : LikeBranches known bs cs)
      (otherwise : LikeOption known v w) :
      Like known (.cond l t x bs v) (.cond l' u y cs w)
  | block {l l' : Loc} {xs ys : List Node} (statements : LikeAll known xs ys) :
      Like known (.block l xs) (.block l' ys)
  | loop {l l' : Loc} {xs ys : List Node} (statements : LikeAll known xs ys) :
      Like known (.loop l xs) (.loop l' ys)
  | each {l l' : Loc} {item : Name} {x y u v : Node} (items : Like known x y)
      (body : Like known u v) : Like known (.each l item x u) (.each l' item y v)
  | define {l l' : Loc} {name : Name} {x y : Node} {isMutable : Bool} (value : Like known x y) :
      Like known (.define l name x isMutable) (.define l' name y isMutable)
  | assign {l l' : Loc} {x y u v : Node} (target : Like known x y) (value : Like known u v) :
      Like known (.assign l x u) (.assign l' y v)
  | update {l l' : Loc} {op : String} {x y u v : Node} (target : Like known x y)
      (value : Like known u v) : Like known (.update l op x u) (.update l' op y v)
  | ret {l l' : Loc} {x y : Node} (value : Like known x y) : Like known (.ret l x) (.ret l' y)
  | exit {l l' : Loc} : Like known (.exit l) (.exit l')
  | next {l l' : Loc} : Like known (.next l) (.next l')

/-- Lists of trees that are alike one by one. -/
inductive LikeAll (known : String → Prop) : List Node → List Node → Prop
  | nil : LikeAll known [] []
  | cons {x y : Node} {xs ys : List Node} (head : Like known x y) (tail : LikeAll known xs ys) :
      LikeAll known (x :: xs) (y :: ys)

/-- Trees that are alike or both missing. -/
inductive LikeOption (known : String → Prop) : Option Node → Option Node → Prop
  | none : LikeOption known none none
  | some {x y : Node} (value : Like known x y) : LikeOption known (some x) (some y)

/-- Objects with the same keys and values that are alike. -/
inductive LikeEntries (known : String → Prop) :
    List (String × Node) → List (String × Node) → Prop
  | nil : LikeEntries known [] []
  | cons {key : String} {x y : Node} {xs ys : List (String × Node)} (value : Like known x y)
      (tail : LikeEntries known xs ys) : LikeEntries known ((key, x) :: xs) ((key, y) :: ys)

/-- Parameters with the same names and defaults that are alike. -/
inductive LikeParams (known : String → Prop) : List Param → List Param → Prop
  | nil : LikeParams known [] []
  | cons {l l' : Loc} {name : Name} {isOptional : Bool} {x y : Option Node} {ps qs : List Param}
      (fallback : LikeOption known x y) (tail : LikeParams known ps qs) :
      LikeParams known (.mk l name isOptional x :: ps) (.mk l' name isOptional y :: qs)

/-- Branches with tests and bodies that are alike. -/
inductive LikeBranches (known : String → Prop) : List Branch → List Branch → Prop
  | nil : LikeBranches known [] []
  | cons {l l' : Loc} {t u x y : Node} {bs cs : List Branch} (test : Like known t u)
      (body : Like known x y) (tail : LikeBranches known bs cs) :
      LikeBranches known (.mk l t x :: bs) (.mk l' u y :: cs)
end

variable {known : String → Prop}

theorem likeAll_singleton {x y : Node} (h : Like known x y) : LikeAll known [x] [y] :=
  .cons h .nil

theorem LikeAll.append {xs ys us vs : List Node} (h : LikeAll known xs ys)
    (h' : LikeAll known us vs) : LikeAll known (xs ++ us) (ys ++ vs) := by
  induction xs generalizing ys with
  | nil =>
    cases h
    exact h'
  | cons _ _ ih =>
    obtain _ | ⟨h, hs⟩ := h
    exact .cons h (ih hs)

theorem LikeAll.isEmpty_eq {xs ys : List Node} (h : LikeAll known xs ys) :
    xs.isEmpty = ys.isEmpty := by
  cases h <;> rfl

/-! ### Places -/

theorem Like.setLoc_left {x y : Node} (h : Like known x y) (l : Loc) :
    Like known (x.setLoc l) y := by
  cases h <;> constructor <;> assumption

theorem Like.setLoc_right {x y : Node} (h : Like known x y) (l : Loc) :
    Like known x (y.setLoc l) := by
  cases h <;> constructor <;> assumption

theorem setLoc_loc (n : Node) (l : Loc) : (n.setLoc l).setLoc n.loc = n := by
  cases n with
  | loneParam p | loneBranch p | loneArm p =>
    cases p
    rfl
  | _ => rfl

theorem Like.of_setLoc_left {x y : Node} {l : Loc} (h : Like known (x.setLoc l) y) :
    Like known x y := by
  have := h.setLoc_left x.loc
  rwa [setLoc_loc] at this

mutual
/-- Trees that are alike are equal without their places. -/
theorem Like.unplaced_eq {x y : Node} : Like known x y → x.unplaced = y.unplaced
  | .num | .str | .bool | .null | .ident _ | .exit | .next => rfl
  | .tmpl hs | .arr hs | .block hs | .loop hs => by simp only [Node.unplaced, hs.unplaced_eq]
  | .obj hs => by simp only [Node.unplaced, hs.unplaced_eq]
  | .prop h | .unary h | .define h | .ret h => by simp only [Node.unplaced, h.unplaced_eq]
  | .call h hs => by simp only [Node.unplaced, h.unplaced_eq, hs.unplaced_eq]
  | .index h h' | .binary h h' | .each h h' | .assign h h' | .update h h' => by
    simp only [Node.unplaced, h.unplaced_eq, h'.unplaced_eq]
  | .fn hp hs => by simp only [Node.unplaced, hp.unplaced_eq, hs.unplaced_eq]
  | .cond ht hb hbs ho => by
    simp only [Node.unplaced, ht.unplaced_eq, hb.unplaced_eq, hbs.unplaced_eq, ho.unplaced_eq]

theorem LikeAll.unplaced_eq {xs ys : List Node} :
    LikeAll known xs ys → unplacedAll xs = unplacedAll ys
  | .nil => rfl
  | .cons h hs => by simp only [unplacedAll, h.unplaced_eq, hs.unplaced_eq]

theorem LikeOption.unplaced_eq {x y : Option Node} :
    LikeOption known x y → unplacedOption x = unplacedOption y
  | .none => rfl
  | .some h => by simp only [unplacedOption, h.unplaced_eq]

theorem LikeEntries.unplaced_eq {xs ys : List (String × Node)} :
    LikeEntries known xs ys → unplacedEntries xs = unplacedEntries ys
  | .nil => rfl
  | .cons h hs => by simp only [unplacedEntries, h.unplaced_eq, hs.unplaced_eq]

theorem LikeParams.unplaced_eq {ps qs : List Param} :
    LikeParams known ps qs → unplacedParams ps = unplacedParams qs
  | .nil => rfl
  | .cons h hs => by
    simp only [unplacedParams, Param.unplaced, h.unplaced_eq, hs.unplaced_eq]

theorem LikeBranches.unplaced_eq {bs cs : List Branch} :
    LikeBranches known bs cs → unplacedBranches bs = unplacedBranches cs
  | .nil => rfl
  | .cons ht hb hs => by
    simp only [unplacedBranches, Branch.unplaced, ht.unplaced_eq, hb.unplaced_eq, hs.unplaced_eq]
end

/-! ### Names -/

mutual
/-- Trees that are alike refer to known names only. -/
theorem Like.known_of_mem {x y : Node} : Like known x y → ∀ name ∈ x.names, known name
  | .num | .str | .bool | .null | .exit | .next => List.forall_mem_nil _
  | .ident h => List.forall_mem_singleton.mpr h
  | .tmpl hs | .arr hs | .block hs | .loop hs => hs.known_of_mem
  | .obj hs => hs.known_of_mem
  | .prop h | .unary h | .define h | .ret h => h.known_of_mem
  | .call h hs => List.forall_mem_append.mpr ⟨h.known_of_mem, hs.known_of_mem⟩
  | .index h h' | .binary h h' | .each h h' | .assign h h' | .update h h' =>
    List.forall_mem_append.mpr ⟨h.known_of_mem, h'.known_of_mem⟩
  | .fn hp hs => List.forall_mem_append.mpr ⟨hp.known_of_mem, hs.known_of_mem⟩
  | .cond ht hb hbs ho =>
    List.forall_mem_append.mpr ⟨List.forall_mem_append.mpr ⟨List.forall_mem_append.mpr
      ⟨ht.known_of_mem, hb.known_of_mem⟩, hbs.known_of_mem⟩, ho.known_of_mem⟩

theorem LikeAll.known_of_mem {xs ys : List Node} :
    LikeAll known xs ys → ∀ name ∈ namesAll xs, known name
  | .nil => List.forall_mem_nil _
  | .cons h hs => List.forall_mem_append.mpr ⟨h.known_of_mem, hs.known_of_mem⟩

theorem LikeOption.known_of_mem {x y : Option Node} :
    LikeOption known x y → ∀ name ∈ namesOption x, known name
  | .none => List.forall_mem_nil _
  | .some h => h.known_of_mem

theorem LikeEntries.known_of_mem {xs ys : List (String × Node)} :
    LikeEntries known xs ys → ∀ name ∈ namesEntries xs, known name
  | .nil => List.forall_mem_nil _
  | .cons h hs => List.forall_mem_append.mpr ⟨h.known_of_mem, hs.known_of_mem⟩

theorem LikeParams.known_of_mem {ps qs : List Param} :
    LikeParams known ps qs → ∀ name ∈ namesParams ps, known name
  | .nil => List.forall_mem_nil _
  | .cons h hs => List.forall_mem_append.mpr ⟨h.known_of_mem, hs.known_of_mem⟩

theorem LikeBranches.known_of_mem {bs cs : List Branch} :
    LikeBranches known bs cs → ∀ name ∈ namesBranches bs, known name
  | .nil => List.forall_mem_nil _
  | .cons ht hb hs =>
    List.forall_mem_append.mpr ⟨List.forall_mem_append.mpr ⟨ht.known_of_mem, hb.known_of_mem⟩,
      hs.known_of_mem⟩
end

end ScriptBridge.AiScript
