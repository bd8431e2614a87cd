import ScriptBridge.AiScript.Node

/-!
# Scope

A name is in scope after its definition in a list of statements, in the body of a function with a
parameter of that name, and in the body of a loop over values with a variable of that name. Names that
are free need no scope.

* `InScope`, `InScopeAll`: every name that is referred to is free or in scope, in a node and in
  statements one after the other.
* `InScope.mono`: what is in scope stays so among more names.
* `inScopeAll_append`: statements are in scope after others that define names for them.
-/

namespace ScriptBridge.AiScript

/-- The names that a statement defines for those after it. -/
def Node.defines : Node → List String
  | .define _ name _ _ => [name.text]
  | _ => []

mutual
/-- Every name that is referred to in a node is free or in scope. -/
def InScope (free : String → Prop) (env : List String) : Node → Prop
  | .num .. | .str .. | .bool .. | .null _ | .exit _ | .next _ | .bare .. => True
  | .ident _ name => free name ∨ name ∈ env
  | .tmpl _ ns | .arr _ ns => InScopeEach free env ns
  | .obj _ entries => InScopeEntries free env entries
  | .prop _ target _ => InScope free env target
  | .index _ target key => InScope free env target ∧ InScope free env key
  | .call _ target args => InScope free env target ∧ InScopeEach free env args
  | .unary _ _ operand => InScope free env operand
  | .binary _ _ left right => InScope free env left ∧ InScope free env right
  | .fn _ params body =>
    InScopeParams free env params ∧ InScopeAll free (params.map (·.name.text) ++ env) body
  | .cond _ test body branches otherwise =>
    InScope free env test ∧ InScope free env body ∧ InScopeBranches free env branches ∧
      InScopeOption free env otherwise
  | .select _ subject arms otherwise =>
    InScope free env subject ∧ InScopeArms free env arms ∧ InScopeOption free env otherwise
  | .block _ statements | .loop _ statements => InScopeAll free env statements
  | .each _ item items body => InScope free env items ∧ InScope free (item.text :: env) body
  | .define _ _ value _ => InScope free env value
  | .assign _ target value | .update _ _ target value =>
    InScope free env target ∧ InScope free env value
  | .ret _ value => InScope free env value
  | .loneParam param => InScopeParam free env param
  | .loneBranch branch => InScopeBranch free env branch
  | .loneArm arm => InScopeArm free env arm

/-- Statements one after the other, each with the names that those before it define. -/
def InScopeAll (free : String → Prop) (env : List String) : List Node → Prop
  | [] => True
  | n :: rest => InScope free env n ∧ InScopeAll free (n.defines ++ env) rest

def InScopeEach (free : String → Prop) (env : List String) : List Node → Prop
  | [] => True
  | n :: rest => InScope free env n ∧ InScopeEach free env rest

def InScopeEntries (free : String → Prop) (env : List String) : List (String × Node) → Prop
  | [] => True
  | (_, n) :: rest => InScope free env n ∧ InScopeEntries free env rest

def InScopeOption (free : String → Prop) (env : List String) : Option Node → Prop
  | none => True
  | some n => InScope free env n

def InScopeParam (free : String → Prop) (env : List String) : Param → Prop
  | .mk _ _ _ fallback => InScopeOption free env fallback

def InScopeParams (free : String → Prop) (env : List String) : List Param → Prop
  | [] => True
  | p :: rest => InScopeParam free env p ∧ InScopeParams free env rest

def InScopeBranch (free : String → Prop) (env : List String) : Branch → Prop
  | .mk _ test body => InScope free env test ∧ InScope free env body

def InScopeBranches (free : String → Prop) (env : List String) : List Branch → Prop
  | [] => True
  | b :: rest => InScopeBranch free env b ∧ InScopeBranches free env rest

def InScopeArm (free : String → Prop) (env : List String) : Arm → Prop
  | .mk _ pattern body => InScope free env pattern ∧ InScope free env body

def InScopeArms (free : String → Prop) (env : List String) : List Arm → Prop
  | [] => True
  | a :: rest => InScopeArm free env a ∧ InScopeArms free env rest
end

variable {free : String → Prop} {env env' : List String}

/-! ## More names -/

theorem extend_subset {env env' : List String} (names : List String) (hs : env ⊆ env') :
    names ++ env ⊆ names ++ env' :=
  List.append_subset.mpr ⟨List.subset_append_left _ _, List.Subset.trans hs (List.subset_append_right _ _)⟩

mutual
/-- What is in scope stays so among more names. -/
theorem InScope.mono {env env' : List String} (hs : env ⊆ env') :
    (n : Node) → InScope free env n → InScope free env' n
  | .num .., _ | .str .., _ | .bool .., _ | .null _, _ | .exit _, _ | .next _, _ | .bare .., _ =>
    trivial
  | .ident _ _, h => h.imp_right (hs ·)
  | .tmpl _ ns, h | .arr _ ns, h => InScopeEach.mono hs ns h
  | .obj _ es, h => InScopeEntries.mono hs es h
  | .prop _ t _, h => InScope.mono hs t h
  | .index _ t k, h => ⟨InScope.mono hs t h.1, InScope.mono hs k h.2⟩
  | .call _ t ns, h => ⟨InScope.mono hs t h.1, InScopeEach.mono hs ns h.2⟩
  | .unary _ _ x, h => InScope.mono hs x h
  | .binary _ _ x y, h => ⟨InScope.mono hs x h.1, InScope.mono hs y h.2⟩
  | .fn _ ps body, h =>
    ⟨InScopeParams.mono hs ps h.1, InScopeAll.mono (extend_subset _ hs) body h.2⟩
  | .cond _ t b bs e, h =>
    ⟨InScope.mono hs t h.1, InScope.mono hs b h.2.1, InScopeBranches.mono hs bs h.2.2.1,
      InScopeOption.mono hs e h.2.2.2⟩
  | .select _ s as e, h =>
    ⟨InScope.mono hs s h.1, InScopeArms.mono hs as h.2.1, InScopeOption.mono hs e h.2.2⟩
  | .block _ ns, h | .loop _ ns, h => InScopeAll.mono hs ns h
  | .each _ _ items body, h =>
    ⟨InScope.mono hs items h.1, InScope.mono (List.cons_subset_cons _ hs) body h.2⟩
  | .define _ _ v _, h => InScope.mono hs v h
  | .assign _ t v, h | .update _ _ t v, h => ⟨InScope.mono hs t h.1, InScope.mono hs v h.2⟩
  | .ret _ v, h => InScope.mono hs v h
  | .loneParam p, h => InScopeParam.mono hs p h
  | .loneBranch b, h => InScopeBranch.mono hs b h
  | .loneArm a, h => InScopeArm.mono hs a h

theorem InScopeAll.mono {env env' : List String} (hs : env ⊆ env') :
    (ns : List Node) → InScopeAll free env ns → InScopeAll free env' ns
  | [], _ => trivial
  | n :: ns, h =>
    ⟨InScope.mono hs n h.1, InScopeAll.mono (extend_subset _ hs) ns h.2⟩

theorem InScopeEach.mono {env env' : List String} (hs : env ⊆ env') :
    (ns : List Node) → InScopeEach free env ns → InScopeEach free env' ns
  | [], _ => trivial
  | n :: ns, h => ⟨InScope.mono hs n h.1, InScopeEach.mono hs ns h.2⟩

theorem InScopeEntries.mono {env env' : List String} (hs : env ⊆ env') :
    (es : List (String × Node)) → InScopeEntries free env es → InScopeEntries free env' es
  | [], _ => trivial
  | (_, n) :: es, h => ⟨InScope.mono hs n h.1, InScopeEntries.mono hs es h.2⟩

theorem InScopeOption.mono {env env' : List String} (hs : env ⊆ env') :
    (o : Option Node) → InScopeOption free env o → InScopeOption free env' o
  | none, _ => trivial
  | some n, h => InScope.mono hs n h

theorem InScopeParam.mono {env env' : List String} (hs : env ⊆ env') :
    (p : Param) → InScopeParam free env p → InScopeParam free env' p
  | .mk _ _ _ o, h => InScopeOption.mono hs o h

theorem InScopeParams.mono {env env' : List String} (hs : env ⊆ env') :
    (ps : List Param) → InScopeParams free env ps → InScopeParams free env' ps
  | [], _ => trivial
  | p :: ps, h => ⟨InScopeParam.mono hs p h.1, InScopeParams.mono hs ps h.2⟩

theorem InScopeBranch.mono {env env' : List String} (hs : env ⊆ env') :
    (b : Branch) → InScopeBranch free env b → InScopeBranch free env' b
  | .mk _ t b, h => ⟨InScope.mono hs t h.1, InScope.mono hs b h.2⟩

theorem InScopeBranches.mono {env env' : List String} (hs : env ⊆ env') :
    (bs : List Branch) → InScopeBranches free env bs → InScopeBranches free env' bs
  | [], _ => trivial
  | b :: bs, h => ⟨InScopeBranch.mono hs b h.1, InScopeBranches.mono hs bs h.2⟩

theorem InScopeArm.mono {env env' : List String} (hs : env ⊆ env') :
    (a : Arm) → InScopeArm free env a → InScopeArm free env' a
  | .mk _ p b, h => ⟨InScope.mono hs p h.1, InScope.mono hs b h.2⟩

theorem InScopeArms.mono {env env' : List String} (hs : env ⊆ env') :
    (as : List Arm) → InScopeArms free env as → InScopeArms free env' as
  | [], _ => trivial
  | a :: as, h => ⟨InScopeArm.mono hs a h.1, InScopeArms.mono hs as h.2⟩
end

/-! ## Lists -/

variable {n : Node} {ns ms : List Node}

theorem inScopeEach_iff : InScopeEach free env ns ↔ ∀ n ∈ ns, InScope free env n := by
  induction ns with
  | nil => simp [InScopeEach]
  | cons n ns ih => rw [InScopeEach, ih, List.forall_mem_cons]

theorem inScopeEntries_iff {es : List (String × Node)} :
    InScopeEntries free env es ↔ ∀ e ∈ es, InScope free env e.2 := by
  induction es with
  | nil => simp [InScopeEntries]
  | cons e es ih => rw [InScopeEntries, ih, List.forall_mem_cons]

theorem inScopeOption_iff {o : Option Node} :
    InScopeOption free env o ↔ ∀ n ∈ o, InScope free env n := by
  cases o <;> simp [InScopeOption]

theorem inScopeParams_iff {ps : List Param} :
    InScopeParams free env ps ↔ ∀ p ∈ ps, InScopeParam free env p := by
  induction ps with
  | nil => simp [InScopeParams]
  | cons p ps ih => rw [InScopeParams, ih, List.forall_mem_cons]

theorem inScopeBranches_iff {bs : List Branch} :
    InScopeBranches free env bs ↔ ∀ b ∈ bs, InScopeBranch free env b := by
  induction bs with
  | nil => simp [InScopeBranches]
  | cons b bs ih => rw [InScopeBranches, ih, List.forall_mem_cons]

/-- Statements are in scope after others that define names for them. -/
theorem inScopeAll_append : InScopeAll free env (ns ++ ms) ↔
    InScopeAll free env ns ∧ InScopeAll free (ns.flatMap Node.defines ++ env) ms := by
  induction ns generalizing env with
  | nil => simp [InScopeAll]
  | cons n ns ih =>
    have hsame : InScopeAll free (ns.flatMap Node.defines ++ (n.defines ++ env)) ms ↔
        InScopeAll free ((n :: ns).flatMap Node.defines ++ env) ms := by
      constructor <;> refine InScopeAll.mono (fun x hx => ?_) ms <;>
        simp only [List.flatMap_cons, List.mem_append] at hx ⊢ <;> grind
    rw [List.cons_append, InScopeAll, ih, hsame, InScopeAll, and_assoc]

/-- Statements that need no names of others. -/
theorem InScopeAll.append (h : InScopeAll free env ns) (h' : InScopeAll free env ms) :
    InScopeAll free env (ns ++ ms) :=
  inScopeAll_append.mpr ⟨h, InScopeAll.mono (List.subset_append_right _ _) ms h'⟩

end ScriptBridge.AiScript
