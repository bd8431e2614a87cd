import ScriptBridge.Conversion.Module
import ScriptBridge.Proofs.AiScript.Scope
import ScriptBridge.Proofs.Conversion.Generated
import ScriptBridge.Proofs.Conversion.SourceNames
import ScriptBridge.Proofs.Data.Assoc

/-!
# Scopes of the output

A generated name must be in scope where it is referred to; all other names are free. `Scoped` says so of
a node, `ScopedAll` of statements one after the other. The forms that constructs are built of are in
scope if their parts are.

* `isGenerated`: whether a name is spelled like a generated one.
* `Scoped`, `ScopedAll`: generated names are in scope.
* `Binds`: a name that may be referred to after some definitions.
-/

namespace ScriptBridge.Conversion

open AiScript (InScope InScopeAll InScopeParam InScopeBranch Loc Param Branch inScopeAll_append
  inScopeEach_iff inScopeEntries_iff inScopeOption_iff inScopeParams_iff inScopeBranches_iff)

/-! ## Names -/

/-- Whether a name is spelled like a generated one. -/
def isGenerated (name : String) : Bool :=
  "__gen_".toList.isPrefixOf name.toList

/-- Whether a name is not spelled like a generated one. -/
def isOrdinary (name : String) : Bool :=
  !isGenerated name

theorem isGenerated_generatedName (n : Nat) : isGenerated (generatedName n) = true := by
  obtain ⟨digits, -, htext⟩ := toList_generatedName n
  rw [isGenerated, htext]
  exact List.isPrefixOf_iff_prefix.mpr (List.prefix_append _ _)

/-- Names of the host are not generated. -/
theorem isOrdinary_hostName {space : String} (h : hostSpaces.contains space = true) (name : String) :
    isOrdinary (space ++ ":" ++ name) = true := by
  have hspaces : ∀ space ∈ hostSpaces, space.toList ≠ [] ∧ space.toList.head? ≠ some '_' := by
    decide
  obtain ⟨hne, hmark⟩ := hspaces space (List.contains_iff_mem.mp h)
  obtain ⟨c, rest, hc⟩ := List.exists_cons_of_ne_nil hne
  rw [isOrdinary, isGenerated, String.toList_append, String.toList_append, hc, Bool.not_eq_true']
  have hhead : "__gen_".toList = '_' :: "_gen_".toList := by decide
  rw [hhead, List.cons_append, List.cons_append, List.isPrefixOf_cons_cons, Bool.and_eq_false_iff]
  refine .inl (beq_eq_false_iff_ne.mpr fun he => hmark ?_)
  rw [hc, he]
  rfl

/-! ## Trees -/

/-- Every generated name that a node refers to is in scope. -/
abbrev Scoped (env : List String) (n : AiScript.Node) : Prop :=
  InScope (isOrdinary · = true) env n

/-- Every generated name that statements refer to is in scope. -/
abbrev ScopedAll (env : List String) (ns : List AiScript.Node) : Prop :=
  InScopeAll (isOrdinary · = true) env ns

variable {l : Loc} {n target key value test body : AiScript.Node} {ns ms : List AiScript.Node}
  {env : List String} {name op : String} {isMutable : Bool}

/-- What needs no names is in scope everywhere. -/
theorem scoped_of_closed (h : Scoped [] n) : Scoped env n :=
  InScope.mono (List.nil_subset _) n h

theorem scopedAll_of_closed (h : ScopedAll [] ns) : ScopedAll env ns :=
  InScopeAll.mono (List.nil_subset _) ns h

@[simp] theorem scopedAll_nil : ScopedAll env [] :=
  trivial

@[simp] theorem scopedAll_cons : ScopedAll env (n :: ns) ↔
    Scoped env n ∧ ScopedAll (n.defines ++ env) ns :=
  Iff.rfl

theorem scopedAll_singleton : ScopedAll env [n] ↔ Scoped env n :=
  and_iff_left trivial

@[simp] theorem scoped_ident : Scoped env (.ident l name) ↔ isOrdinary name = true ∨ name ∈ env :=
  Iff.rfl

@[simp] theorem scoped_num {x : Double} : Scoped env (.num l x) :=
  trivial

@[simp] theorem scoped_str : Scoped env (.str l name) :=
  trivial

@[simp] theorem scoped_bool {b : Bool} : Scoped env (.bool l b) :=
  trivial

@[simp] theorem scoped_null : Scoped env (.null l) :=
  trivial

@[simp] theorem scoped_exit : Scoped env (.exit l) :=
  trivial

@[simp] theorem scoped_next : Scoped env (.next l) :=
  trivial

@[simp] theorem scoped_prop : Scoped env (.prop l target name) ↔ Scoped env target :=
  Iff.rfl

@[simp] theorem scoped_index : Scoped env (.index l target key) ↔ Scoped env target ∧ Scoped env key :=
  Iff.rfl

@[simp] theorem scoped_call : Scoped env (.call l target ns) ↔
    Scoped env target ∧ ∀ n ∈ ns, Scoped env n :=
  and_congr Iff.rfl inScopeEach_iff

@[simp] theorem scoped_unary : Scoped env (.unary l op value) ↔ Scoped env value :=
  Iff.rfl

@[simp] theorem scoped_binary : Scoped env (.binary l op target value) ↔
    Scoped env target ∧ Scoped env value :=
  Iff.rfl

@[simp] theorem scoped_arr : Scoped env (.arr l ns) ↔ ∀ n ∈ ns, Scoped env n :=
  inScopeEach_iff

@[simp] theorem scoped_tmpl : Scoped env (.tmpl l ns) ↔ ∀ n ∈ ns, Scoped env n :=
  inScopeEach_iff

@[simp] theorem scoped_obj {es : List (String × AiScript.Node)} :
    Scoped env (.obj l es) ↔ ∀ e ∈ es, Scoped env e.2 :=
  inScopeEntries_iff

@[simp] theorem scoped_block : Scoped env (.block l ns) ↔ ScopedAll env ns :=
  Iff.rfl

@[simp] theorem scoped_loop : Scoped env (.loop l ns) ↔ ScopedAll env ns :=
  Iff.rfl

@[simp] theorem scoped_ret : Scoped env (.ret l value) ↔ Scoped env value :=
  Iff.rfl

@[simp] theorem scoped_assign : Scoped env (.assign l target value) ↔
    Scoped env target ∧ Scoped env value :=
  Iff.rfl

@[simp] theorem scoped_update : Scoped env (.update l op target value) ↔
    Scoped env target ∧ Scoped env value :=
  Iff.rfl

@[simp] theorem scoped_define : Scoped env (define name value isMutable) ↔ Scoped env value :=
  Iff.rfl

@[simp] theorem defines_define : (define name value isMutable).defines = [name] :=
  rfl

/-- A parameter with a default value in scope. -/
abbrev ParamScoped (env : List String) (p : Param) : Prop :=
  InScopeParam (isOrdinary · = true) env p

/-- A branch in scope. -/
abbrev BranchScoped (env : List String) (b : Branch) : Prop :=
  InScopeBranch (isOrdinary · = true) env b

theorem scoped_fn {ps : List Param} : Scoped env (.fn l ps ns) ↔
    (∀ p ∈ ps, ParamScoped env p) ∧ ScopedAll (ps.map (·.name.text) ++ env) ns :=
  and_congr inScopeParams_iff Iff.rfl

theorem scoped_cond {bs : List Branch} {otherwise : Option AiScript.Node} :
    Scoped env (.cond l test body bs otherwise) ↔
      Scoped env test ∧ Scoped env body ∧ (∀ b ∈ bs, BranchScoped env b) ∧
        ∀ n ∈ otherwise, Scoped env n :=
  and_congr Iff.rfl (and_congr Iff.rfl (and_congr inScopeBranches_iff inScopeOption_iff))

theorem scoped_each {item : AiScript.Name} : Scoped env (.each l item value body) ↔
    Scoped env value ∧ Scoped (item.text :: env) body :=
  Iff.rfl

/-! ### Places -/

theorem scoped_setLoc : Scoped env (n.setLoc l) ↔ Scoped env n := by
  cases n with
  | loneParam x | loneBranch x | loneArm x => cases x; exact Iff.rfl
  | _ => exact Iff.rfl

theorem defines_setLoc : (n.setLoc l).defines = n.defines := by
  cases n with
  | loneParam x | loneBranch x | loneArm x => cases x; rfl
  | _ => rfl

@[simp] theorem scoped_stamp {source : TypeScript.Node} : Scoped env (stamp source n) ↔ Scoped env n := by
  unfold stamp
  split
  · exact scoped_setLoc
  · exact Iff.rfl

@[simp] theorem defines_stamp {source : TypeScript.Node} : (stamp source n).defines = n.defines := by
  unfold stamp
  split
  · exact defines_setLoc
  · rfl

@[simp] theorem scopedAll_stamp {source : TypeScript.Node} :
    ScopedAll env (ns.map (stamp source)) ↔ ScopedAll env ns := by
  induction ns generalizing env with
  | nil => exact Iff.rfl
  | cons n ns ih => rw [List.map_cons, scopedAll_cons, scopedAll_cons, scoped_stamp, defines_stamp, ih]

/-! ## What constructs are built of -/

theorem scoped_asOne (h : ScopedAll env ns) : Scoped env (asOne ns) := by
  unfold asOne
  split
  · exact scopedAll_singleton.mp h
  · exact h

theorem scoped_member (h : Scoped env value) : Scoped env (member value name) := by
  unfold member
  split <;> simpa using h

theorem scoped_element {i : Nat} (h : Scoped env value) : Scoped env (element value i) := by
  simpa [element] using h

theorem scoped_anyOf (hf : Scoped env n) (hr : ∀ n ∈ ns, Scoped env n) : Scoped env (anyOf n ns) := by
  induction ns generalizing n with
  | nil => exact hf
  | cons next rest ih =>
    obtain ⟨hn, hr⟩ := List.forall_mem_cons.mp hr
    exact ih (scoped_binary.mpr ⟨hf, hn⟩) hr

theorem scoped_stepBy (operator : String) (h : Scoped env target) :
    Scoped env (stepBy operator target) :=
  scoped_update.mpr ⟨h, scoped_num⟩

/-- The first round of a loop and all later ones, in the scope of the flag. -/
theorem scoped_afterFirst (h : ScopedAll [] ns) : Scoped [name] (afterFirst name ns) := by
  refine scoped_cond.mpr ⟨by simp, by simp, by simp, ?_⟩
  rintro _ ⟨⟩
  exact scopedAll_of_closed h

theorem scoped_templateText (text : String) : ∀ n ∈ templateText text, Scoped env n := by
  unfold templateText
  split <;> simp

/-- The cases of a switch are in scope. -/
structure Cases.Scoped (env : List String) (cases : Cases) : Prop where
  branches : ∀ b ∈ cases.branches, Conversion.Scoped env b.1 ∧ Conversion.Scoped env b.2
  default : ScopedAll env cases.default
  pending : ∀ n ∈ cases.pending, Conversion.Scoped env n

theorem Cases.Scoped.statements {cases : Cases} (h : cases.Scoped env) :
    ScopedAll env cases.statements := by
  unfold Cases.statements
  split
  · exact h.default
  · rename_i test body rest hb
    have hbranches := h.branches
    rw [hb] at hbranches
    obtain ⟨⟨htest, hbody⟩, hrest⟩ := List.forall_mem_cons.mp hbranches
    refine scopedAll_singleton.mpr (scoped_cond.mpr ⟨htest, hbody, ?_, ?_⟩)
    · simp only [List.forall_mem_map]
      exact fun b hb => hrest b hb
    · split
      · nofun
      · rintro n ⟨⟩
        exact h.default

/-! ## Names in place of values -/

/-- Definitions in scope, and a value that may be referred to after them. -/
structure Binds (env : List String) (value : AiScript.Node) (made : List AiScript.Node) : Prop where
  defined : ScopedAll env made
  value : Scoped (made.flatMap AiScript.Node.defines ++ env) value

theorem binds_nil (h : Scoped env value) : Binds env value [] :=
  ⟨trivial, h⟩

theorem binds_define (h : Scoped env value) :
    Binds env (.ident l name) [define name value isMutable] :=
  ⟨scopedAll_singleton.mpr h, .inr (List.mem_cons_self ..)⟩

/-- What follows definitions may refer to the value. -/
theorem Binds.append (h : Binds env value ms)
    (hns : ScopedAll (ms.flatMap AiScript.Node.defines ++ env) ns) : ScopedAll env (ms ++ ns) :=
  inScopeAll_append.mpr ⟨h.defined, hns⟩

/-- Two values, each after the definitions of both. -/
theorem Binds.both {target key : AiScript.Node} (h : Binds [] target ms) (h' : Binds [] key ns) :
    Binds [] (.index l target key) (ms ++ ns) := by
  refine ⟨h.defined.append h'.defined, ?_, ?_⟩
  · refine InScope.mono ?_ _ h.value
    simp only [List.flatMap_append, List.append_nil]
    exact List.subset_append_left _ _
  · refine InScope.mono ?_ _ h'.value
    simp only [List.flatMap_append, List.append_nil]
    exact List.subset_append_right _ _

end ScriptBridge.Conversion
