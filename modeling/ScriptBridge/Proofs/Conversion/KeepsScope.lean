import ScriptBridge.Proofs.Conversion.Exported
import ScriptBridge.Proofs.Conversion.KeepsJumps
import ScriptBridge.Proofs.Conversion.Scoped

/-!
# Constructs that keep generated names in scope

`KeepsScope c`: what the converter `c` gives is in scope everywhere, if no name of its source is spelled
like a generated one. Each construct is converted through such a converter and then gives such output
itself: the names that it makes are defined before they are referred to.
-/

namespace ScriptBridge.Conversion

open TypeScript
open TypeScript.Node (Speak speak_children speak_cons speak_append)
open AiScript (InScope InScopeAll)

/-- No name of a module is spelled like a generated one. -/
def ModulesOrdinary (c : Context) (_ : List (String × String)) : Prop :=
  ∀ specifier span name, c.moduleName specifier span = .ok name → isOrdinary name = true

/-- A step gives what satisfies a predicate, if the names of modules are ordinary. -/
abbrev Makes {α : Type} (m : ConvertM α) (P : α → Prop) : Prop :=
  Carries ModulesOrdinary m P

/-- A node without names that are spelled like generated ones. -/
abbrev Ordinary (n : Node) : Prop :=
  n.speaks isOrdinary = true

/-- Nodes without names that are spelled like generated ones. -/
abbrev AllOrdinary (ns : List Node) : Prop :=
  Speak isOrdinary ns

/-- A converter whose output is in scope everywhere. -/
structure KeepsScope (c : Converter) : Prop where
  expression : ∀ n, Ordinary n → Makes (c.expression n) (Scoped [])
  effects : ∀ n, Ordinary n → Makes (c.effects n) (ScopedAll [])
  statement : ∀ n, Ordinary n → Makes (c.statement n) (ScopedAll [])

variable {env : List String}

theorem scoped_name {l : AiScript.Loc} {i : Ident} (h : Ordinary (.ident i)) :
    Scoped env (.ident l i.name) :=
  .inl (Node.speaks_ident.symm.trans h)

theorem makes_freshName : Makes freshName fun _ => True :=
  carries_freshName.mono fun _ _ => trivial

/-! ## Patterns -/

theorem bindSource_scoped {value : AiScript.Node} (h : Scoped env value) :
    Makes (bindSource value) fun r => Binds env r.1 r.2 := by
  fun_cases bindSource value with
  | case1 => exact carries_pure (binds_nil h)
  | case2 => exact makes_freshName.next fun temp => carries_pure (binds_define h)

mutual
theorem expandBinding_scoped (isMutable : Bool) {source : AiScript.Node} (h : Scoped env source)
    (pattern : Node) : Makes (expandBinding isMutable source pattern) (ScopedAll env) := by
  fun_cases expandBinding isMutable source pattern with
  | case1 i => exact (carries_checkName i).next fun _ => carries_pure (scopedAll_singleton.mpr h)
  | case2 m elements => exact expandElements_scoped isMutable h 0 elements
  | case3 m elements => exact expandProperties_scoped isMutable h elements
  | case4 => exact carries_refuse _ _
termination_by sizeOf pattern
decreasing_by all_goals (subst_vars; decreasing_tactic)

theorem expandElements_scoped (isMutable : Bool) {source : AiScript.Node} (h : Scoped env source)
    (i : Nat) (elements : List Node) :
    Makes (expandElements isMutable source i elements) (ScopedAll env) := by
  fun_cases expandElements isMutable source i elements with
  | case1 => exact carries_pure trivial
  | case2 m key target fallback isRest rest =>
    refine (carries_checkElement _ _ _).next fun _ => ?_
    refine (expandBinding_scoped isMutable (scoped_element h) target).bind fun first hf => ?_
    refine (expandElements_scoped isMutable h (i + 1) rest).bind fun more hm => carries_pure ?_
    exact hf.append hm
  | case3 n rest => exact expandElements_scoped isMutable h (i + 1) rest
termination_by sizeOf elements
decreasing_by all_goals (subst_vars; decreasing_tactic)

theorem expandProperties_scoped (isMutable : Bool) {source : AiScript.Node} (h : Scoped env source)
    (elements : List Node) : Makes (expandProperties isMutable source elements) (ScopedAll env) := by
  fun_cases expandProperties isMutable source elements with
  | case1 => exact carries_pure trivial
  | case2 m key target fallback isRest rest =>
    refine (carries_checkElement _ _ _).next fun _ => (carries_patternKey _).next fun name => ?_
    refine (expandBinding_scoped isMutable (scoped_member h) target).bind fun first hf => ?_
    refine (expandProperties_scoped isMutable h rest).bind fun more hm => carries_pure ?_
    exact hf.append hm
  | case3 n rest => exact expandProperties_scoped isMutable h rest
termination_by sizeOf elements
decreasing_by all_goals (subst_vars; decreasing_tactic)
end

/-- The definitions of a pattern refer to the name that stands for it. -/
theorem bindingParameter_scoped (isMutable : Bool) (pattern : Node) :
    Makes (bindingParameter isMutable pattern) fun r => ScopedAll [r.1] r.2 := by
  refine makes_freshName.next fun temp => ?_
  have htemp : Scoped [temp] (.ident {} temp) := .inr (List.mem_singleton.mpr rfl)
  exact (expandBinding_scoped isMutable htemp pattern).bind fun made hm => carries_pure hm

theorem paramTarget_scoped (target : Node) :
    Makes (paramTarget target) fun r => ScopedAll [r.1] r.2 := by
  fun_cases paramTarget target with
  | case1 i => exact (carries_checkName i).next fun _ => carries_pure trivial
  | case2 => exact bindingParameter_scoped false _

theorem expandDeclaration_scoped (isMutable : Bool) (pattern : Node) {value : AiScript.Node}
    (h : Scoped [] value) : Makes (expandDeclaration isMutable pattern value) (ScopedAll []) := by
  refine (bindSource_scoped h).bind ?_
  rintro ⟨source, made⟩ hsource
  refine (expandBinding_scoped isMutable hsource.value pattern).bind fun more hmore => carries_pure ?_
  exact hsource.append hmore

theorem stabilize_scoped {value : AiScript.Node} (h : Scoped [] value) :
    Makes (stabilize value) fun r => Binds [] r.1 r.2 := by
  unfold stabilize
  split
  · exact carries_pure (binds_nil h)
  · exact bindSource_scoped h

namespace KeepsScope

variable {c : Converter}

section
variable (hc : KeepsScope c)
include hc

theorem statements {ns : List Node} (h : AllOrdinary ns) :
    Makes (c.statements ns) (ScopedAll []) := by
  induction ns with
  | nil => exact carries_pure trivial
  | cons n ns ih =>
    obtain ⟨hn, hs⟩ := speak_cons.mp h
    refine (hc.statement n hn).bind fun first hf => (ih hs).bind fun more hm => carries_pure ?_
    exact hf.append hm

/-! ### Functions and literals -/

theorem optional {n : Option Node} (h : AllOrdinary n.toList) :
    Makes (expression? c n) fun r => ∀ v ∈ r, Scoped [] v := by
  cases n with
  | none => exact carries_pure (by simp)
  | some n =>
    refine (hc.expression n (h n (by simp))).bind fun r hr => carries_pure ?_
    rintro _ ⟨⟩
    exact hr

/-- What patterns among parameters expand to refers to the parameters. -/
theorem params {params : List Node} (h : AllOrdinary params) :
    Makes (convertParams c params) fun r =>
      (∀ p ∈ r.1, ParamScoped [] p) ∧ ScopedAll (r.1.map (·.name.text)) r.2 := by
  fun_induction convertParams c params with
  | case1 => exact carries_pure ⟨List.forall_mem_nil _, trivial⟩
  | case2 m target type fallback isOptional isRest rest _ ih => exact ih (speak_cons.mp h).2
  | case3 => exact carries_refuse_bind _ _
  | case4 m target type fallback isOptional isRest rest _ _ _ ih =>
    obtain ⟨hp, hr⟩ := speak_cons.mp h
    have hs : AllOrdinary (target :: type.toList ++ fallback.toList) := speak_children hp
    simp only [speak_append, speak_cons] at hs
    refine (hc.optional hs.2).bind fun d hd => ?_
    refine (paramTarget_scoped target).bind ?_
    rintro ⟨name, made⟩ hm
    refine (ih hr).bind ?_
    rintro ⟨ps, more⟩ ⟨hps, hmore⟩
    refine carries_pure ⟨List.forall_mem_cons.mpr ⟨?_, hps⟩, ?_⟩
    · exact AiScript.inScopeOption_iff.mpr hd
    · refine InScopeAll.append (InScopeAll.mono ?_ _ hm) (InScopeAll.mono ?_ _ hmore)
      · exact List.cons_subset_cons _ (List.nil_subset _)
      · exact List.subset_cons_self _ _
  | case5 n rest _ ih => exact ih (speak_cons.mp h).2

theorem function {n : Node} {isAsync isGenerator : Bool} {params : List Node} {body : Node}
    (hp : AllOrdinary params) (hb : Ordinary body) :
    Makes (convertFunction c n isAsync isGenerator params body) (Scoped []) := by
  unfold convertFunction
  refine carries_guard (carries_guard ?_)
  refine (hc.params hp).bind ?_
  rintro ⟨ps, prologue⟩ ⟨hps, hpr⟩
  have whole {ss : List AiScript.Node} (hss : ScopedAll [] ss) :
      Scoped [] (.fn {} ps (prologue ++ ss)) := by
    refine scoped_fn.mpr ⟨hps, ?_⟩
    rw [List.append_nil]
    exact InScopeAll.append hpr (scopedAll_of_closed hss)
  dsimp only
  split
  · exact (hc.statements (speak_children hb)).bind fun ss hss => carries_pure (whole hss)
  · refine (hc.expression _ hb).bind fun r hr => carries_pure (whole ?_)
    exact scopedAll_singleton.mpr hr

theorem parts {spans : List Node} (h : AllOrdinary spans) :
    Makes (templateParts c spans) fun r => ∀ n ∈ r, Scoped [] n := by
  fun_induction templateParts c spans with
  | case1 => exact carries_pure (List.forall_mem_nil _)
  | case2 m e text rest ih =>
    obtain ⟨hs, hr⟩ := speak_cons.mp h
    have he : AllOrdinary [e] := speak_children hs
    refine (hc.expression e (he e (by simp))).bind fun r hr' => (ih hr).bind fun more hm => ?_
    refine carries_pure (List.forall_mem_append.mpr ⟨List.forall_mem_cons.mpr ⟨hr', ?_⟩, hm⟩)
    exact scoped_templateText text
  | case3 n rest _ ih => exact ih (speak_cons.mp h).2

theorem items {elements : List Node} (h : AllOrdinary elements) :
    Makes (arrayItems c elements) fun r => ∀ n ∈ r, Scoped [] n := by
  induction elements with
  | nil => exact carries_pure (List.forall_mem_nil _)
  | cons n rest ih =>
    obtain ⟨hn, hr⟩ := speak_cons.mp h
    unfold arrayItems
    split
    · exact carries_refuse_bind _ _
    · exact carries_refuse_bind _ _
    · refine (hc.expression n hn).bind fun r hr' => (ih hr).bind fun more hm => carries_pure ?_
      exact List.forall_mem_cons.mpr ⟨hr', hm⟩

theorem entry {n : Node} (h : Ordinary n) : Makes (objectEntry c n) (Scoped [] ·.2) := by
  unfold objectEntry
  split
  · exact carries_refuse _ _
  · rename_i m name fallback
    have hn := (speak_cons.mp (speak_children h)).1
    exact carries_guard ((hc.expression (.ident name) hn).bind fun r hr => carries_pure hr)
  · rename_i m key value
    have hs : AllOrdinary [key, value] := speak_children h
    refine (carries_literalKey _ _).next fun key' => ?_
    exact (hc.expression value (hs value (by simp))).bind fun r hr => carries_pure hr
  · rename_i m key params body result kind isAsync isGenerator
    have hs : AllOrdinary (key :: params ++ body :: result.toList) := speak_children h
    simp only [speak_append, speak_cons] at hs
    refine (carries_literalKey _ _).next fun key' => carries_guard ?_
    exact (hc.function hs.1.2 hs.2.1).bind fun r hr => carries_pure hr
  · exact carries_refuse _ _

theorem entries {table : List (String × AiScript.Node)} {properties : List Node}
    (hv : ∀ e ∈ table, Scoped [] e.2) (h : AllOrdinary properties) :
    Makes (objectEntries c table properties) fun r => ∀ e ∈ r, Scoped [] e.2 := by
  induction properties generalizing table with
  | nil => exact carries_pure hv
  | cons n rest ih =>
    obtain ⟨hn, hr⟩ := speak_cons.mp h
    refine (hc.entry hn).bind ?_
    rintro ⟨key, value⟩ hvalue
    exact ih (Assoc.forall_mem_set hv hvalue) hr

/-! ### Access and operators -/

theorem args {args : List Node} (h : AllOrdinary args) :
    Makes (convertArgs c args) fun r => ∀ n ∈ r, Scoped [] n := by
  induction args with
  | nil => exact carries_pure (List.forall_mem_nil _)
  | cons n rest ih =>
    obtain ⟨hn, hr⟩ := speak_cons.mp h
    unfold convertArgs
    split
    · exact carries_refuse_bind _ _
    · refine (hc.expression n hn).bind fun r hr' => (ih hr).bind fun more hm => carries_pure ?_
      exact List.forall_mem_cons.mpr ⟨hr', hm⟩

theorem property {target : Node} {name : String} (h : Ordinary target) :
    Makes (convertProperty c target name) (Scoped []) := by
  unfold convertProperty
  have hu := hc.expression target.unwrap (Node.speaks_unwrap.trans h)
  refine hu.bind fun value hv => ?_
  split
  · refine (carries_startsFromHost _).next fun isHost => ?_
    split
    · rename_i hspace
      exact carries_pure (.inl (isOrdinary_hostName (Bool.and_eq_true_iff.mp hspace).1 name))
    · exact carries_pure hv
  · exact carries_pure hv

theorem assignTarget {n : Node} (h : Ordinary n) : Makes (assignTarget c n) (Scoped []) := by
  have hu : Ordinary n.unwrap := Node.speaks_unwrap.trans h
  unfold Conversion.assignTarget
  split
  · rename_i i he
    rw [he] at hu
    exact (carries_checkName i).next fun _ => carries_pure (scoped_name hu)
  · rename_i he
    exact hc.expression _ (he ▸ hu)
  · rename_i he
    exact hc.expression _ (he ▸ hu)
  · exact carries_refuse _ _

theorem stableTarget {n : Node} (h : Ordinary n) :
    Makes (stableTarget c n) fun r => Binds [] r.1 r.2 := by
  unfold Conversion.stableTarget
  refine (hc.assignTarget h).bind fun r hr => ?_
  split
  · obtain ⟨ht, hk⟩ := scoped_index.mp hr
    refine (stabilize_scoped ht).bind ?_
    rintro ⟨t, first⟩ ht
    refine (stabilize_scoped hk).bind ?_
    rintro ⟨k, second⟩ hk
    exact carries_pure (ht.both hk)
  · exact carries_pure (binds_nil hr)

end

mutual
theorem expandAssignment (hc : KeepsScope c) {source : AiScript.Node} (hv : Scoped env source)
    (target : Node) (h : Ordinary target) :
    Makes (expandAssignment c source target) (ScopedAll env) := by
  fun_cases Conversion.expandAssignment c source target with
  | case1 m e => exact expandAssignment hc hv e (speak_children h e (by simp [Node.children]))
  | case2 m elements => exact assignElements hc hv 0 elements (speak_children h)
  | case3 m properties => exact assignProperties hc hv properties (speak_children h)
  | case4 i =>
    refine (carries_checkName i).next fun _ => carries_pure ?_
    exact scopedAll_singleton.mpr ⟨scoped_name h, hv⟩
  | case5 | case6 =>
    refine (hc.expression _ h).bind fun r hr => carries_pure ?_
    exact scopedAll_singleton.mpr ⟨scoped_of_closed hr, hv⟩
  | case7 | case8 | case9 => exact carries_refuse _ _
termination_by sizeOf target
decreasing_by all_goals (subst_vars; decreasing_tactic)

theorem assignElements (hc : KeepsScope c) {source : AiScript.Node} (hv : Scoped env source) (i : Nat)
    (elements : List Node) (h : AllOrdinary elements) :
    Makes (assignElements c source i elements) (ScopedAll env) := by
  fun_cases Conversion.assignElements c source i elements with
  | case1 => exact carries_pure trivial
  | case2 m rest => exact assignElements hc hv (i + 1) rest (speak_cons.mp h).2
  | case3 target rest =>
    obtain ⟨ht, hr⟩ := speak_cons.mp h
    refine (expandAssignment hc (scoped_element hv) target ht).bind fun first hf => ?_
    refine (assignElements hc hv (i + 1) rest hr).bind fun more hm => carries_pure ?_
    exact hf.append hm
termination_by sizeOf elements
decreasing_by all_goals (subst_vars; decreasing_tactic)

theorem assignProperties (hc : KeepsScope c) {source : AiScript.Node} (hv : Scoped env source)
    (properties : List Node) (h : AllOrdinary properties) :
    Makes (assignProperties c source properties) (ScopedAll env) := by
  fun_cases Conversion.assignProperties c source properties with
  | case1 => exact carries_pure trivial
  | case2 m name fallback rest _ => exact carries_refuse_bind _ _
  | case3 m name fallback rest =>
    obtain ⟨hp, hr⟩ := speak_cons.mp h
    have hname : Ordinary (.ident name) := (speak_cons.mp (speak_children hp)).1
    refine (carries_checkName name).next fun _ => ?_
    refine (assignProperties hc hv rest hr).bind fun more hm => carries_pure ?_
    exact ⟨⟨scoped_name hname, scoped_member hv⟩, hm⟩
  | case4 m key target rest =>
    obtain ⟨hp, hr⟩ := speak_cons.mp h
    have hs : AllOrdinary [key, target] := speak_children hp
    refine (carries_patternKey key).next fun name => ?_
    refine (expandAssignment hc (scoped_member hv) target (hs target (by simp))).bind
      fun first hf => ?_
    refine (assignProperties hc hv rest hr).bind fun more hm => carries_pure ?_
    exact hf.append hm
  | case5 => exact carries_refuse _ _
termination_by sizeOf properties
decreasing_by all_goals (subst_vars; decreasing_tactic)
end

section
variable (hc : KeepsScope c)
include hc

theorem assignment {n left right : Node} {operator : String} (hl : Ordinary left)
    (hr : Ordinary right) : Makes (convertAssignment c n left operator right) (ScopedAll []) := by
  have hu : Ordinary left.unwrap := Node.speaks_unwrap.trans hl
  unfold convertAssignment
  dsimp only
  split
  · refine (hc.expression right hr).bind fun value hv => ?_
    refine (bindSource_scoped hv).bind ?_
    rintro ⟨source, made⟩ hsource
    refine (hc.expandAssignment hsource.value _ hu).bind fun more hmore => carries_pure ?_
    exact hsource.append hmore
  split
  · refine (hc.stableTarget hu).bind ?_
    rintro ⟨target, made⟩ htarget
    refine (hc.expression right hr).bind fun value hv => carries_pure (htarget.append ?_)
    exact scopedAll_singleton.mpr ⟨htarget.value, htarget.value, scoped_of_closed hv⟩
  · refine (hc.assignTarget hu).bind fun target ht => ?_
    refine (hc.expression right hr).bind fun value hv => ?_
    split
    · exact carries_pure (scopedAll_singleton.mpr ⟨ht, hv⟩)
    split
    · exact carries_pure (scopedAll_singleton.mpr ⟨ht, hv⟩)
    · exact carries_refuse _ _

theorem stepValue {operator : String} {operand : Node} {isAfter : Bool} (h : Ordinary operand) :
    Makes (stepValue c operator operand isAfter) (Scoped []) := by
  unfold Conversion.stepValue
  refine (hc.stableTarget h).bind ?_
  rintro ⟨target, made⟩ htarget
  refine makes_freshName.next fun temp => carries_pure ?_
  refine scoped_block.mpr ?_
  rw [List.append_assoc]
  refine htarget.append ?_
  have hstep := scoped_stepBy operator htarget.value
  dsimp only
  split
  · exact ⟨hstep, htarget.value, .inr (List.mem_cons_self ..), trivial⟩
  · refine ⟨htarget.value, InScope.mono (List.subset_cons_self _ _) _ hstep, .inr ?_, trivial⟩
    exact List.mem_cons_self ..

theorem prefixOperation {n operand : Node} {operator : String} (h : Ordinary operand) :
    Makes (convertPrefix c n operator operand) (Scoped []) := by
  have he := hc.expression operand h
  unfold convertPrefix
  split
  · exact hc.stepValue h
  · exact hc.stepValue h
  iterate 3
    · refine he.bind fun r hr => ?_
      split
      · exact carries_pure trivial
      · exact carries_pure hr
  · exact carries_refuse _ _

theorem binaryOperation {n left right : Node} {operator : String} (hl : Ordinary left)
    (hr : Ordinary right) : Makes (convertBinary c n left operator right) (Scoped []) := by
  unfold convertBinary
  refine carries_guard ?_
  split
  · exact carries_refuse _ _
  · refine (hc.expression left hl).bind fun l hl' => (hc.expression right hr).bind fun r hr' => ?_
    exact carries_pure ⟨hl', hr'⟩

/-! ### Variables, choices and loops -/

theorem declaration {n : Node} {isMutable : Bool} (h : Ordinary n) :
    Makes (convertVariable c isMutable n) (ScopedAll []) := by
  unfold convertVariable
  split
  · rename_i m target type value
    have hs : AllOrdinary (target :: type.toList ++ [value]) := speak_children h
    simp only [speak_append, speak_cons] at hs
    split
    · refine (carries_checkName _).next fun _ => ?_
      exact (hc.expression value hs.2.1).bind fun r hr => carries_pure (scopedAll_singleton.mpr hr)
    · exact (hc.expression value hs.2.1).bind fun r hr => expandDeclaration_scoped _ _ hr
  · exact carries_refuse _ _

theorem variableDeclarations {ns : List Node} {isMutable : Bool} (h : AllOrdinary ns) :
    Makes (convertVariables c isMutable ns) (ScopedAll []) := by
  induction ns with
  | nil => exact carries_pure trivial
  | cons n ns ih =>
    obtain ⟨hn, hs⟩ := speak_cons.mp h
    refine (hc.declaration hn).bind fun first hf => (ih hs).bind fun more hm => carries_pure ?_
    exact hf.append hm

theorem variableList {n : Node} (h : Ordinary n) : Makes (convertVariableList c n) (ScopedAll []) := by
  unfold convertVariableList
  split
  · exact hc.variableDeclarations (speak_children h)
  · exact carries_pure trivial

theorem condition {e : Node} (h : Ordinary e) : Makes (convertCondition c e) (Scoped []) :=
  (carries_checkCondition e).next fun _ => hc.expression e h

theorem branch {s : Node} (h : Ordinary s) : Makes (convertBranch c s) (Scoped []) := by
  refine (hc.statement s h).bind fun ns hns => ?_
  split
  · exact carries_pure trivial
  · exact carries_pure (scoped_asOne hns)

end

mutual
theorem elseBranches (hc : KeepsScope c) (n : Node) (h : Ordinary n) :
    Makes (elseBranches c n) fun r => (∀ b ∈ r.1, BranchScoped [] b) ∧ ∀ v ∈ r.2, Scoped [] v := by
  fun_cases Conversion.elseBranches c n with
  | case1 m test body otherwise =>
    have hs : AllOrdinary (test :: body :: otherwise.toList) := speak_children h
    simp only [speak_cons] at hs
    refine (hc.condition hs.1).bind fun t ht => (hc.branch hs.2.1).bind fun b hb => ?_
    refine (elseBranches? hc otherwise hs.2.2).bind ?_
    rintro ⟨branches, last⟩ hr
    exact carries_pure ⟨List.forall_mem_cons.mpr ⟨⟨ht, hb⟩, hr.1⟩, hr.2⟩
  | case2 n =>
    refine (hc.branch h).bind fun r hr => carries_pure ⟨List.forall_mem_nil _, ?_⟩
    rintro _ ⟨⟩
    exact hr
termination_by sizeOf n
decreasing_by all_goals (subst_vars; decreasing_tactic)

theorem elseBranches? (hc : KeepsScope c) (n : Option Node) (h : AllOrdinary n.toList) :
    Makes (elseBranches? c n) fun r => (∀ b ∈ r.1, BranchScoped [] b) ∧ ∀ v ∈ r.2, Scoped [] v := by
  fun_cases Conversion.elseBranches? c n with
  | case1 => exact carries_pure ⟨List.forall_mem_nil _, by simp⟩
  | case2 n => exact elseBranches hc n (h n (by simp))
termination_by sizeOf n
decreasing_by all_goals (subst_vars; decreasing_tactic)
end

section
variable (hc : KeepsScope c)
include hc

theorem elseValues {n : Node} (h : Ordinary n) :
    Makes (elseValues c n) fun r => (∀ b ∈ r.1, BranchScoped [] b) ∧ Scoped [] r.2 := by
  fun_induction Conversion.elseValues c n with
  | case1 m test whenTrue whenFalse ih =>
    have hs : AllOrdinary [test, whenTrue, whenFalse] := speak_children h
    simp only [speak_cons] at hs
    refine (hc.condition hs.1).bind fun t ht => (hc.expression _ hs.2.1).bind fun v hv => ?_
    refine (ih hs.2.2.1).bind ?_
    rintro ⟨branches, last⟩ hr
    exact carries_pure ⟨List.forall_mem_cons.mpr ⟨⟨ht, hv⟩, hr.1⟩, hr.2⟩
  | case2 n => exact (hc.expression n h).bind fun r hr => carries_pure ⟨List.forall_mem_nil _, hr⟩

/-! ### Switches -/

theorem caseStatements {clause : Node} {ns : List Node} (h : AllOrdinary ns) :
    Makes (caseStatements c clause ns) (ScopedAll []) := by
  induction ns with
  | nil => exact carries_refuse _ _
  | cons n ns ih =>
    obtain ⟨hn, hs⟩ := speak_cons.mp h
    unfold Conversion.caseStatements
    split
    · exact carries_pure trivial
    · exact carries_refuse _ _
    · exact hc.statement _ hn
    · refine carries_guard ((hc.statement _ hn).bind fun first hf => (ih hs).bind fun more hm => ?_)
      exact carries_pure (hf.append hm)

theorem caseBody {clause : Node} {ns : List Node} (h : AllOrdinary ns) :
    Makes (caseBody c clause ns) (ScopedAll []) :=
  hc.caseStatements (Node.speak_openTail ns h)

/-- The cases refer to the subject. -/
theorem addCase {subject : String} {cases : Cases} {clause test : Node} {ns : List Node}
    (hcases : cases.Scoped [subject]) (ht : Ordinary test) (h : AllOrdinary ns) :
    Makes (addCase c subject cases clause test ns) (Cases.Scoped [subject]) := by
  unfold Conversion.addCase
  refine (hc.expression test ht).bind fun t ht => ?_
  have hcondition : Scoped [subject] (.binary {} "==" (.ident {} subject) t) :=
    ⟨.inr (List.mem_singleton.mpr rfl), scoped_of_closed ht⟩
  have hpending : ∀ n ∈ cases.pending ++ [AiScript.Node.binary {} "==" (.ident {} subject) t],
      Scoped [subject] n :=
    List.forall_mem_append.mpr ⟨hcases.pending, List.forall_mem_singleton.mpr hcondition⟩
  dsimp only
  split
  · exact carries_pure { hcases with pending := hpending }
  · exact carries_pure hcases
  · rename_i first more hp _
    rw [hp] at hpending
    obtain ⟨hfirst, hmore⟩ := List.forall_mem_cons.mp hpending
    refine (hc.caseBody h).bind fun body hb => carries_pure ?_
    refine { hcases with branches := ?_, pending := List.forall_mem_nil _ }
    refine List.forall_mem_append.mpr ⟨hcases.branches, List.forall_mem_singleton.mpr ?_⟩
    exact ⟨scoped_anyOf hfirst hmore, scoped_block.mpr (scopedAll_of_closed hb)⟩

theorem addDefault {cases : Cases} {clause : Node} {ns : List Node} {isLast : Bool}
    (hcases : cases.Scoped env) (h : AllOrdinary ns) :
    Makes (addDefault c cases clause ns isLast) (Cases.Scoped env) := by
  unfold Conversion.addDefault
  split
  · refine carries_guard (carries_pure ?_)
    exact { hcases with default := trivial, pending := List.forall_mem_nil _ }
  · refine (hc.caseBody h).bind fun body hb => carries_pure ?_
    exact { hcases with default := scopedAll_of_closed hb, pending := List.forall_mem_nil _ }

theorem convertCases {subject : String} {cases : Cases} {ns : List Node}
    (hcases : cases.Scoped [subject]) (h : AllOrdinary ns) :
    Makes (convertCases c subject cases ns) (Cases.Scoped [subject]) := by
  induction ns generalizing cases with
  | nil => exact carries_pure hcases
  | cons n ns ih =>
    obtain ⟨hn, hns⟩ := speak_cons.mp h
    unfold Conversion.convertCases
    split
    · rename_i m test statements
      have hk : AllOrdinary (test :: statements) := speak_children hn
      obtain ⟨ht, hk⟩ := speak_cons.mp hk
      exact (hc.addCase hcases ht hk).bind fun cases' h' => ih h' hns
    · exact (hc.addDefault hcases (speak_children hn)).bind fun cases' h' => ih h' hns
    · exact ih hcases hns

theorem switch {subject : Node} {clauses : List Node} (hs : Ordinary subject)
    (h : AllOrdinary clauses) : Makes (convertSwitch c subject clauses) (ScopedAll []) := by
  unfold convertSwitch
  refine (hc.expression subject hs).bind fun value hv => makes_freshName.next fun temp => ?_
  have hnone : ({} : Cases).Scoped [temp] := ⟨nofun, trivial, nofun⟩
  refine (hc.convertCases hnone h).bind fun cases hcases => ?_
  exact carries_pure ⟨hv, hcases.statements⟩

/-! ### Loops -/

theorem guard {test : Node} (h : Ordinary test) : Makes (convertGuard c test) (ScopedAll []) := by
  unfold convertGuard
  refine (hc.condition h).bind fun t ht => ?_
  split
  · exact carries_pure trivial
  · refine carries_pure (scopedAll_singleton.mpr (scoped_cond.mpr ⟨ht, trivial, ?_, ?_⟩))
    · exact List.forall_mem_nil _
    · nofun

theorem guard? {test : Option Node} (h : AllOrdinary test.toList) :
    Makes (convertGuard? c test) (ScopedAll []) := by
  cases test with
  | none => exact carries_pure trivial
  | some test => exact hc.guard (h test (by simp))

theorem loopBody {body : Node} (h : Ordinary body) : Makes (loopBody c body) (ScopedAll []) := by
  unfold Conversion.loopBody
  split
  · exact hc.statements (speak_children h)
  · exact hc.statement _ h

theorem loopStart {start : Option Node} (h : AllOrdinary start.toList) :
    Makes (loopStart c start) (ScopedAll []) := by
  unfold Conversion.loopStart
  split
  · exact carries_pure trivial
  · exact hc.variableList (h _ (by simp))
  · exact hc.effects _ (h _ (by simp))

theorem loopAdvance {advance : Option Node} (h : AllOrdinary advance.toList) :
    Makes (loopAdvance c advance) (ScopedAll []) := by
  unfold Conversion.loopAdvance
  split
  · exact carries_pure trivial
  · exact hc.effects _ (h _ (by simp))

omit hc in
/-- A loop behind the definition of its flag. -/
theorem scopedAll_flagged {flag : String} {later rest : List AiScript.Node} (hl : ScopedAll [] later)
    (hr : ScopedAll [] rest) : ScopedAll [] [define flag (.bool {} true) true,
      .loop {} (afterFirst flag later :: rest)] :=
  ⟨trivial, ⟨scoped_afterFirst hl, scopedAll_of_closed hr⟩, trivial⟩

theorem forLoop {start test advance : Option Node} {body : Node}
    (h : AllOrdinary (start.toList ++ test.toList ++ advance.toList ++ [body])) :
    Makes (convertFor c start test advance body) (ScopedAll []) := by
  simp only [speak_append, speak_cons] at h
  obtain ⟨⟨⟨hs, ht⟩, ha⟩, hb, -⟩ := h
  unfold convertFor
  refine (hc.loopStart hs).bind fun prologue hs => (hc.guard? ht).bind fun check ht => ?_
  refine (hc.loopBody hb).bind fun round hb => (hc.loopAdvance ha).bind fun later ha => ?_
  dsimp only
  split
  · refine makes_freshName.next fun flag => carries_pure (scopedAll_singleton.mpr ?_)
    exact hs.append (scopedAll_flagged ha (ht.append hb))
  · have hloop : ScopedAll [] [.loop {} (check ++ round ++ later)] :=
      scopedAll_singleton.mpr ((ht.append hb).append ha)
    refine carries_pure ?_
    split
    · exact hloop
    · exact scopedAll_singleton.mpr (hs.append hloop)

theorem whileLoop {test body : Node} (ht : Ordinary test) (hb : Ordinary body) :
    Makes (convertWhile c test body) (ScopedAll []) := by
  unfold convertWhile
  refine (hc.guard ht).bind fun check ht => (hc.loopBody hb).bind fun round hb => carries_pure ?_
  exact scopedAll_singleton.mpr (ht.append hb)

theorem doLoop {body test : Node} (hb : Ordinary body) (ht : Ordinary test) :
    Makes (convertDo c body test) (ScopedAll []) := by
  unfold convertDo
  refine (hc.loopBody hb).bind fun round hb => (hc.guard ht).bind fun check ht => ?_
  split
  · refine makes_freshName.next fun flag => carries_pure (scopedAll_singleton.mpr ?_)
    exact scopedAll_flagged ht hb
  · exact carries_pure (scopedAll_singleton.mpr (hb.append ht))

omit hc in
theorem loopVariable {target : Node} : Makes (loopVariable target) fun r => ScopedAll [r.1] r.2 := by
  unfold Conversion.loopVariable
  split
  · split
    · exact (carries_checkName _).next fun _ => carries_pure trivial
    · exact bindingParameter_scoped _ _
  · exact carries_refuse _ _

theorem forOfLoop {target items body : Node} (hi : Ordinary items) (hb : Ordinary body) :
    Makes (convertForOf c target items body) (ScopedAll []) := by
  unfold convertForOf
  refine carries_guard ((carries_checkIterable _).next fun _ => ?_)
  refine (hc.expression items hi).bind fun items hi => ?_
  refine loopVariable.bind ?_
  rintro ⟨name, made⟩ hm
  refine (hc.loopBody hb).bind fun round hb => carries_pure (scopedAll_singleton.mpr ?_)
  exact scoped_each.mpr ⟨hi, scoped_asOne (InScopeAll.append hm (scopedAll_of_closed hb))⟩

end

end KeepsScope

end ScriptBridge.Conversion
