import ScriptBridge.Proofs.Conversion.Exported
import ScriptBridge.Proofs.Conversion.Forms
import ScriptBridge.Proofs.Conversion.KeepsJumps

/-!
# Constructs that keep the right form

`KeepsForm c`: the converter `c` gives trees of the right form, if all names of its source can be read
in the output. Each construct is converted through such a converter and then gives such trees itself.
The names come from the source, from `freshName`, and from the context, which has those of modules;
the export table holds some of them until the end, so `NamesFit` is carried along.
-/

namespace ScriptBridge.Conversion

open TypeScript
open TypeScript.Node (Named named_children named_cons named_append)
open AiScript (IsPath)

/-- The names that a module is given for others and those that it exports are names of the output. -/
structure NamesFit (c : Context) (exports : List (String × String)) : Prop where
  modules : ∀ specifier span name, c.moduleName specifier span = .ok name → IsPath name
  keys : (exports.map Prod.fst).Nodup
  locals : ∀ e ∈ exports, IsPath e.2

/-- A step gives what satisfies a predicate, from names of the output to names of the output. -/
abbrev Gives {α : Type} (m : ConvertM α) (P : α → Prop) : Prop :=
  Carries NamesFit m P

/-- A converter that gives trees of the right form where the names of the source can be read. -/
structure KeepsForm (c : Converter) : Prop where
  expression : ∀ n : Node, n.named = true → Gives (c.expression n) Valued
  effects : ∀ n : Node, n.named = true → Gives (c.effects n) AllStand
  statement : ∀ n : Node, n.named = true → Gives (c.statement n) AllStand

theorem gives_freshName : Gives freshName IsPath := by
  refine carries_freshName.mono ?_
  rintro _ ⟨n, rfl⟩
  exact isPath_generatedName n

/-! ## Patterns -/

theorem bindSource_fits {value : AiScript.Node} (h : Valued value) :
    Gives (bindSource value) fun r => Valued r.1 ∧ AllStand r.2 := by
  fun_cases bindSource value with
  | case1 => exact carries_pure ⟨h, allStand_nil⟩
  | case2 => exact gives_freshName.bind fun temp ht => carries_pure ⟨ht, by simp [ht, h]⟩

mutual
theorem expandBinding_fits (isMutable : Bool) {source : AiScript.Node} (h : Valued source)
    (pattern : Node) (hn : pattern.named = true) :
    Gives (expandBinding isMutable source pattern) AllStand := by
  fun_cases expandBinding isMutable source pattern with
  | case1 i =>
    refine (carries_checkName i).next fun _ => carries_pure ?_
    simpa [h] using isPath_of_readable (Node.named_ident ▸ hn)
  | case2 m elements => exact expandElements_fits isMutable h 0 elements (named_children hn)
  | case3 m elements => exact expandProperties_fits isMutable h elements (named_children hn)
  | case4 => exact carries_refuse _ _
termination_by sizeOf pattern
decreasing_by all_goals (subst_vars; decreasing_tactic)

theorem expandElements_fits (isMutable : Bool) {source : AiScript.Node} (h : Valued source) (i : Nat)
    (elements : List Node) (hn : Named elements) :
    Gives (expandElements isMutable source i elements) AllStand := by
  fun_cases expandElements isMutable source i elements with
  | case1 => exact carries_pure allStand_nil
  | case2 m key target fallback isRest rest =>
    obtain ⟨he, hr⟩ := named_cons.mp hn
    have ht : Named (key.toList ++ target :: fallback.toList) := named_children he
    simp only [named_append, named_cons] at ht
    refine (carries_checkElement _ _ _).next fun _ => ?_
    refine (expandBinding_fits isMutable (valued_element h) target ht.2.1).bind fun first hf => ?_
    refine (expandElements_fits isMutable h (i + 1) rest hr).bind fun more hm => carries_pure ?_
    exact allStand_append.mpr ⟨hf, hm⟩
  | case3 n rest => exact expandElements_fits isMutable h (i + 1) rest (named_cons.mp hn).2
termination_by sizeOf elements
decreasing_by all_goals (subst_vars; decreasing_tactic)

theorem expandProperties_fits (isMutable : Bool) {source : AiScript.Node} (h : Valued source)
    (elements : List Node) (hn : Named elements) :
    Gives (expandProperties isMutable source elements) AllStand := by
  fun_cases expandProperties isMutable source elements with
  | case1 => exact carries_pure allStand_nil
  | case2 m key target fallback isRest rest =>
    obtain ⟨he, hr⟩ := named_cons.mp hn
    have ht : Named (key.toList ++ target :: fallback.toList) := named_children he
    simp only [named_append, named_cons] at ht
    refine (carries_checkElement _ _ _).next fun _ => (carries_patternKey _).next fun name => ?_
    refine (expandBinding_fits isMutable (valued_member h) target ht.2.1).bind fun first hf => ?_
    refine (expandProperties_fits isMutable h rest hr).bind fun more hm => carries_pure ?_
    exact allStand_append.mpr ⟨hf, hm⟩
  | case3 n rest => exact expandProperties_fits isMutable h rest (named_cons.mp hn).2
termination_by sizeOf elements
decreasing_by all_goals (subst_vars; decreasing_tactic)
end

theorem bindingParameter_fits (isMutable : Bool) {pattern : Node} (hn : pattern.named = true) :
    Gives (bindingParameter isMutable pattern) fun r => IsPath r.1 ∧ AllStand r.2 := by
  refine gives_freshName.bind fun temp ht => ?_
  refine (expandBinding_fits isMutable (valued_ident.mpr ht) pattern hn).bind fun made hm => ?_
  exact carries_pure ⟨ht, hm⟩

theorem paramTarget_fits {target : Node} (hn : target.named = true) :
    Gives (paramTarget target) fun r => IsPath r.1 ∧ AllStand r.2 := by
  fun_cases paramTarget target with
  | case1 i =>
    refine (carries_checkName i).next fun _ => carries_pure ⟨?_, allStand_nil⟩
    exact isPath_of_readable (Node.named_ident ▸ hn)
  | case2 => exact bindingParameter_fits false hn

theorem expandDeclaration_fits (isMutable : Bool) {pattern : Node} {value : AiScript.Node}
    (hn : pattern.named = true) (h : Valued value) :
    Gives (expandDeclaration isMutable pattern value) AllStand := by
  refine (bindSource_fits h).bind ?_
  rintro ⟨source, made⟩ ⟨hs, hm⟩
  refine (expandBinding_fits isMutable hs pattern hn).bind fun more hmore => carries_pure ?_
  exact allStand_append.mpr ⟨hm, hmore⟩

theorem stabilize_fits {value : AiScript.Node} (h : Valued value) :
    Gives (stabilize value) fun r => Valued r.1 ∧ AllStand r.2 := by
  unfold stabilize
  split
  · exact carries_pure ⟨h, allStand_nil⟩
  · exact bindSource_fits h

namespace KeepsForm

variable {c : Converter}

section
variable (hc : KeepsForm c)
include hc

theorem statements {ns : List Node} (h : Named ns) : Gives (c.statements ns) AllStand := by
  induction ns with
  | nil => exact carries_pure allStand_nil
  | cons n ns ih =>
    obtain ⟨hn, hs⟩ := named_cons.mp h
    refine (hc.statement n hn).bind fun first hf => (ih hs).bind fun more hm => carries_pure ?_
    exact allStand_append.mpr ⟨hf, hm⟩

/-! ### Functions and literals -/

theorem optional {n : Option Node} (h : Named n.toList) :
    Gives (expression? c n) fun r => ∀ v ∈ r, Valued v := by
  cases n with
  | none => exact carries_pure (by simp)
  | some n =>
    refine (hc.expression n (h n (by simp))).bind fun r hr => carries_pure ?_
    rintro _ ⟨⟩
    exact hr

theorem params {params : List Node} (h : Named params) :
    Gives (convertParams c params) fun r => (∀ p ∈ r.1, ParamFits p) ∧ AllStand r.2 := by
  fun_induction convertParams c params with
  | case1 => exact carries_pure ⟨List.forall_mem_nil _, allStand_nil⟩
  | case2 m target type fallback isOptional isRest rest _ ih => exact ih (named_cons.mp h).2
  | case3 => exact carries_refuse_bind _ _
  | case4 m target type fallback isOptional isRest rest _ _ _ ih =>
    obtain ⟨hp, hr⟩ := named_cons.mp h
    have hs : Named (target :: type.toList ++ fallback.toList) := named_children hp
    simp only [named_append, named_cons] at hs
    refine (hc.optional hs.2).bind fun d hd => ?_
    refine (paramTarget_fits hs.1.1).bind ?_
    rintro ⟨name, made⟩ hm
    refine (ih hr).bind ?_
    rintro ⟨ps, more⟩ hps
    refine carries_pure ?_
    exact ⟨List.forall_mem_cons.mpr ⟨⟨hm.1, hd⟩, hps.1⟩, allStand_append.mpr ⟨hm.2, hps.2⟩⟩
  | case5 n rest _ ih => exact ih (named_cons.mp h).2

theorem function {n : Node} {isAsync isGenerator : Bool} {params : List Node} {body : Node}
    (hp : Named params) (hb : body.named = true) :
    Gives (convertFunction c n isAsync isGenerator params body) Valued := by
  unfold convertFunction
  refine carries_guard (carries_guard ?_)
  refine (hc.params hp).bind ?_
  rintro ⟨ps, prologue⟩ ⟨hps, hpr⟩
  dsimp only
  split
  · refine (hc.statements (named_children hb)).bind fun ss hss => carries_pure ?_
    exact valued_fn hps (allStand_append.mpr ⟨hpr, hss⟩)
  · refine (hc.expression _ hb).bind fun r hr => carries_pure ?_
    exact valued_fn hps (allStand_append.mpr ⟨hpr, by simpa using hr⟩)

theorem parts {spans : List Node} (h : Named spans) :
    Gives (templateParts c spans) fun r => ∀ n ∈ r, Valued n := by
  fun_induction templateParts c spans with
  | case1 => exact carries_pure (List.forall_mem_nil _)
  | case2 m e text rest ih =>
    obtain ⟨hs, hr⟩ := named_cons.mp h
    have he : Named [e] := named_children hs
    refine (hc.expression e (he e (by simp))).bind fun r hr' => (ih hr).bind fun more hm => ?_
    refine carries_pure (List.forall_mem_append.mpr ⟨List.forall_mem_cons.mpr ⟨hr', ?_⟩, hm⟩)
    exact valued_templateText text
  | case3 n rest _ ih => exact ih (named_cons.mp h).2

theorem items {elements : List Node} (h : Named elements) :
    Gives (arrayItems c elements) fun r => ∀ n ∈ r, Valued n := by
  induction elements with
  | nil => exact carries_pure (List.forall_mem_nil _)
  | cons n rest ih =>
    obtain ⟨hn, hr⟩ := named_cons.mp h
    unfold arrayItems
    split
    · exact carries_refuse_bind _ _
    · exact carries_refuse_bind _ _
    · refine (hc.expression n hn).bind fun r hr' => (ih hr).bind fun more hm => carries_pure ?_
      exact List.forall_mem_cons.mpr ⟨hr', hm⟩

theorem entry {n : Node} (h : n.named = true) : Gives (objectEntry c n) (Valued ·.2) := by
  unfold objectEntry
  split
  · exact carries_refuse _ _
  · rename_i m name fallback
    have hn := (named_cons.mp (named_children h)).1
    exact carries_guard ((hc.expression (.ident name) hn).bind fun r hr => carries_pure hr)
  · rename_i m key value
    have hs : Named [key, value] := named_children h
    refine (carries_literalKey _ _).next fun key' => ?_
    exact (hc.expression value (hs value (by simp))).bind fun r hr => carries_pure hr
  · rename_i m key params body result kind isAsync isGenerator
    have hs : Named (key :: params ++ body :: result.toList) := named_children h
    simp only [named_append, named_cons] at hs
    refine (carries_literalKey _ _).next fun key' => carries_guard ?_
    exact (hc.function hs.1.2 hs.2.1).bind fun r hr => carries_pure hr
  · exact carries_refuse _ _

theorem entries {table : List (String × AiScript.Node)} {properties : List Node}
    (hk : (table.map Prod.fst).Nodup) (hv : ∀ e ∈ table, Valued e.2) (h : Named properties) :
    Gives (objectEntries c table properties) fun r =>
      (r.map Prod.fst).Nodup ∧ ∀ e ∈ r, Valued e.2 := by
  induction properties generalizing table with
  | nil => exact carries_pure ⟨hk, hv⟩
  | cons n rest ih =>
    obtain ⟨hn, hr⟩ := named_cons.mp h
    refine (hc.entry hn).bind ?_
    rintro ⟨key, value⟩ hvalue
    refine ih (Assoc.nodup_set hk) ?_ hr
    exact Assoc.forall_mem_set hv hvalue

/-! ### Access and operators -/

theorem args {args : List Node} (h : Named args) :
    Gives (convertArgs c args) fun r => ∀ n ∈ r, Valued n := by
  induction args with
  | nil => exact carries_pure (List.forall_mem_nil _)
  | cons n rest ih =>
    obtain ⟨hn, hr⟩ := named_cons.mp h
    unfold convertArgs
    split
    · exact carries_refuse_bind _ _
    · refine (hc.expression n hn).bind fun r hr' => (ih hr).bind fun more hm => carries_pure ?_
      exact List.forall_mem_cons.mpr ⟨hr', hm⟩

theorem property {target : Node} {name : Ident} (h : target.named = true)
    (hn : isReadable name.name = true) : Gives (convertProperty c target name.name) Valued := by
  unfold convertProperty
  have hu := hc.expression target.unwrap (Node.named_unwrap.trans h)
  refine hu.bind fun value hv => ?_
  split
  · refine (carries_startsFromHost _).next fun isHost => ?_
    split
    · exact carries_pure (isPath_hostName hv (isReadable_segment hn))
    · exact carries_pure (valued_prop.mpr hv)
  · exact carries_pure (valued_prop.mpr hv)

theorem assignTarget {n : Node} (h : n.named = true) : Gives (assignTarget c n) Valued := by
  have hu : n.unwrap.named = true := Node.named_unwrap.trans h
  unfold Conversion.assignTarget
  split
  · rename_i i he
    rw [he] at hu
    refine (carries_checkName i).next fun _ => carries_pure ?_
    exact isPath_of_readable (Node.named_ident ▸ hu)
  · rename_i he
    exact hc.expression _ (he ▸ hu)
  · rename_i he
    exact hc.expression _ (he ▸ hu)
  · exact carries_refuse _ _

theorem stableTarget {n : Node} (h : n.named = true) :
    Gives (stableTarget c n) fun r => Valued r.1 ∧ AllStand r.2 := by
  unfold Conversion.stableTarget
  refine (hc.assignTarget h).bind fun r hr => ?_
  split
  · obtain ⟨ht, hk⟩ := valued_index.mp hr
    refine (stabilize_fits ht).bind ?_
    rintro ⟨t, first⟩ ⟨ht, hf⟩
    refine (stabilize_fits hk).bind ?_
    rintro ⟨k, second⟩ ⟨hk, hs⟩
    refine carries_pure ?_
    exact ⟨valued_index.mpr ⟨ht, hk⟩, allStand_append.mpr ⟨hf, hs⟩⟩
  · exact carries_pure ⟨hr, allStand_nil⟩

end

mutual
theorem expandAssignment (hc : KeepsForm c) {source : AiScript.Node} (hv : Valued source)
    (target : Node) (h : target.named = true) :
    Gives (expandAssignment c source target) AllStand := by
  fun_cases Conversion.expandAssignment c source target with
  | case1 m e => exact expandAssignment hc hv e (named_children h e (by simp [Node.children]))
  | case2 m elements => exact assignElements hc hv 0 elements (named_children h)
  | case3 m properties => exact assignProperties hc hv properties (named_children h)
  | case4 i =>
    refine (carries_checkName i).next fun _ => carries_pure ?_
    simpa [hv] using isPath_of_readable (Node.named_ident ▸ h)
  | case5 | case6 =>
    refine (hc.expression _ h).bind fun r hr => carries_pure ?_
    simpa [hv] using hr
  | case7 | case8 | case9 => exact carries_refuse _ _
termination_by sizeOf target
decreasing_by all_goals (subst_vars; decreasing_tactic)

theorem assignElements (hc : KeepsForm c) {source : AiScript.Node} (hv : Valued source) (i : Nat)
    (elements : List Node) (h : Named elements) :
    Gives (assignElements c source i elements) AllStand := by
  fun_cases Conversion.assignElements c source i elements with
  | case1 => exact carries_pure allStand_nil
  | case2 m rest => exact assignElements hc hv (i + 1) rest (named_cons.mp h).2
  | case3 target rest =>
    obtain ⟨ht, hr⟩ := named_cons.mp h
    refine (expandAssignment hc (valued_element hv) target ht).bind fun first hf => ?_
    refine (assignElements hc hv (i + 1) rest hr).bind fun more hm => carries_pure ?_
    exact allStand_append.mpr ⟨hf, hm⟩
termination_by sizeOf elements
decreasing_by all_goals (subst_vars; decreasing_tactic)

theorem assignProperties (hc : KeepsForm c) {source : AiScript.Node} (hv : Valued source)
    (properties : List Node) (h : Named properties) :
    Gives (assignProperties c source properties) AllStand := by
  fun_cases Conversion.assignProperties c source properties with
  | case1 => exact carries_pure allStand_nil
  | case2 => exact carries_refuse_bind _ _
  | case3 m name fallback rest =>
    obtain ⟨hp, hr⟩ := named_cons.mp h
    have hname := Node.named_ident ▸ (named_cons.mp (named_children hp)).1
    refine (carries_checkName name).next fun _ => ?_
    refine (assignProperties hc hv rest hr).bind fun more hm => carries_pure ?_
    exact allStand_cons.mpr ⟨stands_assign.mpr ⟨isPath_of_readable hname, valued_member hv⟩, hm⟩
  | case4 m key target rest =>
    obtain ⟨hp, hr⟩ := named_cons.mp h
    have hs : Named [key, target] := named_children hp
    refine (carries_patternKey key).next fun name => ?_
    refine (expandAssignment hc (valued_member hv) target (hs target (by simp))).bind
      fun first hf => ?_
    refine (assignProperties hc hv rest hr).bind fun more hm => carries_pure ?_
    exact allStand_append.mpr ⟨hf, hm⟩
  | case5 => exact carries_refuse _ _
termination_by sizeOf properties
decreasing_by all_goals (subst_vars; decreasing_tactic)
end

section
variable (hc : KeepsForm c)
include hc

theorem assignment {n left right : Node} {operator : String} (hl : left.named = true)
    (hr : right.named = true) : Gives (convertAssignment c n left operator right) AllStand := by
  have hu : left.unwrap.named = true := Node.named_unwrap.trans hl
  unfold convertAssignment
  dsimp only
  split
  · refine (hc.expression right hr).bind fun value hv => ?_
    refine (bindSource_fits hv).bind ?_
    rintro ⟨source, made⟩ ⟨hs, hm⟩
    refine (hc.expandAssignment hs _ hu).bind fun more hmore => carries_pure ?_
    exact allStand_append.mpr ⟨hm, hmore⟩
  split
  · rename_i op hop
    refine (hc.stableTarget hu).bind ?_
    rintro ⟨target, made⟩ ⟨ht, hm⟩
    refine (hc.expression right hr).bind fun value hv => carries_pure ?_
    simp [ht, hm, hv, binaryOperators_of_expanded hop]
  · refine (hc.assignTarget hu).bind fun target ht => ?_
    refine (hc.expression right hr).bind fun value hv => ?_
    split
    · exact carries_pure (by simp [ht, hv])
    split
    · rename_i hop
      exact carries_pure (by simpa [ht, hv] using hop)
    · exact carries_refuse _ _

theorem stepValue {operator : String} {operand : Node} {isAfter : Bool}
    (h : operand.named = true) : Gives (stepValue c operator operand isAfter) Valued := by
  unfold Conversion.stepValue
  refine (hc.stableTarget h).bind ?_
  rintro ⟨target, made⟩ ⟨ht, hm⟩
  refine gives_freshName.bind fun temp htemp => carries_pure ?_
  have hstep := stands_stepBy operator ht
  refine valued_block.mpr (allStand_append.mpr ⟨allStand_append.mpr ⟨hm, ?_⟩, ?_⟩)
  · split <;> simp [hstep, htemp, ht]
  · simpa using (valued_ident.mpr htemp).stands

theorem prefixOperation {n operand : Node} {operator : String} (h : operand.named = true) :
    Gives (convertPrefix c n operator operand) Valued := by
  have he := hc.expression operand h
  unfold convertPrefix
  split
  · exact hc.stepValue h
  · exact hc.stepValue h
  · refine he.bind fun r hr => ?_
    split
    · exact carries_pure valued_bool
    · exact carries_pure (valued_unary.mpr ⟨by decide, hr⟩)
  · refine he.bind fun r hr => ?_
    split
    · exact carries_pure valued_num
    · exact carries_pure (valued_unary.mpr ⟨by decide, hr⟩)
  · refine he.bind fun r hr => ?_
    split
    · exact carries_pure valued_num
    · exact carries_pure (valued_unary.mpr ⟨by decide, hr⟩)
  · exact carries_refuse _ _

theorem binaryOperation {n left right : Node} {operator : String} (hl : left.named = true)
    (hr : right.named = true) : Gives (convertBinary c n left operator right) Valued := by
  unfold convertBinary
  refine carries_guard ?_
  split
  · exact carries_refuse _ _
  · rename_i op hop
    refine (hc.expression left hl).bind fun l hl' => (hc.expression right hr).bind fun r hr' => ?_
    exact carries_pure (valued_binary.mpr ⟨binaryOperators_of_table hop, hl', hr'⟩)

/-! ### Variables, choices and loops -/

theorem declaration {n : Node} {isMutable : Bool} (h : n.named = true) :
    Gives (convertVariable c isMutable n) AllStand := by
  unfold convertVariable
  split
  · rename_i m target type value
    have hs : Named (target :: type.toList ++ [value]) := named_children h
    simp only [named_append, named_cons] at hs
    split
    · rename_i i
      refine (carries_checkName i).next fun _ => ?_
      refine (hc.expression value hs.2.1).bind fun r hr => carries_pure ?_
      simpa [hr] using isPath_of_readable (Node.named_ident ▸ hs.1.1)
    · exact (hc.expression value hs.2.1).bind fun r hr => expandDeclaration_fits _ hs.1.1 hr
  · exact carries_refuse _ _

theorem variableDeclarations {ns : List Node} {isMutable : Bool} (h : Named ns) :
    Gives (convertVariables c isMutable ns) AllStand := by
  induction ns with
  | nil => exact carries_pure allStand_nil
  | cons n ns ih =>
    obtain ⟨hn, hs⟩ := named_cons.mp h
    refine (hc.declaration hn).bind fun first hf => (ih hs).bind fun more hm => carries_pure ?_
    exact allStand_append.mpr ⟨hf, hm⟩

theorem variableList {n : Node} (h : n.named = true) :
    Gives (convertVariableList c n) AllStand := by
  unfold convertVariableList
  split
  · exact hc.variableDeclarations (named_children h)
  · exact carries_pure allStand_nil

theorem condition {e : Node} (h : e.named = true) : Gives (convertCondition c e) Valued :=
  (carries_checkCondition e).next fun _ => hc.expression e h

theorem branch {s : Node} (h : s.named = true) : Gives (convertBranch c s) Stands := by
  refine (hc.statement s h).bind fun ns hns => ?_
  split
  · exact carries_pure valued_null.stands
  · exact carries_pure (stands_asOne hns)

end

mutual
theorem elseBranches (hc : KeepsForm c) (n : Node) (h : n.named = true) :
    Gives (elseBranches c n) fun r => (∀ b ∈ r.1, BranchFits b) ∧ ∀ v ∈ r.2, Stands v := by
  fun_cases Conversion.elseBranches c n with
  | case1 m test body otherwise =>
    have hs : Named (test :: body :: otherwise.toList) := named_children h
    simp only [named_cons] at hs
    refine (hc.condition hs.1).bind fun t ht => (hc.branch hs.2.1).bind fun b hb => ?_
    refine (elseBranches? hc otherwise hs.2.2).bind ?_
    rintro ⟨branches, last⟩ hr
    refine carries_pure ?_
    exact ⟨List.forall_mem_cons.mpr ⟨⟨ht, hb⟩, hr.1⟩, hr.2⟩
  | case2 n =>
    refine (hc.branch h).bind fun r hr => carries_pure ⟨List.forall_mem_nil _, ?_⟩
    rintro _ ⟨⟩
    exact hr
termination_by sizeOf n
decreasing_by all_goals (subst_vars; decreasing_tactic)

theorem elseBranches? (hc : KeepsForm c) (n : Option Node) (h : Named n.toList) :
    Gives (elseBranches? c n) fun r => (∀ b ∈ r.1, BranchFits b) ∧ ∀ v ∈ r.2, Stands v := by
  fun_cases Conversion.elseBranches? c n with
  | case1 => exact carries_pure ⟨List.forall_mem_nil _, by simp⟩
  | case2 n => exact elseBranches hc n (h n (by simp))
termination_by sizeOf n
decreasing_by all_goals (subst_vars; decreasing_tactic)
end

section
variable (hc : KeepsForm c)
include hc

theorem elseValues {n : Node} (h : n.named = true) :
    Gives (elseValues c n) fun r => (∀ b ∈ r.1, BranchFits b) ∧ Valued r.2 := by
  fun_induction Conversion.elseValues c n with
  | case1 m test whenTrue whenFalse ih =>
    have hs : Named [test, whenTrue, whenFalse] := named_children h
    simp only [named_cons] at hs
    refine (hc.condition hs.1).bind fun t ht => (hc.expression _ hs.2.1).bind fun v hv => ?_
    refine (ih hs.2.2.1).bind ?_
    rintro ⟨branches, last⟩ hr
    refine carries_pure ?_
    exact ⟨List.forall_mem_cons.mpr ⟨⟨ht, hv.stands⟩, hr.1⟩, hr.2⟩
  | case2 n => exact (hc.expression n h).bind fun r hr => carries_pure ⟨List.forall_mem_nil _, hr⟩

/-! ### Switches -/

theorem caseStatements {clause : Node} {ns : List Node} (h : Named ns) :
    Gives (caseStatements c clause ns) AllStand := by
  induction ns with
  | nil => exact carries_refuse _ _
  | cons n ns ih =>
    obtain ⟨hn, hs⟩ := named_cons.mp h
    unfold Conversion.caseStatements
    split
    · exact carries_pure allStand_nil
    · exact carries_refuse _ _
    · exact hc.statement _ hn
    · refine carries_guard ((hc.statement _ hn).bind fun first hf => (ih hs).bind fun more hm => ?_)
      exact carries_pure (allStand_append.mpr ⟨hf, hm⟩)

theorem caseBody {clause : Node} {ns : List Node} (h : Named ns) :
    Gives (caseBody c clause ns) AllStand :=
  hc.caseStatements (Node.named_openTail ns h)

theorem addCase {subject : String} {cases : Cases} {clause test : Node} {ns : List Node}
    (hs : IsPath subject) (hcases : cases.Fit) (ht : test.named = true) (h : Named ns) :
    Gives (addCase c subject cases clause test ns) Cases.Fit := by
  unfold Conversion.addCase
  refine (hc.expression test ht).bind fun t ht => ?_
  have hcondition : Valued (.binary {} "==" (.ident {} subject) t) :=
    valued_binary.mpr ⟨by decide, hs, ht⟩
  have hpending : ∀ n ∈ cases.pending ++ [AiScript.Node.binary {} "==" (.ident {} subject) t],
      Valued n :=
    List.forall_mem_append.mpr ⟨hcases.pending, List.forall_mem_singleton.mpr hcondition⟩
  dsimp only
  split
  · exact carries_pure { hcases with pending := hpending }
  · exact carries_pure hcases
  · rename_i first more hp _
    rw [hp] at hpending
    obtain ⟨hfirst, hmore⟩ := List.forall_mem_cons.mp hpending
    refine (hc.caseBody h).bind fun body hb => carries_pure ?_
    refine { hcases with branches := ?_, pending := List.forall_mem_nil _ }
    refine List.forall_mem_append.mpr ⟨hcases.branches, List.forall_mem_singleton.mpr ?_⟩
    exact ⟨valued_anyOf hfirst hmore, stands_block.mpr hb⟩

theorem addDefault {cases : Cases} {clause : Node} {ns : List Node} {isLast : Bool}
    (hcases : cases.Fit) (h : Named ns) :
    Gives (addDefault c cases clause ns isLast) Cases.Fit := by
  unfold Conversion.addDefault
  split
  · refine carries_guard (carries_pure ?_)
    exact { hcases with default := allStand_nil, pending := List.forall_mem_nil _ }
  · refine (hc.caseBody h).bind fun body hb => carries_pure ?_
    exact { hcases with default := hb, pending := List.forall_mem_nil _ }

theorem convertCases {subject : String} {cases : Cases} {ns : List Node} (hs : IsPath subject)
    (hcases : cases.Fit) (h : Named ns) : Gives (convertCases c subject cases ns) Cases.Fit := by
  induction ns generalizing cases with
  | nil => exact carries_pure hcases
  | cons n ns ih =>
    obtain ⟨hn, hns⟩ := named_cons.mp h
    unfold Conversion.convertCases
    split
    · rename_i m test statements
      have hk : Named (test :: statements) := named_children hn
      obtain ⟨ht, hk⟩ := named_cons.mp hk
      exact (hc.addCase hs hcases ht hk).bind fun cases' h' => ih h' hns
    · exact (hc.addDefault hcases (named_children hn)).bind fun cases' h' => ih h' hns
    · exact ih hcases hns

theorem switch {subject : Node} {clauses : List Node} (hs : subject.named = true)
    (h : Named clauses) : Gives (convertSwitch c subject clauses) AllStand := by
  unfold convertSwitch
  have hnone : ({} : Cases).Fit := ⟨fun _ h => (nomatch h), allStand_nil, fun _ h => (nomatch h)⟩
  refine (hc.expression subject hs).bind fun value hv => gives_freshName.bind fun temp ht => ?_
  refine (hc.convertCases ht hnone h).bind fun cases hcases => ?_
  exact carries_pure (allStand_cons.mpr ⟨stands_define.mpr ⟨ht, hv⟩, hcases.statements⟩)

/-! ### Loops -/

theorem guard {test : Node} (h : test.named = true) : Gives (convertGuard c test) AllStand := by
  unfold convertGuard
  refine (hc.condition h).bind fun t ht => ?_
  split
  · exact carries_pure allStand_nil
  · refine carries_pure (allStand_cons.mpr ⟨Valued.stands ?_, allStand_nil⟩)
    exact valued_cond (valued_unary.mpr ⟨by decide, ht⟩) stands_exit (by simp) (by simp)

theorem guard? {test : Option Node} (h : Named test.toList) :
    Gives (convertGuard? c test) AllStand := by
  cases test with
  | none => exact carries_pure allStand_nil
  | some test => exact hc.guard (h test (by simp))

theorem loopBody {body : Node} (h : body.named = true) : Gives (loopBody c body) AllStand := by
  unfold Conversion.loopBody
  split
  · exact hc.statements (named_children h)
  · exact hc.statement _ h

theorem loopStart {start : Option Node} (h : Named start.toList) :
    Gives (loopStart c start) AllStand := by
  unfold Conversion.loopStart
  split
  · exact carries_pure allStand_nil
  · exact hc.variableList (h _ (by simp))
  · exact hc.effects _ (h _ (by simp))

theorem loopAdvance {advance : Option Node} (h : Named advance.toList) :
    Gives (loopAdvance c advance) AllStand := by
  unfold Conversion.loopAdvance
  split
  · exact carries_pure allStand_nil
  · exact hc.effects _ (h _ (by simp))

theorem forLoop {start test advance : Option Node} {body : Node}
    (h : Named (start.toList ++ test.toList ++ advance.toList ++ [body])) :
    Gives (convertFor c start test advance body) AllStand := by
  simp only [named_append, named_cons] at h
  obtain ⟨⟨⟨hs, ht⟩, ha⟩, hb, -⟩ := h
  unfold convertFor
  refine (hc.loopStart hs).bind fun prologue hs => (hc.guard? ht).bind fun check ht => ?_
  refine (hc.loopBody hb).bind fun round hb => (hc.loopAdvance ha).bind fun later ha => ?_
  dsimp only
  split
  · refine gives_freshName.bind fun flag hf => carries_pure ?_
    simp [hs, ht, hb, hf, stands_afterFirst hf ha]
  · refine carries_pure ?_
    split <;> simp [hs, ht, hb, ha]

theorem whileLoop {test body : Node} (ht : test.named = true) (hb : body.named = true) :
    Gives (convertWhile c test body) AllStand := by
  unfold convertWhile
  refine (hc.guard ht).bind fun check ht => (hc.loopBody hb).bind fun round hb => carries_pure ?_
  simp [ht, hb]

theorem doLoop {body test : Node} (hb : body.named = true) (ht : test.named = true) :
    Gives (convertDo c body test) AllStand := by
  unfold convertDo
  refine (hc.loopBody hb).bind fun round hb => (hc.guard ht).bind fun check ht => ?_
  split
  · refine gives_freshName.bind fun flag hf => carries_pure ?_
    simp [hb, hf, stands_afterFirst hf ht]
  · exact carries_pure (by simp [hb, ht])

omit hc in
theorem loopVariable {target : Node} (h : target.named = true) :
    Gives (loopVariable target) fun r => IsPath r.1 ∧ AllStand r.2 := by
  unfold Conversion.loopVariable
  split
  · rename_i m keyword m' name type value
    have hd : Named [.variableDeclaration m' name type value] := named_children h
    have hs : Named (name :: type.toList ++ value.toList) :=
      named_children (hd _ (List.mem_singleton.mpr rfl))
    simp only [named_append, named_cons] at hs
    split
    · rename_i i
      refine (carries_checkName i).next fun _ => carries_pure ⟨?_, allStand_nil⟩
      exact isPath_of_readable (Node.named_ident ▸ hs.1.1)
    · exact bindingParameter_fits _ hs.1.1
  · exact carries_refuse _ _

theorem forOfLoop {target items body : Node} (ht : target.named = true) (hi : items.named = true)
    (hb : body.named = true) : Gives (convertForOf c target items body) AllStand := by
  unfold convertForOf
  refine carries_guard ((carries_checkIterable _).next fun _ => ?_)
  refine (hc.expression items hi).bind fun items hi => ?_
  refine (loopVariable ht).bind ?_
  rintro ⟨name, made⟩ ⟨hn, hm⟩
  refine (hc.loopBody hb).bind fun round hb => carries_pure ?_
  refine allStand_cons.mpr ⟨stands_each hn hi ?_, allStand_nil⟩
  exact stands_asOne (allStand_append.mpr ⟨hm, hb⟩)

end

end KeepsForm

end ScriptBridge.Conversion
