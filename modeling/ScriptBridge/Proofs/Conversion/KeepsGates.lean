import ScriptBridge.Proofs.Conversion.KeepsCalls
import ScriptBridge.Proofs.Conversion.Leaves

/-!
# Constructs that check their parts

`KeepsGates c`: whatever the converter `c` converts is checked afterwards. Each construct is converted
through such a converter, and then all its live parts are checked, and it has asked its own gate if it
has one. Patterns are converted without a converter: whatever could have a gate in them is refused.

* `expandBinding_checked`: declared patterns.
* `KeepsGates`: converters, with one lemma for each construct.
-/

namespace ScriptBridge.Conversion

open TypeScript Typing

/-! ## Keys and declared patterns -/

/-- A key that is not computed has no parts. -/
theorem checked_key {key : Node} {text : String} (h : propertyKey? key = .ok (some text))
    (memory : Memory) : Checked memory key := by
  unfold propertyKey? at h
  split at h
  · exact checked_of_parts rfl allChecked_nil
  · exact checked_of_parts rfl allChecked_nil
  · exact checked_of_parts rfl allChecked_nil
  · cases h

theorem patternKey_checked (key : Node) :
    Leaves (patternKey key) fun _ memory => Checked memory key := by
  refine (leaves_orNumeralFault _).bind fun text => ?_
  split
  · exact leaves_pure fun memory h => checked_key h memory
  · exact leaves_refuse _ _

theorem literalKey_checked (n key : Node) :
    Leaves (literalKey n key) fun _ memory => Checked memory key := by
  refine (leaves_orNumeralFault _).bind fun text => ?_
  split
  · exact leaves_pure fun memory h => checked_key h memory
  · exact leaves_refuse _ _

/-- An element without a default has no value that would be evaluated. -/
theorem checkElement_checked (n : Node) (fallback : Option Node) (isRest : Bool) :
    Leaves (checkElement n fallback isRest) fun _ memory => AllChecked memory fallback.toList := by
  unfold checkElement
  refine leaves_guard ?_
  cases fallback with
  | none => exact leaves_pure fun _ => allChecked_nil
  | some value => exact leaves_refuse _ _

section
variable (isMutable : Bool)

mutual
theorem expandBinding_checked (source : AiScript.Node) (pattern : Node) :
    Leaves (expandBinding isMutable source pattern) fun _ memory => Checked memory pattern := by
  fun_cases expandBinding isMutable source pattern with
  | case1 i => exact (leaves_checkName i).next fun _ => leaves_pure fun _ => checked_ident i
  | case2 m elements =>
    exact (expandElements_checked source 0 elements).mono fun _ _ h => checked_of_parts rfl h
  | case3 m elements =>
    exact (expandProperties_checked source elements).mono fun _ _ h => checked_of_parts rfl h
  | case4 => exact leaves_refuse _ _
termination_by sizeOf pattern
decreasing_by all_goals (subst_vars; decreasing_tactic)

theorem expandElements_checked (source : AiScript.Node) (i : Nat) (elements : List Node) :
    Leaves (expandElements isMutable source i elements) fun _ memory =>
      AllChecked memory (elements.flatMap elementParts) := by
  fun_cases expandElements isMutable source i elements with
  | case1 => exact leaves_pure fun _ => allChecked_nil
  | case2 m key target fallback isRest rest =>
    refine (checkElement_checked _ fallback isRest).bind fun _ => ?_
    refine (expandBinding_checked _ target).bind fun first => ?_
    refine (expandElements_checked source (i + 1) rest).bind fun more => leaves_pure ?_
    intro memory hr ht hf
    simp only [List.flatMap_cons, elementParts, allChecked_append, allChecked_cons]
    exact ⟨⟨ht, hf⟩, hr⟩
  | case3 n rest hn =>
    have : elementParts n = [] := by
      unfold elementParts
      split
      · exact absurd rfl (hn _ _ _ _ _)
      · rfl
    rw [List.flatMap_cons, this, List.nil_append]
    exact expandElements_checked source (i + 1) rest
termination_by sizeOf elements
decreasing_by all_goals (subst_vars; decreasing_tactic)

theorem expandProperties_checked (source : AiScript.Node) (elements : List Node) :
    Leaves (expandProperties isMutable source elements) fun _ memory =>
      AllChecked memory (elements.filter isBindingElement) := by
  fun_cases expandProperties isMutable source elements with
  | case1 => exact leaves_pure fun _ => allChecked_nil
  | case2 m key target fallback isRest rest =>
    refine (checkElement_checked _ fallback isRest).bind fun _ => ?_
    refine (patternKey_checked _).bind fun name => ?_
    refine (expandBinding_checked _ target).bind fun first => ?_
    refine (expandProperties_checked source rest).bind fun more => leaves_pure ?_
    intro memory hr ht hk hf
    have hkey : AllChecked memory key.toList := by
      cases key with
      | none => exact allChecked_nil
      | some key => exact allChecked_singleton.mpr hk
    rw [List.filter_cons_of_pos rfl, allChecked_cons]
    refine ⟨checked_of_parts rfl ?_, hr⟩
    exact allChecked_append.mpr ⟨hkey, allChecked_cons.mpr ⟨ht, hf⟩⟩
  | case3 n rest hn =>
    have : ¬ isBindingElement n = true := by
      unfold isBindingElement
      split
      · exact absurd rfl (hn _ _ _ _ _)
      · decide
    rw [List.filter_cons_of_neg this]
    exact expandProperties_checked source rest
termination_by sizeOf elements
decreasing_by all_goals (subst_vars; decreasing_tactic)
end

theorem bindingParameter_checked (pattern : Node) :
    Leaves (bindingParameter isMutable pattern) fun _ memory => Checked memory pattern :=
  leaves_freshName.next fun _ => (expandBinding_checked isMutable _ pattern).bind fun _ =>
    leaves_pure fun _ h => h

theorem expandDeclaration_checked (pattern : Node) (value : AiScript.Node) :
    Leaves (expandDeclaration isMutable pattern value) fun _ memory => Checked memory pattern :=
  (leaves_bindSource value).next fun _ => (expandBinding_checked isMutable _ pattern).bind fun _ =>
    leaves_pure fun _ h => h

end

theorem paramTarget_checked (target : Node) :
    Leaves (paramTarget target) fun _ memory => Checked memory target := by
  unfold paramTarget
  split
  · exact (leaves_checkName _).next fun _ => leaves_pure fun _ => checked_ident _
  · exact bindingParameter_checked false _

/-! ## Converters -/

/-- A converter whose results are of checked nodes. -/
structure KeepsGates (c : Converter) : Prop where
  expression : ∀ n, Leaves (c.expression n) fun _ memory => Checked memory n
  effects : ∀ n, Leaves (c.effects n) fun _ memory => Checked memory n
  statement : ∀ n, Leaves (c.statement n) fun _ memory => Checked memory n

namespace KeepsGates

variable {c : Converter}

section
variable (hc : KeepsGates c)
include hc

theorem statements (ns : List Node) :
    Leaves (c.statements ns) fun _ memory => AllChecked memory ns := by
  induction ns with
  | nil => exact leaves_pure fun _ => allChecked_nil
  | cons n ns ih =>
    refine (hc.statement n).bind fun first => ih.bind fun more => leaves_pure ?_
    exact fun _ hs hn => allChecked_cons.mpr ⟨hn, hs⟩

/-! ### Functions and literals -/

theorem optional (n : Option Node) :
    Leaves (expression? c n) fun _ memory => AllChecked memory n.toList := by
  cases n with
  | none => exact leaves_pure fun _ => allChecked_nil
  | some n =>
    exact (hc.expression n).bind fun _ => leaves_pure fun _ h =>
      allChecked_singleton.mpr h

theorem params (params : List Node) : Leaves (convertParams c params) fun _ memory =>
    AllChecked memory (params.filter isParameter) := by
  fun_induction convertParams c params with
  | case1 => exact leaves_pure fun _ => allChecked_nil
  | case2 m target type fallback isOptional isRest rest hthis ih =>
    refine ih.mono fun _ memory hr => ?_
    rw [List.filter_cons_of_pos rfl, allChecked_cons]
    refine ⟨checked_of_parts rfl ?_, hr⟩
    rw [parts, if_pos hthis]
    exact allChecked_nil
  | case3 => exact leaves_refuse_bind _ _
  | case4 m target type fallback isOptional isRest rest hthis _ _ ih =>
    refine (hc.optional fallback).bind fun value => (paramTarget_checked target).bind fun made => ?_
    refine ih.bind fun more => leaves_pure fun memory hr ht hf => ?_
    rw [List.filter_cons_of_pos rfl, allChecked_cons]
    refine ⟨checked_of_parts rfl ?_, hr⟩
    rw [parts, if_neg hthis]
    exact allChecked_cons.mpr ⟨ht, hf⟩
  | case5 n rest hn ih =>
    have : ¬ isParameter n = true := by
      unfold isParameter
      split
      · exact absurd rfl (hn _ _ _ _ _ _)
      · decide
    rw [List.filter_cons_of_neg this]
    exact ih

theorem function (n : Node) (isAsync isGenerator : Bool) (params : List Node) (body : Node) :
    Leaves (convertFunction c n isAsync isGenerator params body) fun _ memory =>
      AllChecked memory (params.filter isParameter ++ [body]) := by
  unfold convertFunction
  refine leaves_guard (leaves_guard ((hc.params params).bind fun made => ?_))
  simp only [allChecked_append, allChecked_cons]
  split
  · refine (hc.statements _).bind fun ss => leaves_pure fun memory hs hp => ?_
    exact ⟨hp, checked_of_parts rfl hs, allChecked_nil⟩
  · refine (hc.expression _).bind fun r => leaves_pure fun memory hb hp => ?_
    exact ⟨hp, hb, allChecked_nil⟩

theorem templateParts (spans : List Node) : Leaves (templateParts c spans) fun _ memory =>
    AllChecked memory (spans.filter isTemplateSpan) := by
  fun_induction Conversion.templateParts c spans with
  | case1 => exact leaves_pure fun _ => allChecked_nil
  | case2 m e text rest ih =>
    refine (hc.expression e).bind fun value => ih.bind fun more => leaves_pure ?_
    intro memory hr he
    rw [List.filter_cons_of_pos rfl, allChecked_cons]
    exact ⟨checked_of_parts rfl (allChecked_singleton.mpr he), hr⟩
  | case3 n rest hn ih =>
    have : ¬ isTemplateSpan n = true := by
      unfold isTemplateSpan
      split
      · exact absurd rfl (hn _ _ _)
      · decide
    rw [List.filter_cons_of_neg this]
    exact ih

theorem items (elements : List Node) :
    Leaves (arrayItems c elements) fun _ memory => AllChecked memory elements := by
  induction elements with
  | nil => exact leaves_pure fun _ => allChecked_nil
  | cons n rest ih =>
    unfold arrayItems
    split
    · exact leaves_refuse_bind _ _
    · exact leaves_refuse_bind _ _
    · refine (hc.expression n).bind fun item => ih.bind fun more => leaves_pure ?_
      exact fun _ hr hn => allChecked_cons.mpr ⟨hn, hr⟩

theorem entry (n : Node) : Leaves (objectEntry c n) fun _ memory => Checked memory n := by
  unfold objectEntry
  split
  · exact leaves_refuse _ _
  · rename_i m name fallback
    refine leaves_guard_of fun hf => (hc.expression (.ident name)).bind fun r => leaves_pure ?_
    intro memory hn
    have hnone : fallback = none := by simpa using hf
    exact checked_of_parts rfl (hnone ▸ allChecked_singleton.mpr hn)
  · rename_i m key value
    refine (literalKey_checked _ key).bind fun text => (hc.expression value).bind fun r => ?_
    refine leaves_pure fun memory hv hk => checked_of_parts rfl ?_
    exact allChecked_cons.mpr ⟨hk, allChecked_singleton.mpr hv⟩
  · rename_i m key params body result kind isAsync isGenerator
    refine (literalKey_checked _ key).bind fun text => leaves_guard ?_
    refine (hc.function _ isAsync isGenerator params body).bind fun r => ?_
    refine leaves_pure fun memory hf hk => checked_of_parts rfl ?_
    exact allChecked_cons.mpr ⟨hk, hf⟩
  · exact leaves_refuse _ _

theorem entries (table : List (String × AiScript.Node)) (properties : List Node) :
    Leaves (objectEntries c table properties) fun _ memory => AllChecked memory properties := by
  induction properties generalizing table with
  | nil => exact leaves_pure fun _ => allChecked_nil
  | cons n rest ih =>
    refine (hc.entry n).bind fun made => (ih _).mono fun _ _ hr hn => ?_
    exact allChecked_cons.mpr ⟨hn, hr⟩

/-! ### Access and operators -/

theorem args (args : List Node) :
    Leaves (convertArgs c args) fun _ memory => AllChecked memory args := by
  induction args with
  | nil => exact leaves_pure fun _ => allChecked_nil
  | cons n rest ih =>
    unfold convertArgs
    split
    · exact leaves_refuse_bind _ _
    · refine (hc.expression n).bind fun arg => ih.bind fun more => leaves_pure ?_
      exact fun _ hr hn => allChecked_cons.mpr ⟨hn, hr⟩

theorem property (target : Node) (name : String) :
    Leaves (convertProperty c target name) fun _ memory => Checked memory target := by
  unfold convertProperty
  refine (hc.expression target.unwrap).bind fun value => ?_
  simp only [checked_unwrap]
  split
  · refine (leaves_startsFromHost _).next fun isHost => ?_
    split
    · exact leaves_pure fun _ h => h
    · exact leaves_pure fun _ h => h
  · exact leaves_pure fun _ h => h

theorem assignTarget (n : Node) :
    Leaves (assignTarget c n) fun _ memory => Checked memory n := by
  unfold Conversion.assignTarget
  simp only [← checked_unwrap (n := n)]
  split
  · rename_i i h
    rw [h]
    exact (leaves_checkName i).next fun _ => leaves_pure fun _ => checked_ident i
  · rename_i h
    rw [h]
    exact hc.expression _
  · rename_i h
    rw [h]
    exact hc.expression _
  · exact leaves_refuse _ _

theorem stableTarget (n : Node) :
    Leaves (stableTarget c n) fun _ memory => Checked memory n := by
  unfold Conversion.stableTarget
  refine (hc.assignTarget n).bind fun target => ?_
  split
  · exact (leaves_stabilize _).next fun _ => (leaves_stabilize _).next fun _ =>
      leaves_pure fun _ h => h
  · exact leaves_pure fun _ h => h

end

mutual
theorem expandAssignment (hc : KeepsGates c) (source : AiScript.Node) (target : Node) :
    Leaves (expandAssignment c source target) fun _ memory => Checked memory target := by
  fun_cases Conversion.expandAssignment c source target with
  | case1 m e =>
    refine (expandAssignment hc source e).mono fun _ _ h => checked_of_parts rfl ?_
    exact allChecked_singleton.mpr h
  | case2 m elements =>
    exact (assignElements hc source 0 elements).mono fun _ _ h => checked_of_parts rfl h
  | case3 m properties =>
    exact (assignProperties hc source properties).mono fun _ _ h => checked_of_parts rfl h
  | case4 i => exact (leaves_checkName i).next fun _ => leaves_pure fun _ => checked_ident i
  | case5 | case6 => exact (hc.expression _).bind fun _ => leaves_pure fun _ h => h
  | case7 | case8 | case9 => exact leaves_refuse _ _
termination_by sizeOf target
decreasing_by all_goals (subst_vars; decreasing_tactic)

theorem assignElements (hc : KeepsGates c) (source : AiScript.Node) (i : Nat)
    (elements : List Node) :
    Leaves (assignElements c source i elements) fun _ memory => AllChecked memory elements := by
  fun_cases Conversion.assignElements c source i elements with
  | case1 => exact leaves_pure fun _ => allChecked_nil
  | case2 m rest =>
    refine (assignElements hc source (i + 1) rest).mono fun _ _ hr => ?_
    exact allChecked_cons.mpr ⟨checked_of_parts rfl allChecked_nil, hr⟩
  | case3 target rest =>
    refine (expandAssignment hc _ target).bind fun first => ?_
    refine (assignElements hc source (i + 1) rest).bind fun more => leaves_pure ?_
    exact fun _ hr ht => allChecked_cons.mpr ⟨ht, hr⟩
termination_by sizeOf elements
decreasing_by all_goals (subst_vars; decreasing_tactic)

theorem assignProperties (hc : KeepsGates c) (source : AiScript.Node) (properties : List Node) :
    Leaves (assignProperties c source properties) fun _ memory =>
      AllChecked memory properties := by
  fun_cases Conversion.assignProperties c source properties with
  | case1 => exact leaves_pure fun _ => allChecked_nil
  | case2 => exact leaves_refuse_bind _ _
  | case3 m name fallback rest _ hf =>
    refine (leaves_checkName name).next fun _ => ?_
    refine (assignProperties hc source rest).bind fun more => leaves_pure fun memory hr => ?_
    have hnone : fallback = none := by simpa using hf
    refine allChecked_cons.mpr ⟨checked_of_parts rfl ?_, hr⟩
    exact hnone ▸ allChecked_singleton.mpr (checked_ident name)
  | case4 m key target rest =>
    refine (patternKey_checked key).bind fun name => ?_
    refine (expandAssignment hc _ target).bind fun first => ?_
    refine (assignProperties hc source rest).bind fun more => leaves_pure fun memory hr ht hk => ?_
    refine allChecked_cons.mpr ⟨checked_of_parts rfl ?_, hr⟩
    exact allChecked_cons.mpr ⟨hk, allChecked_singleton.mpr ht⟩
  | case5 => exact leaves_refuse _ _
termination_by sizeOf properties
decreasing_by all_goals (subst_vars; decreasing_tactic)
end

section
variable (hc : KeepsGates c)
include hc

theorem assignment (n left : Node) (operator : String) (right : Node) :
    Leaves (convertAssignment c n left operator right) fun _ memory =>
      AllChecked memory [left, right] := by
  simp only [allChecked_cons, ← checked_unwrap (n := left)]
  unfold convertAssignment
  dsimp only
  split
  · refine (hc.expression right).bind fun value => (leaves_bindSource value).next fun made => ?_
    refine (expandAssignment hc _ _).bind fun more => leaves_pure fun _ hl hr => ?_
    exact ⟨hl, hr, allChecked_nil⟩
  split
  · refine (hc.stableTarget _).bind fun made => (hc.expression right).bind fun value => ?_
    exact leaves_pure fun _ hr hl => ⟨hl, hr, allChecked_nil⟩
  · refine (hc.assignTarget _).bind fun target => (hc.expression right).bind fun value => ?_
    split
    · exact leaves_pure fun _ hr hl => ⟨hl, hr, allChecked_nil⟩
    split
    · exact leaves_pure fun _ hr hl => ⟨hl, hr, allChecked_nil⟩
    · exact leaves_refuse _ _

theorem stepValue (operator : String) (operand : Node) (isAfter : Bool) :
    Leaves (stepValue c operator operand isAfter) fun _ memory => Checked memory operand := by
  unfold Conversion.stepValue
  exact (hc.stableTarget operand).bind fun made => leaves_freshName.next fun _ =>
    leaves_pure fun _ h => h

theorem prefixOperation (n : Node) (operator : String) (operand : Node) :
    Leaves (convertPrefix c n operator operand) fun _ memory => Checked memory operand := by
  unfold convertPrefix
  split
  · exact hc.stepValue _ operand _
  · exact hc.stepValue _ operand _
  iterate 3
    · refine (hc.expression operand).bind fun value => ?_
      split <;> exact leaves_pure fun _ h => h
  · exact leaves_refuse _ _

theorem binaryOperation (n left : Node) (operator : String) (right : Node) :
    Leaves (convertBinary c n left operator right) fun _ memory =>
      AllChecked memory [left, right] := by
  unfold convertBinary
  refine leaves_guard ?_
  split
  · exact leaves_refuse _ _
  · refine (hc.expression left).bind fun first => (hc.expression right).bind fun second => ?_
    exact leaves_pure fun _ hr hl => by simp [hl, hr]

/-! ### Variables, choices and loops -/

theorem declaration (isMutable : Bool) (n : Node) :
    Leaves (convertVariable c isMutable n) fun _ memory => Checked memory n := by
  unfold convertVariable
  split
  · rename_i m target type value
    have made {memory : Memory} (hv : Checked memory value) (ht : Checked memory target) :
        Checked memory (.variableDeclaration m target type (some value)) :=
      checked_of_parts rfl (allChecked_cons.mpr ⟨ht, allChecked_singleton.mpr hv⟩)
    split
    · refine (leaves_checkName _).next fun _ => (hc.expression value).bind fun r => ?_
      exact leaves_pure fun _ hv => made hv (checked_ident _)
    · refine (hc.expression value).bind fun r => ?_
      exact (expandDeclaration_checked isMutable _ r).mono fun _ _ ht hv => made hv ht
  · exact leaves_refuse _ _

theorem variableDeclarations (isMutable : Bool) (ns : List Node) :
    Leaves (convertVariables c isMutable ns) fun _ memory => AllChecked memory ns := by
  induction ns with
  | nil => exact leaves_pure fun _ => allChecked_nil
  | cons n ns ih =>
    refine (hc.declaration isMutable n).bind fun first => ih.bind fun more => leaves_pure ?_
    exact fun _ hs hn => allChecked_cons.mpr ⟨hn, hs⟩

theorem variableList (n : Node) : Leaves (convertVariableList c n) fun _ memory =>
    AllChecked memory ([n].filter isVariableList) := by
  unfold convertVariableList
  split
  · refine (hc.variableDeclarations _ _).mono fun _ _ h => ?_
    exact allChecked_singleton.mpr (checked_of_parts rfl h)
  · rename_i hn
    have : ¬ isVariableList n = true := by
      unfold isVariableList
      split
      · exact absurd rfl (hn _ _ _)
      · decide
    rw [List.filter_cons_of_neg this]
    exact leaves_pure fun _ => allChecked_nil

theorem condition (e : Node) : Leaves (convertCondition c e) fun _ memory =>
    Admits memory e .boolean ∧ Checked memory e :=
  (leaves_checkCondition e).bind fun _ => (hc.expression e).mono fun _ _ he ht => ⟨ht, he⟩

theorem branch (s : Node) : Leaves (convertBranch c s) fun _ memory => Checked memory s := by
  refine (hc.statement s).bind fun ns => ?_
  split
  · exact leaves_pure fun _ h => h
  · exact leaves_pure fun _ h => h

end

mutual
theorem elseBranches (hc : KeepsGates c) (n : Node) :
    Leaves (elseBranches c n) fun _ memory => Checked memory n := by
  fun_cases Conversion.elseBranches c n with
  | case1 m test body otherwise =>
    refine (hc.condition test).bind fun t => (hc.branch body).bind fun b => ?_
    refine (elseBranches? hc otherwise).bind fun more => leaves_pure fun memory ho hb ht => ?_
    exact checked_iff.mpr ⟨ht.1, allChecked_cons.mpr ⟨ht.2, allChecked_cons.mpr ⟨hb, ho⟩⟩⟩
  | case2 n => exact (hc.branch n).bind fun _ => leaves_pure fun _ h => h
termination_by sizeOf n
decreasing_by all_goals (subst_vars; decreasing_tactic)

theorem elseBranches? (hc : KeepsGates c) (n : Option Node) :
    Leaves (elseBranches? c n) fun _ memory => AllChecked memory n.toList := by
  fun_cases Conversion.elseBranches? c n with
  | case1 => exact leaves_pure fun _ => allChecked_nil
  | case2 n =>
    exact (elseBranches hc n).mono fun _ _ h => allChecked_singleton.mpr h
termination_by sizeOf n
decreasing_by all_goals (subst_vars; decreasing_tactic)
end

/-- A conditional expression or one that is no part of the chain. -/
theorem elseValues (hc : KeepsGates c) (n : Node) :
    Leaves (elseValues c n) fun _ memory => Checked memory n := by
  fun_induction Conversion.elseValues c n with
  | case1 m test whenTrue whenFalse ih =>
    refine (hc.condition test).bind fun t => (hc.expression whenTrue).bind fun v => ?_
    refine ih.bind fun more => leaves_pure fun memory hf hw ht => ?_
    refine checked_iff.mpr ⟨ht.1, ?_⟩
    exact allChecked_cons.mpr ⟨ht.2, allChecked_cons.mpr ⟨hw, allChecked_singleton.mpr hf⟩⟩
  | case2 n => exact (hc.expression n).bind fun _ => leaves_pure fun _ h => h

section
variable (hc : KeepsGates c)
include hc

/-! ### Switches -/

theorem caseStatements (clause : Node) (ns : List Node) :
    Leaves (caseStatements c clause ns) fun _ memory => AllChecked memory (upToJump ns) := by
  induction ns with
  | nil => exact leaves_refuse _ _
  | cons n ns ih =>
    unfold Conversion.caseStatements
    split
    · refine leaves_pure fun _ => allChecked_singleton.mpr ?_
      exact checked_of_parts rfl allChecked_nil
    · exact leaves_refuse _ _
    · exact (hc.statement _).mono fun _ _ h => allChecked_singleton.mpr h
    · rename_i hb hl hr
      have hjump (m : Mark) (label : Option Ident) : n ≠ .breakStatement m label := by
        cases label with
        | none => exact hb m
        | some label => exact hl m label
      rw [upToJump_cons ns hjump hr]
      refine leaves_guard ((hc.statement n).bind fun first => ih.bind fun more => leaves_pure ?_)
      exact fun _ hs hn => allChecked_cons.mpr ⟨hn, hs⟩

/-- The parts of a clause that are evaluated after its test. -/
theorem caseBody (clause : Node) (ns : List Node) :
    Leaves (caseBody c clause ns) fun _ memory => AllChecked memory (upToJump (openTail ns)) :=
  hc.caseStatements clause (openTail ns)

theorem addCase (m : Mark) (subject : String) (cases : Cases) (clause test : Node)
    (ns : List Node) : Leaves (addCase c subject cases clause test ns) fun _ memory =>
      Checked memory (.caseClause m test ns) := by
  unfold Conversion.addCase
  refine (hc.expression test).bind fun t => ?_
  dsimp only
  split
  · refine leaves_pure fun _ ht => checked_of_parts rfl ?_
    exact allChecked_singleton.mpr ht
  · rename_i hnil _
    exact absurd hnil (by simp)
  · refine (hc.caseBody clause _).bind fun body => leaves_pure fun _ hb ht => ?_
    exact checked_of_parts rfl (allChecked_cons.mpr ⟨ht, hb⟩)

theorem addDefault (m : Mark) (cases : Cases) (clause : Node) (ns : List Node) (isLast : Bool) :
    Leaves (addDefault c cases clause ns isLast) fun _ memory =>
      Checked memory (.defaultClause m ns) := by
  unfold Conversion.addDefault
  split
  · exact leaves_guard (leaves_pure fun _ => checked_of_parts rfl allChecked_nil)
  · exact (hc.caseBody clause _).bind fun body => leaves_pure fun _ hb => checked_of_parts rfl hb

theorem convertCases (subject : String) (cases : Cases) (ns : List Node) :
    Leaves (convertCases c subject cases ns) fun _ memory =>
      AllChecked memory (ns.filter isClause) := by
  induction ns generalizing cases with
  | nil => exact leaves_pure fun _ => allChecked_nil
  | cons n ns ih =>
    unfold Conversion.convertCases
    split
    · rename_i m test statements
      refine (hc.addCase m _ _ _ _ _).bind fun cases => (ih cases).mono fun _ _ hs hn => ?_
      exact allChecked_cons.mpr ⟨hn, hs⟩
    · rename_i m statements
      refine (hc.addDefault m _ _ _ _).bind fun cases => (ih cases).mono fun _ _ hs hn => ?_
      exact allChecked_cons.mpr ⟨hn, hs⟩
    · rename_i hcase hdefault
      have : ¬ isClause n = true := by
        unfold isClause
        split
        · exact absurd rfl (hcase _ _ _)
        · exact absurd rfl (hdefault _ _)
        · decide
      rw [List.filter_cons_of_neg this]
      exact ih cases

theorem switch (m : Mark) (subject : Node) (clauses : List Node) :
    Leaves (convertSwitch c subject clauses) fun _ memory =>
      Checked memory (.switchStatement m subject clauses) := by
  unfold convertSwitch
  refine (hc.expression subject).bind fun value => leaves_freshName.next fun temp => ?_
  refine (hc.convertCases _ _ _).bind fun cases => leaves_pure fun _ hcs hs => ?_
  exact checked_of_parts rfl (allChecked_cons.mpr ⟨hs, hcs⟩)

/-! ### Loops -/

theorem guard (test : Node) : Leaves (convertGuard c test) fun _ memory =>
    Admits memory test .boolean ∧ Checked memory test := by
  unfold convertGuard
  refine (hc.condition test).bind fun t => ?_
  split
  · exact leaves_pure fun _ h => h
  · exact leaves_pure fun _ h => h

theorem guard? (test : Option Node) : Leaves (convertGuard? c test) fun _ memory =>
    ∀ e ∈ test, Admits memory e .boolean ∧ Checked memory e := by
  cases test with
  | none => exact leaves_pure fun _ _ h => nomatch h
  | some test => exact (hc.guard test).mono fun _ _ h e he => Option.mem_some.mp he ▸ h

theorem loopBody (body : Node) :
    Leaves (loopBody c body) fun _ memory => Checked memory body := by
  unfold Conversion.loopBody
  split
  · exact (hc.statements _).mono fun _ _ h => checked_of_parts rfl h
  · exact hc.statement body

theorem loopStart (start : Option Node) :
    Leaves (loopStart c start) fun _ memory => AllChecked memory start.toList := by
  unfold Conversion.loopStart
  split
  · exact leaves_pure fun _ => allChecked_nil
  · exact hc.variableList _
  · exact (hc.effects _).mono fun _ _ h => allChecked_singleton.mpr h

theorem loopAdvance (advance : Option Node) :
    Leaves (loopAdvance c advance) fun _ memory => AllChecked memory advance.toList := by
  unfold Conversion.loopAdvance
  split
  · exact leaves_pure fun _ => allChecked_nil
  · exact (hc.effects _).mono fun _ _ h => allChecked_singleton.mpr h

theorem forLoop (m : Mark) (start test advance : Option Node) (body : Node) :
    Leaves (convertFor c start test advance body) fun _ memory =>
      Checked memory (.forStatement m start test advance body) := by
  have made {memory : Memory} (ha : AllChecked memory advance.toList) (hb : Checked memory body)
      (ht : ∀ e ∈ test, Admits memory e .boolean ∧ Checked memory e)
      (hs : AllChecked memory start.toList) :
      Checked memory (.forStatement m start test advance body) := by
    have htest : AllChecked memory test.toList := fun e he => (ht e (by simpa using he)).2
    refine checked_iff.mpr ⟨?_, ?_⟩
    · cases test with
      | none => trivial
      | some test => exact (ht test rfl).1
    · show AllChecked memory (start.toList ++ test.toList ++ advance.toList ++ [body])
      simp only [allChecked_append, allChecked_cons]
      exact ⟨⟨⟨hs, htest⟩, ha⟩, hb, allChecked_nil⟩
  unfold convertFor
  refine (hc.loopStart start).bind fun prologue => (hc.guard? test).bind fun check => ?_
  refine (hc.loopBody body).bind fun round => (hc.loopAdvance advance).bind fun later => ?_
  dsimp only
  split
  · exact leaves_freshName.next fun flag => leaves_pure fun _ => made
  · exact leaves_pure fun _ => made

theorem whileLoop (m : Mark) (test body : Node) :
    Leaves (convertWhile c test body) fun _ memory =>
      Checked memory (.whileStatement m test body) := by
  unfold convertWhile
  refine (hc.guard test).bind fun check => (hc.loopBody body).bind fun round => ?_
  refine leaves_pure fun _ hb ht => checked_iff.mpr ⟨ht.1, ?_⟩
  exact allChecked_cons.mpr ⟨ht.2, allChecked_singleton.mpr hb⟩

theorem doLoop (m : Mark) (body test : Node) :
    Leaves (convertDo c body test) fun _ memory => Checked memory (.doStatement m body test) := by
  have made {memory : Memory} (ht : Admits memory test .boolean ∧ Checked memory test)
      (hb : Checked memory body) : Checked memory (.doStatement m body test) :=
    checked_iff.mpr ⟨ht.1, allChecked_cons.mpr ⟨hb, allChecked_singleton.mpr ht.2⟩⟩
  unfold convertDo
  refine (hc.loopBody body).bind fun round => (hc.guard test).bind fun check => ?_
  split
  · exact leaves_freshName.next fun flag => leaves_pure fun _ => made
  · exact leaves_pure fun _ => made

omit hc in
theorem loopVariable (target : Node) :
    Leaves (loopVariable target) fun _ memory => Checked memory (loopPattern target) := by
  unfold Conversion.loopVariable
  split
  · dsimp only [loopPattern]
    split
    · exact (leaves_checkName _).next fun _ => leaves_pure fun _ => checked_ident _
    · exact bindingParameter_checked _ _
  · exact leaves_refuse _ _

theorem forOfLoop (m : Mark) (target items body : Node) (isAwait : Bool) :
    Leaves (convertForOf c target items body) fun _ memory =>
      Checked memory (.forOfStatement m target items body isAwait) := by
  unfold convertForOf
  refine leaves_guard ((leaves_checkIterable items).bind fun _ => ?_)
  refine (hc.expression items).bind fun value => (loopVariable target).bind fun made => ?_
  refine (hc.loopBody body).bind fun round => leaves_pure fun _ hb ht hi hg => ?_
  refine checked_iff.mpr ⟨hg, ?_⟩
  exact allChecked_cons.mpr ⟨ht, allChecked_cons.mpr ⟨hi, allChecked_singleton.mpr hb⟩⟩

end

end KeepsGates

end ScriptBridge.Conversion
