import ScriptBridge.Proofs.Conversion.KeepsJumps
import ScriptBridge.Proofs.Conversion.Landing
import ScriptBridge.Proofs.Conversion.Patterns

/-!
# Constructs that keep lists of statements

`KeepsLists p c`: in a module of the program `p`, what the converter `c` gives for a statement defines
what the statement lands, and every list of statements in it comes from a list of the source. Each
construct is converted through such a converter and then does so itself. Expressions define nothing.
-/

namespace ScriptBridge.Conversion

open TypeScript Binding
open AiScript (listsOf optionLists entryLists paramLists branchLists)

/-- A converter whose results have the lists of the source. -/
structure KeepsLists (p : Program) (c : Converter) : Prop where
  expression : ∀ {n : Node} {us : List (List Ident)}, sourceLists p n ⊆ us →
    Within p (c.expression n) fun r => Lands us [] [r]
  effects : ∀ {n : Node} {us : List (List Ident)}, sourceLists p n ⊆ us →
    Within p (c.effects n) (Lands us [])
  statement : ∀ {n : Node} {us : List (List Ident)}, sourceLists p n ⊆ us →
    Within p (c.statement n) (Lands us (landing p n))

/-! ## Patterns -/

section
variable {p : Program} {us : List (List Ident)} {source value : AiScript.Node}

theorem lists_member (source : AiScript.Node) (key : String) :
    (member source key).lists = source.lists := by
  unfold member
  split
  · rfl
  · exact List.append_nil _

theorem lists_element (source : AiScript.Node) (i : Nat) : (element source i).lists = source.lists :=
  List.append_nil _

theorem ReadsFrom.lists (h : ReadsFrom source value) : value.lists = source.lists := by
  induction h with
  | source => rfl
  | member key _ ih => rw [lists_member, ih]
  | element i _ ih => rw [lists_element, ih]

theorem ReadOff.held {made : List AiScript.Node} (h : ReadOff source made)
    (hs : Held us source.lists) : Held us (listsOf made) := by
  induction made with
  | nil => exact held_nil
  | cons r made ih =>
    obtain ⟨⟨name, value, isMutable, rfl, hv⟩, hm⟩ := List.forall_mem_cons.mp h
    refine held_append.mpr ⟨?_, ih hm⟩
    rw [define, AiScript.Node.lists, hv.lists]
    exact hs

mutual
/-- A pattern expands to definitions of its identifiers. -/
theorem expandBinding_names (isMutable : Bool) (source : AiScript.Node) (pattern : Node) :
    Yields (expandBinding isMutable source pattern) fun rs =>
      definedNames rs = namesOf (bindingIdentifiers pattern) := by
  fun_cases expandBinding isMutable source pattern with
  | case1 i => exact yields_bind fun _ => yields_pure rfl
  | case2 m elements => exact expandElements_names isMutable source 0 elements
  | case3 m elements => exact expandProperties_names isMutable source elements
  | case4 => exact yields_refuse _ _
termination_by sizeOf pattern
decreasing_by all_goals (subst_vars; decreasing_tactic)

theorem expandElements_names (isMutable : Bool) (source : AiScript.Node) (i : Nat)
    (elements : List Node) :
    Yields (expandElements isMutable source i elements) fun rs =>
      definedNames rs = namesOf (elementIdentifiers elements) := by
  fun_cases expandElements isMutable source i elements with
  | case1 => exact yields_pure rfl
  | case2 m key target fallback isRest rest =>
    refine yields_bind fun _ => ?_
    refine (expandBinding_names isMutable (element source i) target).bind fun first hf => ?_
    refine (expandElements_names isMutable source (i + 1) rest).bind fun more hm => yields_pure ?_
    rw [definedNames_append, hf, hm, elementIdentifiers, namesOf_append]
  | case3 n rest hn =>
    rw [elementIdentifiers]
    · exact expandElements_names isMutable source (i + 1) rest
    · exact hn
termination_by sizeOf elements
decreasing_by all_goals (subst_vars; decreasing_tactic)

theorem expandProperties_names (isMutable : Bool) (source : AiScript.Node) (elements : List Node) :
    Yields (expandProperties isMutable source elements) fun rs =>
      definedNames rs = namesOf (elementIdentifiers elements) := by
  fun_cases expandProperties isMutable source elements with
  | case1 => exact yields_pure rfl
  | case2 m key target fallback isRest rest =>
    refine yields_bind fun _ => yields_bind fun name => ?_
    refine (expandBinding_names isMutable (member source name) target).bind fun first hf => ?_
    refine (expandProperties_names isMutable source rest).bind fun more hm => yields_pure ?_
    rw [definedNames_append, hf, hm, elementIdentifiers, namesOf_append]
  | case3 n rest hn =>
    rw [elementIdentifiers]
    · exact expandProperties_names isMutable source rest
    · exact hn
termination_by sizeOf elements
decreasing_by all_goals (subst_vars; decreasing_tactic)
end

theorem expandBinding_lands (isMutable : Bool) (pattern : Node) (hs : Held us source.lists) :
    Within p (expandBinding isMutable source pattern) (Lands us (bindingIdentifiers pattern)) := by
  refine Yields.within (((expandBinding_readOff isMutable .source pattern).and
    (expandBinding_names isMutable source pattern)).mono fun rs h => ?_)
  exact ⟨h.1.held hs, h.2⟩

theorem bindSource_lands (h : Held us value.lists) :
    Within p (bindSource value) fun r => Held us r.1.lists ∧ Lands us [] r.2 := by
  fun_cases bindSource value with
  | case1 => exact carries_pure ⟨h, lands_nil⟩
  | case2 =>
    exact within_freshName.bind fun temp ht => carries_pure ⟨held_nil, .define_generated ht h _⟩

theorem bindingParameter_lands (isMutable : Bool) (pattern : Node) :
    Within p (bindingParameter isMutable pattern) fun r =>
      Lands us (bindingIdentifiers pattern) r.2 :=
  within_bind fun _ => (expandBinding_lands isMutable pattern held_nil).bind fun _ h =>
    carries_pure h

theorem paramTarget_lands (target : Node) :
    Within p (paramTarget target) fun r => Lands us (targetNames target) r.2 := by
  fun_cases paramTarget target with
  | case1 i => exact within_bind fun _ => carries_pure lands_nil
  | case2 pattern hn =>
    rw [targetNames]
    · exact bindingParameter_lands false _
    · exact hn

theorem expandDeclaration_lands (isMutable : Bool) (pattern : Node) (h : Held us value.lists) :
    Within p (expandDeclaration isMutable pattern value) (Lands us (bindingIdentifiers pattern)) := by
  refine (bindSource_lands h).bind ?_
  rintro ⟨source, made⟩ ⟨hs, hm⟩
  exact (expandBinding_lands isMutable pattern hs).bind fun more h => carries_pure (hm.append h)

theorem stabilize_lands (h : Held us value.lists) :
    Within p (stabilize value) fun r => Held us r.1.lists ∧ Lands us [] r.2 := by
  unfold stabilize
  split
  · exact carries_pure ⟨h, lands_nil⟩
  · exact bindSource_lands h

/-- An entry that is set comes in, and the one that it replaces goes. -/
theorem held_set {key : String} {table : List (String × AiScript.Node)} (h : Held us value.lists)
    (ht : Held us (entryLists table)) : Held us (entryLists (Assoc.set key value table)) := by
  induction table with
  | nil => exact held_append.mpr ⟨h, held_nil⟩
  | cons e rest ih =>
    obtain ⟨k, v⟩ := e
    obtain ⟨hv, hrest⟩ := held_append.mp ht
    rw [Assoc.set]
    split
    · exact held_append.mpr ⟨h, hrest⟩
    · exact held_append.mpr ⟨hv, ih hrest⟩

end

namespace KeepsLists

variable {p : Program} {c : Converter} {us : List (List Ident)}

section
variable (hc : KeepsLists p c)
include hc

/-- The lists in an expression. -/
theorem value {n : Node} (h : sourceLists p n ⊆ us) :
    Within p (c.expression n) fun r => Held us r.lists :=
  (hc.expression h).mono fun _ hr => hr.held_lists

theorem statements {ns : List Node} (h : ListsIn p us ns) :
    Within p (c.statements ns) (Lands us (landings p ns)) := by
  induction ns with
  | nil => exact carries_pure lands_nil
  | cons n ns ih =>
    obtain ⟨hn, hs⟩ := listsIn_cons.mp h
    exact (hc.statement hn).bind fun first hf => (ih hs).bind fun more hm =>
      carries_pure (hf.append hm)

/-! ### Functions and literals -/

theorem optional {n : Option Node} (h : ListsIn p us n.toList) :
    Within p (expression? c n) fun r => Held us (optionLists r) := by
  cases n with
  | none => exact carries_pure held_nil
  | some n => exact (hc.value (h n (by simp))).bind fun r hr => carries_pure hr

theorem params {params : List Node} (h : ListsIn p us params) :
    Within p (convertParams c params) fun r =>
      Held us (paramLists r.1) ∧ Lands us (paramNames params) r.2 := by
  fun_induction convertParams c params with
  | case1 => exact carries_pure ⟨held_nil, lands_nil⟩
  | case2 m target type fallback isOptional isRest rest ht ih =>
    have hnone : targetNames target = [] := by
      cases target with
      | ident => rfl
      | _ => cases ht
    rw [paramNames, hnone]
    exact ih (listsIn_cons.mp h).2
  | case3 => exact carries_refuse_bind _ _
  | case4 m target type fallback isOptional isRest rest _ _ _ ih =>
    obtain ⟨hp, hr⟩ := listsIn_cons.mp h
    have hd : ListsIn p us fallback.toList := (listsIn_append.mp (listsIn_children hp)).2
    refine (hc.optional hd).bind fun d hd => ?_
    refine Carries.bind (P := fun made => Lands us (targetNames target) made.2)
      (paramTarget_lands target) ?_
    rintro ⟨name, made⟩ hm
    refine (ih hr).bind ?_
    rintro ⟨ps, more⟩ ⟨hps, hmore⟩
    exact carries_pure ⟨held_append.mpr ⟨hd, hps⟩, hm.append hmore⟩
  | case5 n rest hn ih =>
    rw [paramNames]
    · exact ih (listsIn_cons.mp h).2
    · exact hn

/-- The list of a function has what patterns among its parameters define and what its body does. -/
theorem function {n : Node} {isAsync isGenerator : Bool} {params : List Node} {body : Node}
    (hp : ListsIn p us params) (hb : sourceLists p body ⊆ us)
    (hu : paramNames params ++ bodyNames p body ∈ us) :
    Within p (convertFunction c n isAsync isGenerator params body) fun r => Lands us [] [r] := by
  have made {ps : List AiScript.Param} {ns : List AiScript.Node} (hps : Held us (paramLists ps))
      (hns : Lands us (paramNames params ++ bodyNames p body) ns) :
      Lands us [] [.fn {} ps ns] := by
    -- The body comes first among the lists of a function, before those of its defaults.
    obtain ⟨hlist, hlists⟩ := held_cons.mp (hns.held_cons (List.mem_cons_of_mem _ hu))
    exact .single (held_cons.mpr ⟨hlist, held_append.mpr ⟨hps, hlists⟩⟩) rfl
  unfold convertFunction
  refine carries_guard (carries_guard ?_)
  refine (hc.params hp).bind ?_
  rintro ⟨ps, prologue⟩ ⟨hps, hpr⟩
  dsimp only
  split
  · exact (hc.statements (listsIn_children hb)).bind fun ss hss =>
      carries_pure (made hps (hpr.append hss))
  · rename_i hblock
    refine (hc.value hb).bind fun r hr => carries_pure (made hps (hpr.append ?_))
    rw [bodyNames]
    · exact .single hr rfl
    · exact hblock

theorem parts {spans : List Node} (h : ListsIn p us spans) :
    Within p (templateParts c spans) fun rs => Held us (listsOf rs) := by
  fun_induction templateParts c spans with
  | case1 => exact carries_pure held_nil
  | case2 m e text rest ih =>
    obtain ⟨hs, hr⟩ := listsIn_cons.mp h
    have he : ListsIn p us [e] := listsIn_children hs
    refine (hc.value (he e (by simp))).bind fun r hr' => (ih hr).bind fun more hm => carries_pure ?_
    have ht : listsOf (templateText text) = [] := by
      unfold templateText
      split <;> rfl
    simp only [listsOf, AiScript.listsOf_append, ht, List.cons_append, List.nil_append, held_append]
    exact ⟨hr', hm⟩
  | case3 n rest _ ih => exact ih (listsIn_cons.mp h).2

theorem items {elements : List Node} (h : ListsIn p us elements) :
    Within p (arrayItems c elements) fun rs => Held us (listsOf rs) := by
  induction elements with
  | nil => exact carries_pure held_nil
  | cons n rest ih =>
    obtain ⟨hn, hr⟩ := listsIn_cons.mp h
    unfold arrayItems
    split
    · exact carries_refuse_bind _ _
    · exact carries_refuse_bind _ _
    · exact (hc.value hn).bind fun r hr' => (ih hr).bind fun more hm =>
        carries_pure (held_append.mpr ⟨hr', hm⟩)

theorem entry {n : Node} (h : sourceLists p n ⊆ us) :
    Within p (objectEntry c n) fun r => Held us r.2.lists := by
  unfold objectEntry
  split
  · exact carries_refuse _ _
  · rename_i m name fallback
    have hn := (listsIn_cons.mp (listsIn_children h)).1
    exact carries_guard ((hc.value hn).bind fun r hr => carries_pure hr)
  · rename_i m key value
    have hs : ListsIn p us [key, value] := listsIn_children h
    exact within_bind fun key' => (hc.value (hs value (by simp))).bind fun r hr => carries_pure hr
  · rename_i m key params body result kind isAsync isGenerator
    have hs : ListsIn p us (key :: params ++ body :: result.toList) := listsIn_children h
    obtain ⟨hp, hb⟩ := listsIn_append.mp hs
    have hu : paramNames params ++ bodyNames p body ∈ us :=
      ownLists_subset h (List.mem_singleton_self _)
    refine within_bind fun key' => carries_guard ?_
    exact (hc.function (listsIn_cons.mp hp).2 (listsIn_cons.mp hb).1 hu).bind fun r hr =>
      carries_pure hr.held_lists
  · exact carries_refuse _ _

theorem entries {table : List (String × AiScript.Node)} (ht : Held us (entryLists table))
    {properties : List Node} (h : ListsIn p us properties) :
    Within p (objectEntries c table properties) fun r => Held us (entryLists r) := by
  induction properties generalizing table with
  | nil => exact carries_pure ht
  | cons n rest ih =>
    obtain ⟨hn, hr⟩ := listsIn_cons.mp h
    refine (hc.entry hn).bind ?_
    rintro ⟨key, value⟩ hv
    exact ih (held_set hv ht) hr

/-! ### Access and operators -/

theorem args {args : List Node} (h : ListsIn p us args) :
    Within p (convertArgs c args) fun rs => Held us (listsOf rs) := by
  induction args with
  | nil => exact carries_pure held_nil
  | cons n rest ih =>
    obtain ⟨hn, hr⟩ := listsIn_cons.mp h
    unfold convertArgs
    split
    · exact carries_refuse_bind _ _
    · exact (hc.value hn).bind fun r hr' => (ih hr).bind fun more hm =>
        carries_pure (held_append.mpr ⟨hr', hm⟩)

theorem property {target : Node} (h : sourceLists p target ⊆ us) (name : String) :
    Within p (convertProperty c target name) fun r => Lands us [] [r] := by
  unfold convertProperty
  have hu : sourceLists p target.unwrap ⊆ us := by rwa [sourceLists_unwrap]
  refine (hc.value hu).bind fun value hv => ?_
  split
  · refine within_bind fun isHost => ?_
    split
    · exact carries_pure (.single held_nil rfl)
    · exact carries_pure (.single hv rfl)
  · exact carries_pure (.single hv rfl)

theorem assignTarget {n : Node} (h : sourceLists p n ⊆ us) :
    Within p (assignTarget c n) fun r => Held us r.lists := by
  have hu : sourceLists p n.unwrap ⊆ us := by rwa [sourceLists_unwrap]
  unfold Conversion.assignTarget
  split
  · exact within_bind fun _ => carries_pure held_nil
  · rename_i he
    exact hc.value (he ▸ hu)
  · rename_i he
    exact hc.value (he ▸ hu)
  · exact carries_refuse _ _

theorem stableTarget {n : Node} (h : sourceLists p n ⊆ us) :
    Within p (stableTarget c n) fun r => Held us r.1.lists ∧ Lands us [] r.2 := by
  unfold Conversion.stableTarget
  refine (hc.assignTarget h).bind fun r hr => ?_
  split
  · rename_i l target key
    obtain ⟨htarget, hkey⟩ := held_append.mp hr
    refine (stabilize_lands htarget).bind ?_
    rintro ⟨t, first⟩ ⟨ht, hf⟩
    refine (stabilize_lands hkey).bind ?_
    rintro ⟨k, second⟩ ⟨hk, hs⟩
    exact carries_pure ⟨held_append.mpr ⟨ht, hk⟩, hf.append hs⟩
  · exact carries_pure ⟨hr, lands_nil⟩

end

/-- An assignment. -/
theorem assign {target value : AiScript.Node} (ht : Held us target.lists) (hv : Held us value.lists) :
    Lands us [] [.assign {} target value] :=
  .single (held_append.mpr ⟨ht, hv⟩) rfl

mutual
theorem expandAssignment (hc : KeepsLists p c) {source : AiScript.Node} (hs : Held us source.lists)
    (target : Node) (h : sourceLists p target ⊆ us) :
    Within p (expandAssignment c source target) (Lands us []) := by
  fun_cases Conversion.expandAssignment c source target with
  | case1 m e =>
    have he : ListsIn p us [e] := listsIn_children h
    exact expandAssignment hc hs e (he e (by simp))
  | case2 m elements => exact assignElements hc hs 0 elements (listsIn_children h)
  | case3 m properties => exact assignProperties hc hs properties (listsIn_children h)
  | case4 i => exact within_bind fun _ => carries_pure (assign held_nil hs)
  | case5 | case6 => exact (hc.value h).bind fun r hr => carries_pure (assign hr hs)
  | case7 | case8 | case9 => exact carries_refuse _ _
termination_by sizeOf target
decreasing_by all_goals (subst_vars; decreasing_tactic)

theorem assignElements (hc : KeepsLists p c) {source : AiScript.Node} (hs : Held us source.lists)
    (i : Nat) (elements : List Node) (h : ListsIn p us elements) :
    Within p (assignElements c source i elements) (Lands us []) := by
  fun_cases Conversion.assignElements c source i elements with
  | case1 => exact carries_pure lands_nil
  | case2 m rest => exact assignElements hc hs (i + 1) rest (listsIn_cons.mp h).2
  | case3 target rest =>
    obtain ⟨ht, hr⟩ := listsIn_cons.mp h
    have helement : Held us (element source i).lists := by rwa [lists_element]
    refine (expandAssignment hc helement target ht).bind fun first hf => ?_
    exact (assignElements hc hs (i + 1) rest hr).bind fun more hm => carries_pure (hf.append hm)
termination_by sizeOf elements
decreasing_by all_goals (subst_vars; decreasing_tactic)

theorem assignProperties (hc : KeepsLists p c) {source : AiScript.Node} (hs : Held us source.lists)
    (properties : List Node) (h : ListsIn p us properties) :
    Within p (assignProperties c source properties) (Lands us []) := by
  have hmember (key : String) : Held us (member source key).lists := by rwa [lists_member]
  fun_cases Conversion.assignProperties c source properties with
  | case1 => exact carries_pure lands_nil
  | case2 => exact carries_refuse_bind _ _
  | case3 m name fallback rest =>
    refine within_bind fun _ => ?_
    exact (assignProperties hc hs rest (listsIn_cons.mp h).2).bind fun more hm =>
      carries_pure ((assign held_nil (hmember name.name)).append hm)
  | case4 m key target rest =>
    obtain ⟨hp, hr⟩ := listsIn_cons.mp h
    have ht : ListsIn p us [key, target] := listsIn_children hp
    refine within_bind fun name => ?_
    refine (expandAssignment hc (hmember name) target (ht target (by simp))).bind fun first hf => ?_
    exact (assignProperties hc hs rest hr).bind fun more hm => carries_pure (hf.append hm)
  | case5 => exact carries_refuse _ _
termination_by sizeOf properties
decreasing_by all_goals (subst_vars; decreasing_tactic)
end

section
variable (hc : KeepsLists p c)
include hc

theorem assignment {n left right : Node} {operator : String} (hl : sourceLists p left ⊆ us)
    (hr : sourceLists p right ⊆ us) :
    Within p (convertAssignment c n left operator right) (Lands us []) := by
  have hu : sourceLists p left.unwrap ⊆ us := by rwa [sourceLists_unwrap]
  unfold convertAssignment
  dsimp only
  split
  · refine (hc.value hr).bind fun value hv => ?_
    refine (bindSource_lands hv).bind ?_
    rintro ⟨source, made⟩ ⟨hs, hm⟩
    exact (hc.expandAssignment hs _ hu).bind fun more hmore => carries_pure (hm.append hmore)
  split
  · refine (hc.stableTarget hu).bind ?_
    rintro ⟨target, made⟩ ⟨ht, hm⟩
    exact (hc.value hr).bind fun value hv =>
      carries_pure (hm.append (assign ht (held_append.mpr ⟨ht, hv⟩)))
  · refine (hc.assignTarget hu).bind fun target ht => (hc.value hr).bind fun value hv => ?_
    split
    · exact carries_pure (assign ht hv)
    split
    · exact carries_pure (.single (held_append.mpr ⟨ht, hv⟩) rfl)
    · exact carries_refuse _ _

omit hc in
theorem stepBy_lands {target : AiScript.Node} (h : Held us target.lists) (operator : String) :
    Lands us [] [stepBy operator target] :=
  .single (held_append.mpr ⟨h, held_nil⟩) rfl

theorem stepValue {operator : String} {operand : Node} {isAfter : Bool}
    (h : sourceLists p operand ⊆ us) :
    Within p (stepValue c operator operand isAfter) fun r => Lands us [] [r] := by
  unfold Conversion.stepValue
  refine (hc.stableTarget h).bind ?_
  rintro ⟨target, made⟩ ⟨ht, hm⟩
  refine within_freshName.bind fun temp htemp => carries_pure ?_
  have hchange := stepBy_lands ht operator
  have hcapture := Lands.define_generated htemp ht false
  have hsteps : Lands us [] (if isAfter then [stepBy operator target, define temp target false]
      else [define temp target false, stepBy operator target]) := by
    split
    · exact hchange.append hcapture
    · exact hcapture.append hchange
  have hvalue : Lands us [] [.ident {} temp] := .single held_nil rfl
  exact ((hm.append hsteps).append hvalue).block List.mem_cons_self

theorem prefixOperation {n operand : Node} {operator : String} (h : sourceLists p operand ⊆ us) :
    Within p (convertPrefix c n operator operand) fun r => Lands us [] [r] := by
  unfold convertPrefix
  split
  · exact hc.stepValue h
  · exact hc.stepValue h
  iterate 3
    · refine (hc.value h).bind fun r hr => ?_
      split
      · exact carries_pure (.single held_nil rfl)
      · exact carries_pure (.single hr rfl)
  · exact carries_refuse _ _

theorem binaryOperation {n left right : Node} {operator : String} (hl : sourceLists p left ⊆ us)
    (hr : sourceLists p right ⊆ us) :
    Within p (convertBinary c n left operator right) fun r => Lands us [] [r] := by
  unfold convertBinary
  refine carries_guard ?_
  split
  · exact carries_refuse _ _
  · exact (hc.value hl).bind fun l hl' => (hc.value hr).bind fun r hr' =>
      carries_pure (.single (held_append.mpr ⟨hl', hr'⟩) rfl)

/-! ### Variables and choices -/

theorem variableDeclarations {ns : List Node} {isMutable : Bool} {m : Mark} {w : String}
    (h : ListsIn p us ns) :
    Within p (convertVariables c isMutable ns) (Lands us (variableNames (.variableList m w ns))) := by
  induction ns with
  | nil => exact carries_pure lands_nil
  | cons n ns ih =>
    obtain ⟨hn, hs⟩ := listsIn_cons.mp h
    refine Carries.bind (P := Lands us (variableNames (.variableList m w [n]))) ?_ fun first hf =>
      (ih hs).bind fun more hm => carries_pure (by simpa [variableNames] using hf.append hm)
    unfold convertVariable
    split
    · rename_i mark target type value
      have hv := listsIn_children hn value (by simp [Node.children])
      simp only [variableNames, List.flatMap_cons, List.flatMap_nil, List.append_nil]
      split
      · exact within_bind fun _ => (hc.value hv).bind fun r hr => carries_pure (.define _ hr _)
      · exact (hc.value hv).bind fun r hr => expandDeclaration_lands isMutable _ hr
    · exact carries_refuse _ _

theorem variableList {n : Node} (h : sourceLists p n ⊆ us) :
    Within p (convertVariableList c n) (Lands us (variableNames n)) := by
  unfold convertVariableList
  split
  · exact hc.variableDeclarations (listsIn_children h)
  · rename_i hn
    rw [variableNames]
    · exact carries_pure lands_nil
    · exact hn

theorem condition {e : Node} (h : sourceLists p e ⊆ us) :
    Within p (convertCondition c e) fun r => Held us r.lists :=
  within_bind fun _ => hc.value h

/-- A branch with several statements is a list of its own. -/
theorem branch {s : Node} (h : sourceLists p s ⊆ us) (hs : landing p s ∈ us) :
    Within p (convertBranch c s) fun r => Held us r.lists := by
  refine (hc.statement h).bind fun ns hns => ?_
  split
  · exact carries_pure held_nil
  · exact carries_pure (hns.held_asOne (List.mem_cons_of_mem _ hs))

end

mutual
theorem elseBranches (hc : KeepsLists p c) (n : Node) (h : sourceLists p n ⊆ us)
    (hn : landing p n ∈ us) :
    Within p (elseBranches c n) fun r => Held us (branchLists r.1) ∧ Held us (optionLists r.2) := by
  fun_cases Conversion.elseBranches c n with
  | case1 m test body otherwise =>
    have hs : ListsIn p us (test :: body :: otherwise.toList) := listsIn_children h
    simp only [listsIn_cons] at hs
    obtain ⟨hbody, hlast⟩ := List.cons_subset.mp (ownLists_subset h)
    refine (hc.condition hs.1).bind fun t ht => (hc.branch hs.2.1 hbody).bind fun b hb => ?_
    refine (elseBranches? hc otherwise hs.2.2 hlast).bind ?_
    rintro ⟨branches, last⟩ ⟨hbs, hl⟩
    exact carries_pure ⟨held_append.mpr ⟨held_append.mpr ⟨ht, hb⟩, hbs⟩, hl⟩
  | case2 n => exact (hc.branch h hn).bind fun r hr => carries_pure ⟨held_nil, hr⟩
termination_by sizeOf n
decreasing_by all_goals (subst_vars; decreasing_tactic)

theorem elseBranches? (hc : KeepsLists p c) (n : Option Node) (h : ListsIn p us n.toList)
    (hn : n.toList.map (landing p) ⊆ us) :
    Within p (elseBranches? c n) fun r => Held us (branchLists r.1) ∧ Held us (optionLists r.2) := by
  fun_cases Conversion.elseBranches? c n with
  | case1 => exact carries_pure ⟨held_nil, held_nil⟩
  | case2 n => exact elseBranches hc n (h n (by simp)) (hn (List.mem_singleton_self _))
termination_by sizeOf n
decreasing_by all_goals (subst_vars; decreasing_tactic)
end

theorem elseValues (hc : KeepsLists p c) {n : Node} (h : sourceLists p n ⊆ us) :
    Within p (elseValues c n) fun r => Held us (branchLists r.1) ∧ Held us r.2.lists := by
  fun_induction Conversion.elseValues c n with
  | case1 m test whenTrue whenFalse ih =>
    have hs : ListsIn p us [test, whenTrue, whenFalse] := listsIn_children h
    simp only [listsIn_cons] at hs
    refine (hc.condition hs.1).bind fun t ht => (hc.value hs.2.1).bind fun v hv => ?_
    refine (ih hs.2.2.1).bind ?_
    rintro ⟨branches, last⟩ ⟨hb, hl⟩
    exact carries_pure ⟨held_append.mpr ⟨held_append.mpr ⟨ht, hv⟩, hb⟩, hl⟩
  | case2 n => exact (hc.value h).bind fun r hr => carries_pure ⟨held_nil, hr⟩

end KeepsLists

/-! ## Switches -/

section
variable {us : List (List Ident)} {names : List Ident}

/-- The cases of a switch come from lists of the source, and the default one defines some names. -/
structure CasesLand (us : List (List Ident)) (names : List Ident) (cases : Cases) : Prop where
  branches : ∀ b ∈ cases.branches, Held us b.1.lists ∧ Held us b.2.lists
  default : Lands us names cases.default
  names : names ∈ [] :: us
  pending : Held us (listsOf cases.pending)

theorem anyOf_held {first : AiScript.Node} {rest : List AiScript.Node}
    (h : Held us (listsOf (first :: rest))) : Held us (anyOf first rest).lists := by
  induction rest generalizing first with
  | nil => exact (held_append.mp h).1
  | cons next rest ih =>
    obtain ⟨hf, hr⟩ := held_append.mp h
    obtain ⟨hn, hr⟩ := held_append.mp hr
    exact ih (held_append.mpr ⟨held_append.mpr ⟨hf, hn⟩, hr⟩)

theorem branches_held {bs : List (AiScript.Node × AiScript.Node)}
    (h : ∀ b ∈ bs, Held us b.1.lists ∧ Held us b.2.lists) :
    Held us (branchLists (bs.map fun (test, body) => AiScript.Branch.mk {} test body)) := by
  induction bs with
  | nil => exact held_nil
  | cons b bs ih =>
    obtain ⟨hb, hbs⟩ := List.forall_mem_cons.mp h
    exact held_append.mpr ⟨held_append.mpr hb, ih hbs⟩

/-- A switch with no other case is part of the list around it; else it defines nothing. -/
theorem CasesLand.statements {r : Cases} (h : CasesLand us names r) :
    Lands us (if r.branches = [] then names else []) r.statements := by
  unfold Cases.statements
  cases hb : r.branches with
  | nil =>
    rw [if_pos rfl]
    exact h.default
  | cons b rest =>
    obtain ⟨⟨ht, hbody⟩, hrest⟩ := List.forall_mem_cons.mp (hb ▸ h.branches)
    rw [if_neg (List.cons_ne_nil _ _)]
    refine .single (held_append.mpr ⟨held_append.mpr ⟨held_append.mpr ⟨ht, hbody⟩,
      branches_held hrest⟩, ?_⟩) rfl
    split
    · exact held_nil
    · exact h.default.held_cons h.names

end

namespace KeepsLists

variable {p : Program} {c : Converter} {us : List (List Ident)}

section
variable (hc : KeepsLists p c)
include hc

theorem caseStatements {clause : Node} {ns : List Node} (h : ListsIn p us ns) :
    Within p (caseStatements c clause ns) (Lands us (namesToEnd (ns.map (entryOf p)))) := by
  induction ns with
  | nil => exact carries_refuse _ _
  | cons n ns ih =>
    obtain ⟨hn, hs⟩ := listsIn_cons.mp h
    rw [List.map_cons, namesToEnd, isEnd_entryOf]
    unfold Conversion.caseStatements
    -- What stands behind the end of the case is neither converted nor named.
    split
    · exact carries_pure lands_nil
    · exact carries_refuse _ _
    · rename_i mark value
      have hnone : landing p (.returnStatement mark value) = [] := by
        rw [landing_eq]
        rfl
      exact hnone ▸ hc.statement hn
    · rename_i hbreak hlabel hreturn
      have hend : isCaseEnd n = false := by
        unfold isCaseEnd
        split
        · exact absurd rfl (hbreak _)
        · exact absurd rfl (hreturn _ _)
        · rfl
      rw [hend]
      exact carries_guard ((hc.statement hn).bind fun first hf => (ih hs).bind fun more hm =>
        carries_pure (hf.append hm))

theorem caseBody {clause : Node} {ns : List Node} (h : ListsIn p us ns) :
    Within p (caseBody c clause ns) (Lands us (caseNames p ns)) :=
  hc.caseStatements (openTail_listsIn ns h)

variable {names : List Ident}

theorem addCase {subject : String} {cases : Cases} {m : Mark} {clause test : Node}
    {ns : List Node} (hcases : CasesLand us names cases)
    (h : sourceLists p (.caseClause m test ns) ⊆ us) :
    Within p (addCase c subject cases clause test ns) fun r => CasesLand us names r ∧
      (r.branches = [] ↔ cases.branches = [] ∧ hasBody (.caseClause m test ns) = false) := by
  obtain ⟨ht, hs⟩ := listsIn_cons.mp (listsIn_children h)
  unfold Conversion.addCase
  refine (hc.value ht).bind fun t ht => ?_
  have hcondition : Held us (listsOf (cases.pending ++
      [.binary {} "==" (.ident {} subject) t])) := by
    rw [AiScript.listsOf_append]
    exact held_append.mpr ⟨hcases.pending, held_append.mpr ⟨ht, held_nil⟩⟩
  dsimp only
  split
  · exact carries_pure ⟨{ hcases with pending := hcondition }, by simp [hasBody]⟩
  · rename_i heq _
    exact absurd heq (by simp)
  · rename_i ns _ _ first more heq hns
    rw [heq] at hcondition
    refine (hc.caseBody hs).bind fun body hbody => carries_pure ⟨?_, ?_⟩
    · have hown : caseNames p ns ∈ us := ownLists_subset h (List.mem_singleton_self _)
      refine { hcases with branches := ?_, pending := held_nil }
      exact List.forall_mem_append.mpr ⟨hcases.branches, List.forall_mem_singleton.mpr
        ⟨anyOf_held hcondition, hbody.held_cons (List.mem_cons_of_mem _ hown)⟩⟩
    · obtain ⟨n, rest, rfl⟩ := List.exists_cons_of_ne_nil hns
      simp [hasBody]

theorem addDefault {cases : Cases} {m : Mark} {clause : Node} {ns : List Node} {isLast : Bool}
    (hcases : CasesLand us names cases) (h : sourceLists p (.defaultClause m ns) ⊆ us) :
    Within p (addDefault c cases clause ns isLast) fun r =>
      CasesLand us (caseNames p ns) r ∧ r.branches = cases.branches := by
  have hown : caseNames p ns ∈ [] :: us :=
    List.mem_cons_of_mem _ (ownLists_subset h (List.mem_singleton_self _))
  unfold Conversion.addDefault
  split
  · refine carries_guard (carries_pure ⟨?_, rfl⟩)
    exact { hcases with default := lands_nil, names := hown, pending := held_nil }
  · refine (hc.caseBody (listsIn_children h)).bind fun body hbody => carries_pure ⟨?_, rfl⟩
    exact { hcases with default := hbody, names := hown, pending := held_nil }

theorem convertCases {subject : String} {cases : Cases} {ns : List Node}
    (hcases : CasesLand us names cases) (h : ListsIn p us ns) :
    Within p (convertCases c subject cases ns) fun r => CasesLand us (defaultNames p names ns) r ∧
      (r.branches = [] ↔ cases.branches = [] ∧ ns.any hasBody = false) := by
  induction ns generalizing cases names with
  | nil => exact carries_pure ⟨hcases, by simp⟩
  | cons n ns ih =>
    obtain ⟨hn, hs⟩ := listsIn_cons.mp h
    unfold Conversion.convertCases
    split
    · rename_i m test statements
      refine (hc.addCase hcases hn).bind fun next hnext => (ih hnext.1 hs).mono fun r hr => ?_
      refine ⟨hr.1, ?_⟩
      rw [hr.2, hnext.2, List.any_cons, Bool.or_eq_false_iff, and_assoc]
    · rename_i m statements
      refine (hc.addDefault hcases hn).bind fun next hnext => (ih hnext.1 hs).mono fun r hr => ?_
      refine ⟨hr.1, ?_⟩
      rw [hr.2, hnext.2]
      rfl
    · rename_i hcase hdefault
      refine (ih hcases hs).mono fun r hr => ?_
      have hbody : hasBody n = false := by
        unfold hasBody
        split
        · exact absurd rfl (hcase _ _ _)
        · rfl
      rw [defaultNames, List.any_cons, hbody]
      · exact hr
      · exact hdefault

theorem switch {m : Mark} {subject : Node} {clauses : List Node}
    (h : sourceLists p (.switchStatement m subject clauses) ⊆ us) :
    Within p (convertSwitch c subject clauses)
      (Lands us (landing p (.switchStatement m subject clauses))) := by
  obtain ⟨hsubject, hs⟩ := listsIn_cons.mp (listsIn_children h)
  unfold convertSwitch
  refine (hc.value hsubject).bind fun value hv => within_freshName.bind fun temp htemp => ?_
  have hnone : CasesLand us [] {} := ⟨nofun, lands_nil, List.mem_cons_self, held_nil⟩
  refine (hc.convertCases hnone hs).bind fun cases hcases => carries_pure ?_
  -- No case has become a branch exactly if no case has statements.
  have hlanding : landing p (.switchStatement m subject clauses) =
      if cases.branches = [] then defaultNames p [] clauses else [] := by
    rw [landing_switch]
    simp only [hcases.2, true_and]
    cases clauses.any hasBody <;> rfl
  rw [hlanding]
  exact (Lands.define_generated htemp hv false).append hcases.1.statements

/-! ### Loops -/

theorem guard {test : Node} (h : sourceLists p test ⊆ us) :
    Within p (convertGuard c test) (Lands us []) := by
  unfold convertGuard
  refine (hc.condition h).bind fun t ht => ?_
  split
  · exact carries_pure lands_nil
  · refine carries_pure (.single ?_ rfl)
    simpa [AiScript.Node.lists, branchLists, optionLists] using ht

theorem guard? {test : Option Node} (h : ListsIn p us test.toList) :
    Within p (convertGuard? c test) (Lands us []) := by
  cases test with
  | none => exact carries_pure lands_nil
  | some test => exact hc.guard (h test (by simp))

theorem loopBody {body : Node} (h : sourceLists p body ⊆ us) :
    Within p (loopBody c body) (Lands us (roundNames p body)) := by
  unfold Conversion.loopBody
  split
  · exact hc.statements (listsIn_children h)
  · rename_i hn
    rw [roundNames]
    · exact hc.statement h
    · exact hn

theorem loopStart {start : Option Node} (h : ListsIn p us start.toList) :
    Within p (loopStart c start) (Lands us (startNames start)) := by
  unfold Conversion.loopStart
  split
  · exact carries_pure lands_nil
  · exact hc.variableList (h _ (by simp))
  · rename_i hn
    rw [startNames, variableNames]
    · exact hc.effects (h _ (by simp))
    · exact hn

theorem loopAdvance {advance : Option Node} (h : ListsIn p us advance.toList) :
    Within p (loopAdvance c advance) (Lands us []) := by
  unfold Conversion.loopAdvance
  split
  · exact carries_pure lands_nil
  · exact hc.effects (h _ (by simp))

omit hc in
theorem afterFirst_lands {later : List AiScript.Node} (flag : String) (h : Lands us [] later) :
    Lands us [] [afterFirst flag later] := by
  refine .single ?_ rfl
  have hclear : Held us (AiScript.Node.block {} [.assign {} (.ident {} flag) (.bool {} false)]).lists :=
    (assign held_nil held_nil).held_cons List.mem_cons_self
  exact held_append.mpr ⟨held_append.mpr ⟨held_append.mpr ⟨held_nil, hclear⟩, held_nil⟩,
    h.held_cons List.mem_cons_self⟩

theorem forLoop {m : Mark} {start test advance : Option Node} {body : Node}
    (h : sourceLists p (.forStatement m start test advance body) ⊆ us) :
    Within p (convertFor c start test advance body) (Lands us []) := by
  have hs : ListsIn p us (start.toList ++ test.toList ++ advance.toList ++ [body]) :=
    listsIn_children h
  simp only [listsIn_append, listsIn_cons] at hs
  obtain ⟨⟨⟨hstart, htest⟩, hadvance⟩, hbody, -⟩ := hs
  have hown : ownLists p (.forStatement m start test advance body) ⊆ us := ownLists_subset h
  have hbefore : startNames start ∈ [] :: us := List.mem_cons_of_mem _ (hown (by simp [ownLists]))
  have hinside : roundNames p body ∈ [] :: us := List.mem_cons_of_mem _ (hown (by simp [ownLists]))
  unfold convertFor
  refine (hc.loopStart hstart).bind fun prologue hp => (hc.guard? htest).bind fun check hcheck => ?_
  refine (hc.loopBody hbody).bind fun round hround => (hc.loopAdvance hadvance).bind
    fun later hlater => ?_
  dsimp only
  split
  -- The flag is a generated name, so the block still defines what the loop starts with.
  · refine within_freshName.bind fun flag hflag => carries_pure ?_
    have hloop := (((afterFirst_lands flag hlater).append hcheck).append hround).loop hinside
    rw [List.append_cons]
    have hclear : Lands us [] [define flag (.bool {} true) true] :=
      .define_generated hflag held_nil true
    exact ((hp.append hclear).append hloop).block (by simpa using hbefore)
  · have hloop : Lands us [] [.loop {} (check ++ round ++ later)] :=
      ((hcheck.append hround).append hlater).loop (by simpa using hinside)
    refine carries_pure ?_
    split
    · exact hloop
    · exact (hp.append hloop).block (by simpa using hbefore)

theorem whileLoop {m : Mark} {test body : Node}
    (h : sourceLists p (.whileStatement m test body) ⊆ us) :
    Within p (convertWhile c test body) (Lands us []) := by
  have hs : ListsIn p us [test, body] := listsIn_children h
  simp only [listsIn_cons] at hs
  have hown : roundNames p body ∈ us := ownLists_subset h (List.mem_singleton_self _)
  unfold convertWhile
  refine (hc.guard hs.1).bind fun check hcheck => (hc.loopBody hs.2.1).bind fun round hround => ?_
  exact carries_pure ((hcheck.append hround).loop (List.mem_cons_of_mem _ hown))

theorem doLoop {m : Mark} {body test : Node} (h : sourceLists p (.doStatement m body test) ⊆ us) :
    Within p (convertDo c body test) (Lands us []) := by
  have hs : ListsIn p us [body, test] := listsIn_children h
  simp only [listsIn_cons] at hs
  have hown : roundNames p body ∈ [] :: us :=
    List.mem_cons_of_mem _ (ownLists_subset h (List.mem_singleton_self _))
  unfold convertDo
  refine (hc.loopBody hs.1).bind fun round hround => (hc.guard hs.2.1).bind fun check hcheck => ?_
  split
  · refine within_freshName.bind fun flag hflag => carries_pure ?_
    have hloop := ((afterFirst_lands flag hcheck).append hround).loop hown
    have hclear : Lands us [] [define flag (.bool {} true) true] :=
      .define_generated hflag held_nil true
    exact (hclear.append hloop).block List.mem_cons_self
  · exact carries_pure ((hround.append hcheck).loop (by simpa using hown))

omit hc in
theorem loopVariable (target : Node) :
    Within p (loopVariable target) fun r => Lands us (itemNames target) r.2 := by
  unfold Conversion.loopVariable
  split
  · split
    · exact within_bind fun _ => carries_pure lands_nil
    · rename_i hn
      rw [itemNames, targetNames]
      · exact bindingParameter_lands _ _
      · exact hn
  · exact carries_refuse _ _

theorem forOfLoop {m : Mark} {target items body : Node} {isAwait : Bool}
    (h : sourceLists p (.forOfStatement m target items body isAwait) ⊆ us) :
    Within p (convertForOf c target items body) (Lands us []) := by
  have hs : ListsIn p us [target, items, body] := listsIn_children h
  simp only [listsIn_cons] at hs
  obtain ⟨-, hitems, hbody, -⟩ := hs
  have hown : itemNames target ++ roundNames p body ∈ [] :: us :=
    List.mem_cons_of_mem _ (ownLists_subset h (List.mem_singleton_self _))
  unfold convertForOf
  refine carries_guard (within_bind fun _ => ?_)
  refine (hc.value hitems).bind fun items hi => ?_
  refine Carries.bind (P := fun made => Lands us (itemNames target) made.2) (loopVariable target) ?_
  rintro ⟨name, made⟩ hm
  refine (hc.loopBody hbody).bind fun round hround => carries_pure ?_
  exact .single (held_append.mpr ⟨hi, (hm.append hround).held_asOne hown⟩) rfl

end

end KeepsLists

end ScriptBridge.Conversion
