import ScriptBridge.Proofs.Conversion.Jumps
import ScriptBridge.Proofs.Conversion.KeepsLists
import ScriptBridge.Proofs.Project.Sources

/-!
# Definitions of different scopes

A list of statements in an output defines the ordinary names that one list of the source declares, one
by one and in order. Where such a list of the source joins several scopes, a name that two of them
declare is defined twice in one list of the output. If that does not happen in the source, it does not
happen in the output.

* `Capability.KeepsLists`: what a capability has to do.
* `Apart`: declarations of which no two have one name and different scopes.
* `convertSource_keepsApart`: what the lists of statements in an output define.
-/

namespace ScriptBridge.Conversion

open TypeScript Binding
open AiScript (listsOf optionLists entryLists)

/-! ## Words before a declaration -/

section
variable {p : Program} {n : Node}

theorem sourceLists_setModifiers (ms : List Modifier) (n : Node) :
    sourceLists p (n.setModifiers ms) = sourceLists p n := by
  have hwords (ms : List Modifier) : ((ms.map Node.modifier).map (sourceLists p)).flatten = [] := by
    induction ms with
    | nil => rfl
    | cons m ms ih =>
      rw [List.map_cons, List.map_cons, List.flatten_cons, ih, sourceLists_eq]
      rfl
  have hown : ownLists p (n.setModifiers ms) = ownLists p n := by
    cases n with
    | functionDeclaration m words name params body => cases body <;> rfl
    | _ => rfl
  rw [sourceLists_eq, sourceLists_eq, hown]
  fun_cases Node.setModifiers ms n
  case case8 => rfl
  all_goals simp only [Node.children, List.map_append, List.flatten_append, hwords]

/-- An export mark does not change what a declaration defines. -/
theorem landing_withoutExport (n : Node) : landing p (withoutExport n) = landing p n := by
  have hdeclare (ms : List Modifier) : hasModifier
      (ms.filter fun m => m.word != "export" && m.word != "default") "declare" =
        hasModifier ms "declare" := by
    rw [hasModifier, hasModifier, List.any_filter]
    congr 1
    funext m
    grind
  unfold withoutExport
  cases n with
  | variableStatement m ms list =>
    rw [landing_eq, landing_eq]
    simp only [Node.setModifiers, Node.modifiers, landingStep, hdeclare]
  | functionDeclaration m ms name params body =>
    rw [landing_eq, landing_eq]
    cases body <;> simp only [Node.setModifiers, Node.modifiers, landingStep, hdeclare]
  | _ =>
    rw [landing_eq, landing_eq]
    rfl

/-- What is only claimed to exist is not defined. -/
theorem landing_declared (h : hasModifier n.modifiers "declare" = true) : landing p n = [] := by
  rw [landing_eq]
  unfold landingStep
  dsimp only
  split
  · exact if_pos h
  · exact if_pos h
  · cases h
  · cases h
  · cases h
  · rfl

end

/-! ## Capabilities -/

/-- A capability whose results have the lists of the source. -/
structure Capability.KeepsLists (cap : Capability) (p : Program) (c : Converter) : Prop where
  expression : ∀ {n : Node} {us : List (List Ident)}, sourceLists p n ⊆ us →
    Within p (cap.expression c n) fun r => Lands us [] r.toList
  effects : ∀ {n : Node} {us : List (List Ident)}, sourceLists p n ⊆ us →
    Within p (cap.effects c n) fun r => ∀ rs ∈ r, Lands us [] rs
  statement : ∀ {n : Node} {us : List (List Ident)}, sourceLists p n ⊆ us →
    Within p (cap.statement c n) fun r => ∀ rs ∈ r, Lands us (landing p n) rs

section
variable {p : Program} {c : Converter} {n : Node} {us : List (List Ident)}

/-- Nodes that a capability gives. -/
theorem lands_given {m : ConvertM (List AiScript.Node)} {ids : List Ident}
    (h : Within p m (Lands us ids)) :
    Within p (do return some (← m)) fun r => ∀ rs ∈ r, Lands us ids rs :=
  h.bind fun rs hrs => carries_pure (by rintro _ ⟨⟩; exact hrs)

/-- A statement that defines nothing and leaves nothing. -/
theorem lands_erased (hn : landing p n = []) :
    Within p (pure (some []) : ConvertM (Option (List AiScript.Node))) fun r =>
      ∀ rs ∈ r, Lands us (landing p n) rs :=
  carries_pure (by rintro _ ⟨⟩; exact hn ▸ lands_nil)

/-- A statement that defines nothing and becomes one node. -/
theorem lands_one {r : AiScript.Node} (hn : landing p n = []) (h : Held us r.lists)
    (hr : r.defines = []) :
    Within p (pure (some [r]) : ConvertM (Option (List AiScript.Node))) fun r =>
      ∀ rs ∈ r, Lands us (landing p n) rs :=
  carries_pure (by rintro _ ⟨⟩; exact hn ▸ .single h hr)

theorem lands_declined {ids : List Ident} :
    Within p (pure none : ConvertM (Option (List AiScript.Node))) fun r =>
      ∀ rs ∈ r, Lands us ids rs :=
  carries_pure nofun

theorem no_lands (_ : sourceLists p n ⊆ us) :
    Within p (pure none : ConvertM (Option AiScript.Node)) fun r => Lands us [] r.toList :=
  carries_pure lands_nil

theorem no_effects_lands (_ : sourceLists p n ⊆ us) :
    Within p (pure none : ConvertM (Option (List AiScript.Node))) fun r => ∀ rs ∈ r, Lands us [] rs :=
  lands_declined

theorem no_statement_lands (_ : sourceLists p n ⊆ us) :
    Within p (pure none : ConvertM (Option (List AiScript.Node))) fun r =>
      ∀ rs ∈ r, Lands us (landing p n) rs :=
  lands_declined

variable (hc : KeepsLists p c)
include hc

/-! ## Expressions -/

/-- A node that is converted as its first child. -/
theorem firstChild_lands {e : Node} {more : List Node} (h : sourceLists p n ⊆ us)
    (hn : n.children = e :: more) :
    Within p (do return some (← c.expression e)) fun r => Lands us [] r.toList := by
  have he := (listsIn_cons.mp (hn ▸ listsIn_children h)).1
  exact (hc.expression he).bind fun r hr => carries_pure hr

theorem literals_lands (h : sourceLists p n ⊆ us) :
    Within p (literals.expression c n) fun r => Lands us [] r.toList := by
  have leaf {r : AiScript.Node} (hr : r.lists = []) (hd : r.defines = []) :
      Lands us [] (some r).toList := .single (hr ▸ held_nil) hd
  dsimp only [literals]
  split
  · exact within_bind fun _ => carries_pure (leaf rfl rfl)
  · exact carries_pure (leaf rfl rfl)
  · exact carries_pure (leaf rfl rfl)
  · exact carries_refuse _ _
  · exact carries_pure (leaf rfl rfl)
  · rename_i m head spans
    refine (hc.parts (listsIn_children h)).bind fun parts hp => carries_pure (.single ?_ rfl)
    have ht : listsOf (templateText head) = [] := by
      unfold templateText
      split <;> rfl
    simp only [AiScript.Node.lists, AiScript.listsOf_append, ht, List.nil_append]
    exact hp
  · exact (hc.items (listsIn_children h)).bind fun items hi => carries_pure (.single hi rfl)
  · have hnone : Held us (entryLists []) := held_nil
    exact (hc.entries hnone (listsIn_children h)).bind fun es he => carries_pure (.single he rfl)
  · exact carries_pure lands_nil

theorem types_lands (h : sourceLists p n ⊆ us) :
    Within p (types.expression c n) fun r => Lands us [] r.toList := by
  dsimp only [types]
  split
  · exact firstChild_lands hc h rfl
  · exact firstChild_lands hc h rfl
  · exact firstChild_lands hc h rfl
  · exact carries_pure lands_nil

theorem identifiers_lands (h : sourceLists p n ⊆ us) :
    Within p (identifiers.expression c n) fun r => Lands us [] r.toList := by
  dsimp only [identifiers]
  split
  · refine carries_pure ?_
    split <;> exact .single held_nil rfl
  · exact firstChild_lands hc h rfl
  · exact carries_pure lands_nil

theorem identifiers_effects_lands (h : sourceLists p n ⊆ us) :
    Within p (identifiers.effects c n) fun r => ∀ rs ∈ r, Lands us [] rs := by
  dsimp only [identifiers]
  split
  · exact lands_given (hc.effects (listsIn_cons.mp (listsIn_children h)).1)
  · exact lands_declined

theorem operators_lands (h : sourceLists p n ⊆ us) :
    Within p (operators.expression c n) fun r => Lands us [] r.toList := by
  dsimp only [operators]
  split
  · rename_i m left operator right
    have hs : ListsIn p us [left, right] := listsIn_children h
    exact (hc.binaryOperation (hs left (by simp)) (hs right (by simp))).bind fun r hr =>
      carries_pure hr
  · rename_i m operator operand
    have hs : ListsIn p us [operand] := listsIn_children h
    exact (hc.prefixOperation (hs operand (by simp))).bind fun r hr => carries_pure hr
  · rename_i m operand operator
    have hs : ListsIn p us [operand] := listsIn_children h
    exact (hc.stepValue (hs operand (by simp))).bind fun r hr => carries_pure hr
  iterate 4
    · exact carries_refuse _ _
  · exact carries_pure lands_nil

theorem operators_effects_lands (h : sourceLists p n ⊆ us) :
    Within p (operators.effects c n) fun r => ∀ rs ∈ r, Lands us [] rs := by
  have hu : sourceLists p n.unwrap ⊆ us := by rwa [sourceLists_unwrap]
  have step {operator : String} {operand : Node} (hs : ListsIn p us [operand]) :
      Within p (do return some [stepBy operator (← assignTarget c operand)]) fun r =>
        ∀ rs ∈ r, Lands us [] rs := by
    refine (hc.assignTarget (hs operand (by simp))).bind fun r hr => carries_pure ?_
    rintro _ ⟨⟩
    exact KeepsLists.stepBy_lands hr operator
  dsimp only [operators]
  split
  · rename_i m left operator right he
    rw [he] at hu
    have hs : ListsIn p us [left, right] := listsIn_children hu
    split
    · exact lands_given (hc.assignment (hs left (by simp)) (hs right (by simp)))
    · exact lands_declined
  · rename_i m operator operand he
    rw [he] at hu
    split
    · exact step (listsIn_children hu)
    · exact lands_declined
  · rename_i m operand operator he
    rw [he] at hu
    exact step (listsIn_children hu)
  · exact lands_declined

theorem access_lands (h : sourceLists p n ⊆ us) :
    Within p (access.expression c n) fun r => Lands us [] r.toList := by
  dsimp only [access]
  split
  · rename_i m callee args isOptional
    have hs : ListsIn p us (callee :: args) := listsIn_children h
    obtain ⟨hcallee, hargs⟩ := listsIn_cons.mp hs
    exact carries_guard ((hc.args hargs).bind fun as ha => (hc.value hcallee).bind fun f hf =>
      carries_pure (.single (held_append.mpr ⟨hf, ha⟩) rfl))
  · rename_i m target name isOptional
    have hs : ListsIn p us [target, .ident name] := listsIn_children h
    exact carries_guard ((hc.property (hs target (by simp)) _).bind fun r hr => carries_pure hr)
  · rename_i m target key isOptional
    have hs : ListsIn p us [target, key] := listsIn_children h
    refine carries_guard (within_bind fun _ => ?_)
    refine (hc.value (hs target (by simp))).bind fun t ht => ?_
    refine (hc.value (hs key (by simp))).bind fun k hk => ?_
    exact carries_pure (.single (held_append.mpr ⟨ht, hk⟩) rfl)
  · exact carries_refuse _ _
  · exact carries_pure lands_nil

theorem functions_lands (h : sourceLists p n ⊆ us) :
    Within p (functions.expression c n) fun r => Lands us [] r.toList := by
  dsimp only [functions]
  split
  · rename_i m params body result typeParams isAsync
    have hs : ListsIn p us (params ++ body :: result.toList ++ typeParams) := listsIn_children h
    simp only [listsIn_append, listsIn_cons] at hs
    have hu := ownLists_subset h (List.mem_singleton_self _)
    exact (hc.function hs.1.1 hs.1.2.1 hu).bind fun r hr => carries_pure hr
  · rename_i m name params body result typeParams isAsync isGenerator
    have hs : ListsIn p us (name.toList.map Node.ident ++ params ++ body :: result.toList ++
      typeParams) := listsIn_children h
    simp only [listsIn_append, listsIn_cons] at hs
    have hu := ownLists_subset h (List.mem_singleton_self _)
    exact (hc.function hs.1.1.2 hs.1.2.1 hu).bind fun r hr => carries_pure hr
  · exact carries_pure lands_nil

theorem control_lands (h : sourceLists p n ⊆ us) :
    Within p (control.expression c n) fun r => Lands us [] r.toList := by
  dsimp only [control]
  split
  · rename_i m test whenTrue whenFalse
    have hs : ListsIn p us [test, whenTrue, whenFalse] := listsIn_children h
    simp only [listsIn_cons] at hs
    refine (hc.condition hs.1).bind fun t ht => (hc.value hs.2.1).bind fun v hv => ?_
    refine (hc.elseValues hs.2.2.1).bind ?_
    rintro ⟨branches, last⟩ ⟨hb, hl⟩
    exact carries_pure (.single (held_append.mpr ⟨held_append.mpr ⟨held_append.mpr ⟨ht, hv⟩, hb⟩,
      hl⟩) rfl)
  · exact carries_pure lands_nil

/-! ## Statements -/

/-- The function value of a declared function. -/
theorem declaredFunction_lands {m : Mark} {modifiers : List Modifier} {name : Option Ident}
    {params typeParams : List Node} {body : Node} {result : Option Node} {isAsync isGenerator : Bool}
    (h : sourceLists p (.functionDeclaration m modifiers name params (some body) result typeParams
      isAsync isGenerator) ⊆ us) :
    Within p (convertFunction c n isAsync isGenerator params body) fun r => Held us r.lists := by
  have hs : ListsIn p us (modifiers.map Node.modifier ++ name.toList.map Node.ident ++
    params ++ [body] ++ result.toList ++ typeParams) := listsIn_children h
  simp only [listsIn_append, listsIn_cons] at hs
  have hu := ownLists_subset h (List.mem_singleton_self _)
  exact (hc.function hs.1.1.1.2 hs.1.1.2.1 hu).mono fun r hr => hr.held_lists

theorem functions_statement_lands (h : sourceLists p n ⊆ us) :
    Within p (functions.statement c n) fun r => ∀ rs ∈ r, Lands us (landing p n) rs := by
  dsimp only [functions]
  split
  · split
    · rename_i hdeclare
      exact lands_erased (landing_declared hdeclare)
    split
    · exact carries_refuse _ _
    · rename_i hdeclare _ i
      refine within_bind fun _ => (declaredFunction_lands hc h).bind fun r hr => carries_pure ?_
      rintro _ ⟨⟩
      rw [landing_eq]
      simp only [landingStep, if_neg hdeclare, Option.toList_some]
      exact .define i hr false
  · rename_i m modifiers name params body result typeParams isAsync isGenerator hbody
    cases body with
    | none => exact lands_erased (landing_eq _ _)
    | some body => exact (hbody _ rfl).elim
  · exact lands_declined

theorem declarations_statement_lands (h : sourceLists p n ⊆ us) :
    Within p (declarations.statement c n) fun r => ∀ rs ∈ r, Lands us (landing p n) rs := by
  dsimp only [declarations]
  split
  · rename_i m modifiers list
    have hs : ListsIn p us (modifiers.map Node.modifier ++ [list]) := listsIn_children h
    split
    · rename_i hdeclare
      exact lands_erased (landing_declared hdeclare)
    · rename_i hdeclare
      rw [landing_eq]
      simp only [landingStep, if_neg hdeclare]
      exact lands_given (hc.variableList (hs list (by simp)))
  · exact lands_declined

theorem control_statement_lands (h : sourceLists p n ⊆ us) :
    Within p (control.statement c n) fun r => ∀ rs ∈ r, Lands us (landing p n) rs := by
  dsimp only [control]
  split
  · rename_i m test body otherwise
    have hs : ListsIn p us (test :: body :: otherwise.toList) := listsIn_children h
    simp only [listsIn_cons] at hs
    obtain ⟨hbody, hlast⟩ := List.cons_subset.mp (ownLists_subset h)
    refine (hc.condition hs.1).bind fun t ht => (hc.branch hs.2.1 hbody).bind fun b hb => ?_
    refine (KeepsLists.elseBranches? hc otherwise hs.2.2 hlast).bind ?_
    rintro ⟨branches, last⟩ ⟨hbs, hl⟩
    refine carries_pure ?_
    rintro _ ⟨⟩
    rw [landing_eq]
    exact .single (held_append.mpr ⟨held_append.mpr ⟨held_append.mpr ⟨ht, hb⟩, hbs⟩, hl⟩) rfl
  · exact landing_eq p _ ▸ lands_given (hc.forLoop h)
  · exact landing_eq p _ ▸ lands_given (hc.whileLoop h)
  · exact landing_eq p _ ▸ lands_given (hc.doLoop h)
  · exact landing_eq p _ ▸ carries_guard (lands_given (hc.forOfLoop h))
  · exact carries_refuse _ _
  · exact lands_given (hc.switch h)
  · exact lands_declined

theorem statements_statement_lands (h : sourceLists p n ⊆ us) :
    Within p (statements.statement c n) fun r => ∀ rs ∈ r, Lands us (landing p n) rs := by
  dsimp only [statements]
  split
  · rename_i m e
    rw [landing_eq]
    exact lands_given (hc.effects (listsIn_cons.mp (listsIn_children h)).1)
  · rename_i m inner
    have hown : landings p inner ∈ us := ownLists_subset h (List.mem_singleton_self _)
    rw [landing_eq]
    refine (hc.statements (listsIn_children h)).bind fun r hr => carries_pure ?_
    rintro _ ⟨⟩
    exact hr.block (List.mem_cons_of_mem _ hown)
  · exact lands_erased (landing_eq _ _)
  · exact lands_one (landing_eq _ _) held_nil rfl
  · rename_i m e
    exact (hc.value (listsIn_cons.mp (listsIn_children h)).1).bind fun r hr =>
      lands_one (landing_eq _ _) hr rfl
  iterate 3
    · exact carries_refuse _ _
  · exact lands_one (landing_eq _ _) held_nil rfl
  · exact lands_one (landing_eq _ _) held_nil rfl
  · exact lands_declined

omit hc in
theorem types_statement_lands :
    Within p (types.statement c n) fun r => ∀ rs ∈ r, Lands us (landing p n) rs := by
  dsimp only [types]
  split
  · exact lands_erased (landing_eq _ _)
  · exact lands_erased (landing_eq _ _)
  split
  · rename_i hdeclare
    exact lands_erased (landing_declared hdeclare)
  split
  · exact carries_refuse _ _
  · exact lands_declined

/-! ## Imports and exports -/

omit hc in
theorem importNames_lands (module : ConvertM String) (elements : List Node) :
    Within p (importNames module elements) (Lands us (importedIdents p elements)) := by
  fun_induction importNames module elements with
  | case1 => exact carries_pure lands_nil
  | case2 m imported i isTypeOnly rest ih =>
    refine (within_isTypeName i).bind fun isType htype => ?_
    have after {first : List AiScript.Node} {ids : List Ident} (h : Lands us ids first) :
        Within p (do return first ++ (← importNames module rest))
          (Lands us (ids ++ importedIdents p rest)) :=
      ih.bind fun more hm => carries_pure (h.append hm)
    show Within p _ (Lands us ((if isTypeOnly || isTypeIn p i then [] else [i]) ++
      importedIdents p rest))
    rw [← htype]
    dsimp only
    split
    · exact after lands_nil
    · exact within_bind fun _ => within_bind fun _ => after (.define i held_nil false)
  | case3 n rest hn ih =>
    rw [importedIdents, List.flatMap_cons]
    split
    · exact absurd rfl (hn _ _ _ _)
    · exact ih

omit hc in
theorem imports_statement_lands :
    Within p (imports.statement c n) fun r => ∀ rs ∈ r, Lands us (landing p n) rs := by
  dsimp only [imports]
  split
  · rename_i m _ name allAs elements _ specifier
    have hd : Within p (importDefault (moduleName specifier m.span) name)
        (Lands us (name.toList.filter (!isTypeIn p ·))) := by
      unfold importDefault
      split
      · exact carries_pure lands_nil
      · rename_i i
        refine (within_isTypeName i).bind fun isType htype => ?_
        rw [Option.toList_some, List.filter_singleton, ← htype]
        split
        · rename_i ht
          simpa [ht] using carries_pure lands_nil
        · rename_i ht
          refine within_bind fun _ => within_bind fun _ => carries_pure ?_
          simpa [ht] using .define i held_nil false
    have ha : Within p (importAll (moduleName specifier m.span) allAs)
        (Lands us allAs.toList) := by
      unfold importAll
      split
      · exact carries_pure lands_nil
      · exact within_bind fun _ => within_bind fun _ => carries_pure (.define _ held_nil _)
    have hn : Within p (importNames (moduleName specifier m.span) (elements.getD []))
        (Lands us (importedIdents p (elements.getD []))) := importNames_lands _ _
    rw [landing_eq]
    refine hd.bind fun first hf => ha.bind fun second hs => hn.bind fun more hm => carries_pure ?_
    rintro _ ⟨⟩
    exact (hf.append hs).append hm
  · rename_i hclause
    refine lands_erased ?_
    rw [landing_eq]
    unfold landingStep
    dsimp only
    split
    · rename_i he
      cases he
    · rename_i he
      cases he
    · rename_i he
      cases he
      exact (hclause _ _ _ _ rfl).elim
    · rename_i he
      cases he
    · rename_i he
      cases he
    · rfl
  · exact lands_declined

theorem exportDefault_lands (h : sourceLists p n ⊆ us) :
    Within p (exportDefault c n) (Lands us []) := by
  unfold exportDefault
  dsimp only
  split
  · refine within_bind fun isType => ?_
    split
    · exact within_bind fun _ => carries_pure lands_nil
    · exact carries_pure lands_nil
  · exact within_freshName.bind fun temp htemp => within_bind fun _ =>
      (hc.value h).bind fun r hr => carries_pure (.define_generated htemp hr _)

theorem exportDeclared_lands (h : sourceLists p n ⊆ us) :
    Within p (exportDeclared c n) (Lands us (landing p n)) := by
  have inner : Within p (c.statement (withoutExport n)) (Lands us (landing p n)) := by
    rw [← landing_withoutExport]
    exact hc.statement (by rwa [withoutExport, sourceLists_setModifiers])
  have erased (hn : landing p n = []) :
      Within p (pure [] : ConvertM (List AiScript.Node)) (Lands us (landing p n)) :=
    carries_pure (hn ▸ lands_nil)
  unfold exportDeclared
  dsimp only
  split
  · rename_i hdeclare
    exact erased (landing_declared hdeclare)
  split
  · exact erased (landing_eq _ _)
  · exact erased (landing_eq _ _)
  · exact erased (landing_eq _ _)
  · rw [landing_eq]
    simp only [landingStep, Option.toList_none, ite_self]
    exact within_freshName.bind fun temp htemp => within_bind fun _ =>
      (declaredFunction_lands hc h).bind fun r hr => carries_pure (.define_generated htemp hr _)
  · exact within_bind fun _ => inner
  · exact within_bind fun _ => inner
  · exact inner

theorem exports_statement_lands (h : sourceLists p n ⊆ us) :
    Within p (exports.statement c n) fun r => ∀ rs ∈ r, Lands us (landing p n) rs := by
  dsimp only [exports]
  split
  · split
    · exact within_bind fun _ => lands_erased (landing_eq _ _)
    · exact lands_erased (landing_eq _ _)
  · exact carries_refuse _ _
  · rename_i m e
    rw [landing_eq]
    exact lands_given (exportDefault_lands hc (listsIn_cons.mp (listsIn_children h)).1)
  · exact carries_refuse _ _
  · split
    · exact lands_given (exportDeclared_lands hc h)
    · exact lands_declined

/-! ## All capabilities -/

theorem defaultCapabilities_keepsLists : ∀ cap ∈ defaultCapabilities, cap.KeepsLists p c := by
  intro cap hcap
  simp only [defaultCapabilities, List.mem_cons, List.not_mem_nil, or_false] at hcap
  rcases hcap with rfl | rfl | rfl | rfl | rfl | rfl | rfl | rfl | rfl | rfl | rfl
  · exact ⟨no_lands, no_effects_lands, fun _ => imports_statement_lands⟩
  · exact ⟨no_lands, no_effects_lands, exports_statement_lands hc⟩
  · exact ⟨types_lands hc, no_effects_lands, fun _ => types_statement_lands⟩
  · exact ⟨literals_lands hc, no_effects_lands, no_statement_lands⟩
  · exact ⟨identifiers_lands hc, identifiers_effects_lands hc, no_statement_lands⟩
  · exact ⟨operators_lands hc, operators_effects_lands hc, no_statement_lands⟩
  · exact ⟨access_lands hc, no_effects_lands, no_statement_lands⟩
  · exact ⟨functions_lands hc, no_effects_lands, functions_statement_lands hc⟩
  · exact ⟨no_lands, no_effects_lands, declarations_statement_lands hc⟩
  · exact ⟨control_lands hc, no_effects_lands, control_statement_lands hc⟩
  · exact ⟨no_lands, no_effects_lands, statements_statement_lands hc⟩

end

/-- The first of several capabilities that keep lists keeps them. -/
theorem keepsLists_first {p : Program} {c : Converter} {caps : List Capability}
    (h : ∀ cap ∈ caps, cap.KeepsLists p c) :
    KeepsLists p
      { expression := fun n => firstExpression c n caps
        effects := fun n => firstEffects c n caps
        statement := fun n => firstStatement c n caps } where
  expression := by
    intro n us hn
    dsimp only
    induction caps with
    | nil => exact carries_refuse _ _
    | cons cap caps ih =>
      refine ((h cap (by simp)).expression hn).bind fun r hr => ?_
      cases r with
      | none => exact ih fun cap hcap => h cap (List.mem_cons_of_mem _ hcap)
      | some r => exact carries_pure (hr.stamp n)
  effects := by
    intro n us hn
    dsimp only
    induction caps with
    | nil => exact carries_refuse _ _
    | cons cap caps ih =>
      refine ((h cap (by simp)).effects hn).bind fun r hr => ?_
      cases r with
      | none =>
        refine ((h cap (by simp)).expression hn).bind fun r hr => ?_
        cases r with
        | none => exact ih fun cap hcap => h cap (List.mem_cons_of_mem _ hcap)
        | some r => exact carries_pure (hr.stamp n)
      | some r => exact carries_pure ((hr r rfl).stamp n)
  statement := by
    intro n us hn
    dsimp only
    induction caps with
    | nil => exact carries_refuse _ _
    | cons cap caps ih =>
      refine ((h cap (by simp)).statement hn).bind fun r hr => ?_
      cases r with
      | none => exact ih fun cap hcap => h cap (List.mem_cons_of_mem _ hcap)
      | some r => exact carries_pure ((hr r rfl).stamp n)

/-- Conversion keeps lists at every depth. -/
theorem keepsLists_converter (p : Program) (k : Nat) :
    KeepsLists p (converter defaultCapabilities k) := by
  induction k with
  | zero => exact ⟨fun _ => carries_throw _, fun _ => carries_throw _, fun _ => carries_throw _⟩
  | succ k ih => exact keepsLists_first (defaultCapabilities_keepsLists ih)

/-- The statements of a module define what its source does. -/
theorem module_lands {p : Program} {us : List (List Ident)} {source : List Node}
    (h : ListsIn p us source) :
    Within p (Module.convert defaultCapabilities source) fun m =>
      Lands us (landings p source) m.statements :=
  ((keepsLists_converter p _).statements h).bind fun _ hs => within_bind fun _ => carries_pure hs

/-- An export table only has names. -/
theorem Module.table_lands (m : Module) (us : List (List Ident)) : Lands us [] m.table := by
  unfold Module.table
  split
  · exact lands_nil
  · refine .single ?_ rfl
    simp only [exportTable, AiScript.Node.lists]
    induction m.exports with
    | nil => exact held_nil
    | cons e es ih => exact held_append.mpr ⟨held_nil, ih⟩

/-! ## Scopes -/

/-- The scope that an identifier is declared in. -/
def scopeOf (b : Bindings) (i : Ident) : Option ScopeId :=
  (b.symbolOf? i.mark.id).map fun id => (b.symbol id).scope

/-- Declarations of which no two have one ordinary name and different scopes. -/
def Apart (b : Bindings) (ids : List Ident) : Prop :=
  ids.Pairwise fun i j => isOrdinary i.name = true → i.name = j.name → scopeOf b i = scopeOf b j

instance (b : Bindings) (ids : List Ident) : Decidable (Apart b ids) :=
  inferInstanceAs (Decidable (List.Pairwise _ _))

/-- Statements define what a list of the source does, and nothing of different scopes by one name. -/
def KeptApart (b : Bindings) (us : List (List Ident)) (ns : List AiScript.Node) : Prop :=
  ∃ ids ∈ [] :: us, definedNames ns = namesOf ids ∧ Apart b ids

end ScriptBridge.Conversion

namespace ScriptBridge

open Conversion TypeScript
open AiScript (listsOf)

/-- The identifiers that each list of statements from a file defines. -/
def TypeScript.SourceFile.lists (p : Binding.Program) (file : SourceFile) : List (List Ident) :=
  landings p file.statements :: (file.statements.map (sourceLists p)).flatten

variable {fileName text : String} {place : Place} {s s' : Session} {file : SourceFile}
  {nextId : Nat} {nodes : List AiScript.Node}

/-- In the conversion of a text, every list of statements defines the ordinary names that a list of the
text does. If no list of the text declares a name in two scopes, then no list of its conversion has two
definitions of one name that are from different scopes. -/
theorem convertSource_keepsApart
    (hp : parseFrom s.program.nextId fileName text = .ok (file, nextId))
    (h : convertSource defaultCapabilities fileName text place s = .ok nodes s') :
    Held (file.lists s'.program) (nodes :: listsOf nodes) ∧
      ((∀ ids ∈ file.lists s'.program, Apart s'.program.bindings ids) →
        ∀ ns ∈ nodes :: listsOf nodes,
          KeptApart s'.program.bindings (file.lists s'.program) ns) := by
  have held : Held (file.lists s'.program) (nodes :: listsOf nodes) := by
    unfold convertSource convertText at h
    obtain ⟨m, s₁, hm, h⟩ := bind_ok h
    obtain ⟨id, s₂, hid, hm⟩ := bind_ok hm
    obtain ⟨after, hc, _, rfl⟩ := convertFile_ok hm
    have hsource := parseText_source (loading_ok hid)
    obtain ⟨rfl, -⟩ : file = _ ∧ _ := Prod.mk.inj (Except.ok.inj (hp.symm.trans hsource))
    cases h
    have hin (source : List Node) : ListsIn s₂.program
        (landings s₂.program source :: (source.map (sourceLists s₂.program)).flatten) source :=
      fun n hn => List.Subset.trans (listsIn_flatten source n hn) (List.subset_cons_self _ _)
    have hm := (module_lands (hin _) _ _ _ _ rfl hc).1
    have hall := hm.append (m.table_lands _)
    rw [List.append_nil] at hall
    exact hall.held_cons (List.mem_cons_of_mem _ List.mem_cons_self)
  refine ⟨held, fun hapart ns hns => ?_⟩
  obtain ⟨ids, hids, hnames⟩ := held ns hns
  refine ⟨ids, hids, hnames, ?_⟩
  rcases List.mem_cons.mp hids with rfl | hids
  · exact List.Pairwise.nil
  · exact hapart ids hids

/-- A switch with a default case only, and a block that declares the same name. -/
def scopesOfNames : String :=
  "switch (\"a\") \x7b default: let x = 1; break; \x7d \x7b let x = 2; \x7d"

theorem convertSource_keepsApart_scopesOfNames :
    ∃ nodes s' file nextId,
      parseFrom 0 "main.ts" scopesOfNames = .ok (file, nextId) ∧
      convertSource defaultCapabilities "main.ts" scopesOfNames default default = .ok nodes s' ∧
      (∀ ids ∈ file.lists s'.program, Apart s'.program.bindings ids) ∧
      definedNames nodes = ["x"] ∧
      ∀ ns ∈ nodes :: listsOf nodes,
        KeptApart s'.program.bindings (file.lists s'.program) ns := by
  have hc : endsWith (convertSource defaultCapabilities "main.ts" scopesOfNames default default)
      (fun nodes s' => decide (definedNames nodes = ["x"]) &&
        succeedsWith (parseFrom 0 "main.ts" scopesOfNames) fun r =>
          decide (∀ ids ∈ r.1.lists s'.program, Apart s'.program.bindings ids)) = true := by
    decide +kernel
  obtain ⟨nodes, s', hn, htests⟩ := endsWith_iff.mp hc
  rw [Bool.and_eq_true, decide_eq_true_eq] at htests
  obtain ⟨hnames, hfile⟩ := htests
  obtain ⟨⟨file, nextId⟩, hp, hapart⟩ := succeedsWith_iff.mp hfile
  have hapart := of_decide_eq_true hapart
  exact ⟨nodes, s', file, nextId, hp, hn, hapart, hnames,
    (convertSource_keepsApart (s := default) hp hn).2 hapart⟩

end ScriptBridge
