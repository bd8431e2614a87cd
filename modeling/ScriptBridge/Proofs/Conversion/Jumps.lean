import ScriptBridge.Proofs.Conversion.KeepsJumps
import ScriptBridge.Proofs.Conversion.Calls

/-!
# Jumps go where they go in the source

Every capability keeps jumps if the converter it works with does, so the converter of the usual
capabilities does so at every depth, and with it the conversion of a text.

* `Capability.KeepsJumps`: what a capability has to do.
* `convertSource_jumps`: what jumps of an output leave is what the jumps of its source leave.
-/

namespace ScriptBridge.TypeScript.Node

theorem jumps_modifiers (ms : List Modifier) : ((ms.map modifier).map jumps).flatten = [] := by
  induction ms with
  | nil => rfl
  | cons m ms ih => simpa [jumps_eq (.modifier m), jumpStep, children] using ih

theorem jumps_setModifiers (ms : List Modifier) (n : Node) : (n.setModifiers ms).jumps = n.jumps := by
  fun_cases setModifiers ms n
  case case8 => rfl
  all_goals
    rw [jumps_eq, jumps_eq]
    simp only [jumpStep, children, List.map_append, List.flatten_append, jumps_modifiers]

end ScriptBridge.TypeScript.Node

namespace ScriptBridge.Conversion

open TypeScript
open TypeScript.Node (FunctionsIn JumpsIn functionsIn_children jumpsIn_children)
open AiScript (jumpsOf jumpsOf_append entryJumps paramJumps branchJumps optionJumps)

/-- The nodes that a capability gives, if it does. -/
def given (result : Option (List AiScript.Node)) : List AiScript.Node :=
  result.getD []

/-- A capability whose results stand for jump trees of the source. A statement is looked at with the
places that it will get. -/
structure Capability.KeepsJumps (cap : Capability) (c : Converter) : Prop where
  expression : ∀ {n : Node} {us : SourceJumps}, n.functions ⊆ us →
    Yields (cap.expression c n) fun r => Realized (optionJumps r) us
  effects : ∀ {n : Node} {us : SourceJumps}, n.functions ⊆ us →
    Yields (cap.effects c n) fun r => Realized (jumpsOf {} (given r)) us
  statement : ∀ {n : Node} {us : SourceJumps}, n.jumps ⊆ us →
    Yields (cap.statement c n) fun r => Realized (jumpsOf {} ((given r).map (stamp n))) us

theorem realized_stamps (n : Node) {rs : List AiScript.Node} {us : SourceJumps}
    (h : Realized (jumpsOf {} rs) us) : Realized (jumpsOf {} (rs.map (stamp n))) us := by
  induction rs with
  | nil => exact h
  | cons r rs ih =>
    obtain ⟨hr, hrs⟩ := realized_append.mp h
    exact realized_append.mpr ⟨realized_stamp n hr, ih hrs⟩

section
variable {c : Converter} (hc : KeepsJumps c) {n : Node} {us : SourceJumps}

/-! ## Expressions -/

theorem no_expression (_ : n.functions ⊆ us) :
    Yields (pure none : ConvertM (Option AiScript.Node)) fun r => Realized (optionJumps r) us :=
  yields_pure realized_nil

theorem no_effects (_ : n.functions ⊆ us) :
    Yields (pure none : ConvertM (Option (List AiScript.Node))) fun r =>
      Realized (jumpsOf {} (given r)) us :=
  yields_pure realized_nil

theorem no_statement (_ : n.jumps ⊆ us) :
    Yields (pure none : ConvertM (Option (List AiScript.Node))) fun r =>
      Realized (jumpsOf {} ((given r).map (stamp n))) us :=
  yields_pure realized_nil

include hc

theorem literals_realized (h : n.functions ⊆ us) :
    Yields (literals.expression c n) fun r => Realized (optionJumps r) us := by
  dsimp only [literals]
  split
  · exact yields_bind fun _ => yields_pure realized_nil
  · exact yields_pure realized_nil
  · exact yields_pure realized_nil
  · exact yields_refuse _ _
  · exact yields_pure realized_nil
  · rename_i m head spans
    refine (hc.parts (functionsIn_children h fun _ => rfl)).bind fun parts hp => yields_pure ?_
    have ht : jumpsOf {} (templateText head) = [] := by
      unfold templateText
      split <;> rfl
    simp only [optionJumps, AiScript.Node.jumps, jumpsOf_append, ht]
    exact hp
  · exact (hc.items (functionsIn_children h fun _ => rfl)).bind fun items hi => yields_pure hi
  · have hnone : Realized (entryJumps []) us := realized_nil
    exact (hc.entries hnone (functionsIn_children h fun _ => rfl)).bind fun es he => yields_pure he
  · exact yields_pure realized_nil

theorem types_realized (h : n.functions ⊆ us) :
    Yields (types.expression c n) fun r => Realized (optionJumps r) us := by
  dsimp only [types]
  have part {e : Node} {more : List Node} (hs : FunctionsIn us (e :: more)) :
      Yields (do return some (← c.expression e)) fun r => Realized (optionJumps r) us :=
    (hc.expression (hs e (by simp))).bind fun r hr => yields_pure hr
  split
  · exact part (functionsIn_children h fun _ => rfl)
  · exact part (functionsIn_children h fun _ => rfl)
  · exact part (functionsIn_children h fun _ => rfl)
  · exact yields_pure realized_nil

theorem identifiers_realized (h : n.functions ⊆ us) :
    Yields (identifiers.expression c n) fun r => Realized (optionJumps r) us := by
  dsimp only [identifiers]
  split
  · refine yields_pure ?_
    split <;> exact realized_nil
  · rename_i m e
    have he : FunctionsIn us [e] := functionsIn_children h fun _ => rfl
    exact (hc.expression (he e (by simp))).bind fun r hr => yields_pure hr
  · exact yields_pure realized_nil

theorem identifiers_effects_realized (h : n.functions ⊆ us) :
    Yields (identifiers.effects c n) fun r => Realized (jumpsOf {} (given r)) us := by
  dsimp only [identifiers]
  split
  · rename_i m e
    have he : FunctionsIn us [e] := functionsIn_children h fun _ => rfl
    exact (hc.effects (he e (by simp))).bind fun r hr => yields_pure hr
  · exact yields_pure realized_nil

theorem operators_realized (h : n.functions ⊆ us) :
    Yields (operators.expression c n) fun r => Realized (optionJumps r) us := by
  dsimp only [operators]
  split
  · rename_i m left operator right
    have hs : FunctionsIn us [left, right] := functionsIn_children h fun _ => rfl
    exact (hc.binaryOperation (hs left (by simp)) (hs right (by simp))).bind fun r hr =>
      yields_pure hr
  · rename_i m operator operand
    have hs : FunctionsIn us [operand] := functionsIn_children h fun _ => rfl
    exact (hc.prefixOperation (hs operand (by simp))).bind fun r hr => yields_pure hr
  · rename_i m operand operator
    have hs : FunctionsIn us [operand] := functionsIn_children h fun _ => rfl
    exact (hc.stepValue (hs operand (by simp))).bind fun r hr => yields_pure hr
  iterate 4
    · exact yields_refuse _ _
  · exact yields_pure realized_nil

theorem operators_effects_realized (h : n.functions ⊆ us) :
    Yields (operators.effects c n) fun r => Realized (jumpsOf {} (given r)) us := by
  have hu : n.unwrap.functions ⊆ us := by rwa [n.functions_unwrap]
  have step {operator : String} {operand : Node} (hs : FunctionsIn us [operand]) :
      Yields (do return some [stepBy operator (← assignTarget c operand)]) fun r =>
        Realized (jumpsOf {} (given r)) us := by
    refine (hc.assignTarget (hs operand (by simp))).bind fun r hr => yields_pure ?_
    exact realized_append.mpr ⟨KeepsJumps.stepBy_realized hr operator, realized_nil⟩
  dsimp only [operators]
  split
  · rename_i m left operator right he
    rw [he] at hu
    have hs : FunctionsIn us [left, right] := functionsIn_children hu fun _ => rfl
    split
    · exact (hc.assignment (hs left (by simp)) (hs right (by simp))).bind fun r hr => yields_pure hr
    · exact yields_pure realized_nil
  · rename_i m operator operand he
    rw [he] at hu
    split
    · exact step (functionsIn_children hu fun _ => rfl)
    · exact yields_pure realized_nil
  · rename_i m operand operator he
    rw [he] at hu
    exact step (functionsIn_children hu fun _ => rfl)
  · exact yields_pure realized_nil

theorem access_realized (h : n.functions ⊆ us) :
    Yields (access.expression c n) fun r => Realized (optionJumps r) us := by
  dsimp only [access]
  split
  · rename_i m callee args isOptional
    have hs : FunctionsIn us (callee :: args) := functionsIn_children h fun _ => rfl
    obtain ⟨hcallee, hargs⟩ := Node.functionsIn_cons.mp hs
    refine yields_guard ((hc.args hargs).bind fun as ha => (hc.expression hcallee).bind fun f hf => ?_)
    exact yields_pure (realized_append.mpr ⟨hf, ha⟩)
  · rename_i m target name isOptional
    have hs : FunctionsIn us [target, .ident name] := functionsIn_children h fun _ => rfl
    exact yields_guard ((hc.property (hs target (by simp)) _).bind fun r hr => yields_pure hr)
  · rename_i m target key isOptional
    have hs : FunctionsIn us [target, key] := functionsIn_children h fun _ => rfl
    refine yields_guard (yields_bind fun _ => ?_)
    refine (hc.expression (hs target (by simp))).bind fun t ht => ?_
    refine (hc.expression (hs key (by simp))).bind fun k hk => ?_
    exact yields_pure (realized_append.mpr ⟨ht, hk⟩)
  · exact yields_refuse _ _
  · exact yields_pure realized_nil

theorem functions_realized (h : n.functions ⊆ us) :
    Yields (functions.expression c n) fun r => Realized (optionJumps r) us := by
  dsimp only [functions]
  split
  · rename_i m params body result typeParams isAsync
    have hs := Node.jumpsIn_flatten (params ++ body :: result.toList ++ typeParams)
    simp only [Node.jumpsIn_append, Node.jumpsIn_cons] at hs
    have hu : .function _ ∈ us := h (Node.mem_functions fun _ => rfl)
    exact (hc.function hs.1.1.functionsIn hs.1.2.1 hu).bind fun r hr => yields_pure hr
  · rename_i m name params body result typeParams isAsync isGenerator
    have hs := Node.jumpsIn_flatten
      (name.toList.map Node.ident ++ params ++ body :: result.toList ++ typeParams)
    simp only [Node.jumpsIn_append, Node.jumpsIn_cons] at hs
    have hu : .function _ ∈ us := h (Node.mem_functions fun _ => rfl)
    exact (hc.function hs.1.1.2.functionsIn hs.1.2.1 hu).bind fun r hr => yields_pure hr
  · exact yields_pure realized_nil

theorem control_realized (h : n.functions ⊆ us) :
    Yields (control.expression c n) fun r => Realized (optionJumps r) us := by
  dsimp only [control]
  split
  · rename_i m test whenTrue whenFalse
    have hs : FunctionsIn us [test, whenTrue, whenFalse] := functionsIn_children h fun _ => rfl
    simp only [Node.functionsIn_cons] at hs
    refine (hc.condition hs.1).bind fun t ht => (hc.expression hs.2.1).bind fun v hv => ?_
    refine (hc.elseValues hs.2.2.1).bind ?_
    rintro ⟨branches, last⟩ ⟨hb, hl⟩
    refine yields_pure ?_
    simp only [optionJumps, AiScript.Node.jumps, realized_append]
    exact ⟨⟨⟨ht, hv⟩, hb⟩, hl⟩
  · exact yields_pure realized_nil

/-! ## Statements -/

/-- The function value of a declared function. -/
theorem declaredFunction_realized {m : Mark} {modifiers : List Modifier} {name : Option Ident}
    {params typeParams : List Node} {body : Node} {result : Option Node} {isAsync isGenerator : Bool}
    (h : (Node.functionDeclaration m modifiers name params (some body) result typeParams isAsync
      isGenerator).jumps ⊆ us) :
    Yields (convertFunction c n isAsync isGenerator params body) fun r =>
      Realized (r.jumps {}) us := by
  have hs := Node.jumpsIn_flatten (modifiers.map Node.modifier ++ name.toList.map Node.ident ++
    params ++ [body] ++ result.toList ++ typeParams)
  simp only [Node.jumpsIn_append, Node.jumpsIn_cons] at hs
  have hu : .function _ ∈ us := Node.functions_subset h (Node.mem_functions fun _ => rfl)
  exact hc.function hs.1.1.1.2.functionsIn hs.1.1.2.1 hu

omit hc in
/-- A definition of a value. -/
theorem defined_realized {m : ConvertM AiScript.Node} {name : String}
    (h : Yields m fun r => Realized (r.jumps {}) us) :
    Yields (do return [define name (← m) false]) fun rs => Realized (jumpsOf {} rs) us :=
  h.bind fun _ hr => yields_pure (realized_append.mpr ⟨hr, realized_nil⟩)

theorem functions_statement_realized (h : n.jumps ⊆ us) :
    Yields (functions.statement c n) fun r =>
      Realized (jumpsOf {} ((given r).map (stamp n))) us := by
  dsimp only [functions]
  split
  · split
    · exact yields_pure realized_nil
    split
    · exact yields_refuse _ _
    · refine yields_bind fun _ => (declaredFunction_realized hc h).bind fun r hr => yields_pure ?_
      exact realized_stamps _ (realized_append.mpr ⟨hr, realized_nil⟩)
  · exact yields_pure realized_nil
  · exact yields_pure realized_nil

theorem declarations_statement_realized (h : n.jumps ⊆ us) :
    Yields (declarations.statement c n) fun r =>
      Realized (jumpsOf {} ((given r).map (stamp n))) us := by
  dsimp only [declarations]
  split
  · rename_i m modifiers list
    have hs : FunctionsIn us (modifiers.map Node.modifier ++ [list]) :=
      functionsIn_children (Node.functions_subset h) fun _ => rfl
    split
    · exact yields_pure realized_nil
    · exact (hc.variableList (hs list (by simp))).bind fun r hr =>
        yields_pure (realized_stamps _ hr)
  · exact yields_pure realized_nil

theorem control_statement_realized (h : n.jumps ⊆ us) :
    Yields (control.statement c n) fun r =>
      Realized (jumpsOf {} ((given r).map (stamp n))) us := by
  dsimp only [control]
  split
  · rename_i m test body otherwise
    have hs : JumpsIn us (test :: body :: otherwise.toList) := jumpsIn_children h fun _ => rfl
    simp only [Node.jumpsIn_cons] at hs
    refine (hc.condition (Node.functions_subset hs.1)).bind fun t ht => ?_
    refine (hc.branch hs.2.1).bind fun b hb => ?_
    refine (KeepsJumps.elseBranches? hc otherwise hs.2.2).bind ?_
    rintro ⟨branches, last⟩ ⟨hbs, hl⟩
    refine yields_pure (realized_stamps _ ?_)
    simp only [given, Option.getD_some, jumpsOf, AiScript.Node.jumps, realized_append]
    exact ⟨⟨⟨⟨ht, hb⟩, hbs⟩, hl⟩, realized_nil⟩
  · exact (hc.forLoop rfl h).bind fun r hr => yields_pure hr
  · exact (hc.whileLoop rfl h).bind fun r hr => yields_pure hr
  · exact (hc.doLoop rfl h).bind fun r hr => yields_pure hr
  · exact yields_guard ((hc.forOfLoop rfl h).bind fun r hr => yields_pure hr)
  · exact yields_refuse _ _
  · exact (hc.switch h).bind fun r hr => yields_pure (realized_stamps _ hr)
  · exact yields_pure realized_nil

omit hc in
/-- A jump gets the place of the statement that it comes from. -/
theorem jump_realized {kind : JumpKind} (h : .jump kind n.span ∈ us) :
    Realized [.jump kind (locOf n)] us := by
  refine realized_cons.mpr ⟨⟨_, h, ?_⟩, realized_nil⟩
  simp only [JumpTree.Realizes]
  exact ⟨trivial, rfl⟩

theorem statements_statement_realized (h : n.jumps ⊆ us) :
    Yields (statements.statement c n) fun r =>
      Realized (jumpsOf {} ((given r).map (stamp n))) us := by
  dsimp only [statements]
  split
  · rename_i m e
    have he : FunctionsIn us [e] :=
      functionsIn_children (Node.functions_subset h) fun _ => rfl
    exact (hc.effects (he e (by simp))).bind fun r hr => yields_pure (realized_stamps _ hr)
  · rename_i m inner
    refine (hc.statements (jumpsIn_children h fun _ => rfl)).bind fun r hr => yields_pure ?_
    refine realized_stamps _ ?_
    simpa [given, jumpsOf, AiScript.Node.jumps] using hr
  · exact yields_pure realized_nil
  · exact yields_pure (realized_stamps _ realized_nil)
  · rename_i m e
    have he : FunctionsIn us [e] :=
      functionsIn_children (Node.functions_subset h) fun _ => rfl
    refine (hc.expression (he e (by simp))).bind fun r hr => yields_pure (realized_stamps _ ?_)
    simpa [given, jumpsOf, AiScript.Node.jumps] using hr
  iterate 3
    · exact yields_refuse _ _
  · exact yields_pure (jump_realized (h (by rw [Node.jumps_eq]; exact List.mem_singleton_self _)))
  · exact yields_pure (jump_realized (h (by rw [Node.jumps_eq]; exact List.mem_singleton_self _)))
  · exact yields_pure realized_nil

omit hc in
theorem types_statement_realized :
    Yields (types.statement c n) fun r =>
      Realized (jumpsOf {} ((given r).map (stamp n))) us := by
  dsimp only [types]
  split
  · exact yields_pure realized_nil
  · exact yields_pure realized_nil
  split
  · exact yields_pure realized_nil
  split
  · exact yields_refuse _ _
  · exact yields_pure realized_nil

/-! ## Imports and exports -/

omit hc in
theorem importNames_realized (module : ConvertM String) (elements : List Node) :
    Yields (importNames module elements) fun rs => Realized (jumpsOf {} rs) us := by
  fun_induction importNames module elements with
  | case1 => exact yields_pure realized_nil
  | case2 m imported i isTypeOnly rest ih =>
    refine yields_bind fun isType => ?_
    have after {first : List AiScript.Node} (h : Realized (jumpsOf {} first) us) :
        Yields (do return first ++ (← importNames module rest)) fun rs =>
          Realized (jumpsOf {} rs) us := by
      refine ih.bind fun more hm => yields_pure ?_
      rw [jumpsOf_append]
      exact realized_append.mpr ⟨h, hm⟩
    dsimp only
    split
    · exact after realized_nil
    · exact yields_bind fun _ => yields_bind fun _ => after realized_nil
  | case3 n rest _ ih => exact ih

omit hc in
theorem imports_statement_realized :
    Yields (imports.statement c n) fun r =>
      Realized (jumpsOf {} ((given r).map (stamp n))) us := by
  dsimp only [imports]
  split
  · rename_i m _ name allAs elements _ specifier
    have hd : Yields (importDefault (moduleName specifier m.span) name) fun rs =>
        Realized (jumpsOf {} rs) us := by
      unfold importDefault
      split
      · exact yields_pure realized_nil
      · refine yields_bind fun isType => ?_
        split
        · exact yields_pure realized_nil
        · exact yields_bind fun _ => yields_bind fun _ => yields_pure realized_nil
    have ha : Yields (importAll (moduleName specifier m.span) allAs) fun rs =>
        Realized (jumpsOf {} rs) us := by
      unfold importAll
      split
      · exact yields_pure realized_nil
      · exact yields_bind fun _ => yields_bind fun _ => yields_pure realized_nil
    have hn : Yields (importNames (moduleName specifier m.span) (elements.getD [])) fun rs =>
        Realized (jumpsOf {} rs) us := importNames_realized _ _
    refine hd.bind fun first hf => ha.bind fun second hs => hn.bind fun more hm => ?_
    refine yields_pure (realized_stamps _ ?_)
    rw [given, Option.getD_some, jumpsOf_append, jumpsOf_append]
    exact realized_append.mpr ⟨realized_append.mpr ⟨hf, hs⟩, hm⟩
  · exact yields_pure realized_nil
  · exact yields_pure realized_nil

theorem exportDefault_realized (h : n.functions ⊆ us) :
    Yields (exportDefault c n) fun rs => Realized (jumpsOf {} rs) us := by
  unfold exportDefault
  dsimp only
  split
  · refine yields_bind fun isType => ?_
    split
    · exact yields_bind fun _ => yields_pure realized_nil
    · exact yields_pure realized_nil
  · exact yields_bind fun temp => yields_bind fun _ => defined_realized (hc.expression h)

theorem exportDeclared_realized (h : n.jumps ⊆ us) :
    Yields (exportDeclared c n) fun rs => Realized (jumpsOf {} rs) us := by
  have inner : Yields (c.statement (withoutExport n)) fun rs => Realized (jumpsOf {} rs) us :=
    hc.statement (by rwa [withoutExport, Node.jumps_setModifiers])
  unfold exportDeclared
  dsimp only
  split
  · exact yields_pure realized_nil
  split
  · exact yields_pure realized_nil
  · exact yields_pure realized_nil
  · exact yields_pure realized_nil
  · exact yields_bind fun temp => yields_bind fun _ =>
      defined_realized (declaredFunction_realized hc h)
  · exact yields_bind fun _ => inner
  · exact yields_bind fun _ => inner
  · exact inner

theorem exports_statement_realized (h : n.jumps ⊆ us) :
    Yields (exports.statement c n) fun r =>
      Realized (jumpsOf {} ((given r).map (stamp n))) us := by
  dsimp only [exports]
  split
  · split
    · exact yields_bind fun _ => yields_pure realized_nil
    · exact yields_pure realized_nil
  · exact yields_refuse _ _
  · rename_i m e
    have he : FunctionsIn us [e] :=
      functionsIn_children (Node.functions_subset h) fun _ => rfl
    exact (exportDefault_realized hc (he e (by simp))).bind fun r hr =>
      yields_pure (realized_stamps _ hr)
  · exact yields_refuse _ _
  · split
    · exact (exportDeclared_realized hc h).bind fun r hr => yields_pure (realized_stamps _ hr)
    · exact yields_pure realized_nil

/-! ## All capabilities -/

theorem defaultCapabilities_keepsJumps : ∀ cap ∈ defaultCapabilities, cap.KeepsJumps c := by
  intro cap hcap
  simp only [defaultCapabilities, List.mem_cons, List.not_mem_nil, or_false] at hcap
  rcases hcap with rfl | rfl | rfl | rfl | rfl | rfl | rfl | rfl | rfl | rfl | rfl
  · exact ⟨no_expression, no_effects, fun _ => imports_statement_realized⟩
  · exact ⟨no_expression, no_effects, exports_statement_realized hc⟩
  · exact ⟨types_realized hc, no_effects, fun _ => types_statement_realized⟩
  · exact ⟨literals_realized hc, no_effects, no_statement⟩
  · exact ⟨identifiers_realized hc, identifiers_effects_realized hc, no_statement⟩
  · exact ⟨operators_realized hc, operators_effects_realized hc, no_statement⟩
  · exact ⟨access_realized hc, no_effects, no_statement⟩
  · exact ⟨functions_realized hc, no_effects, functions_statement_realized hc⟩
  · exact ⟨no_expression, no_effects, declarations_statement_realized hc⟩
  · exact ⟨control_realized hc, no_effects, control_statement_realized hc⟩
  · exact ⟨no_expression, no_effects, statements_statement_realized hc⟩

end

/-- The first of several capabilities that keep jumps keeps them. -/
theorem keepsJumps_first {c : Converter} {caps : List Capability}
    (h : ∀ cap ∈ caps, cap.KeepsJumps c) :
    KeepsJumps
      { expression := fun n => firstExpression c n caps
        effects := fun n => firstEffects c n caps
        statement := fun n => firstStatement c n caps } where
  expression := by
    intro n us hn
    dsimp only
    induction caps with
    | nil => exact yields_refuse _ _
    | cons cap caps ih =>
      refine ((h cap (by simp)).expression hn).bind fun r hr => ?_
      cases r with
      | none => exact ih fun cap hcap => h cap (List.mem_cons_of_mem _ hcap)
      | some r => exact yields_pure (realized_stamp n hr)
  effects := by
    intro n us hn
    dsimp only
    induction caps with
    | nil => exact yields_refuse _ _
    | cons cap caps ih =>
      refine ((h cap (by simp)).effects hn).bind fun r hr => ?_
      cases r with
      | none =>
        refine ((h cap (by simp)).expression hn).bind fun r hr => ?_
        cases r with
        | none => exact ih fun cap hcap => h cap (List.mem_cons_of_mem _ hcap)
        | some r => exact yields_pure (realized_append.mpr ⟨realized_stamp n hr, realized_nil⟩)
      | some r => exact yields_pure (realized_stamps n hr)
  statement := by
    intro n us hn
    dsimp only
    induction caps with
    | nil => exact yields_refuse _ _
    | cons cap caps ih =>
      refine ((h cap (by simp)).statement hn).bind fun r hr => ?_
      cases r with
      | none => exact ih fun cap hcap => h cap (List.mem_cons_of_mem _ hcap)
      | some r => exact yields_pure hr

/-- Conversion keeps jumps at every depth. -/
theorem keepsJumps_converter (k : Nat) : KeepsJumps (converter defaultCapabilities k) := by
  induction k with
  | zero => exact ⟨fun _ => yields_throw _, fun _ => yields_throw _, fun _ => yields_throw _⟩
  | succ k ih => exact keepsJumps_first (defaultCapabilities_keepsJumps ih)

/-- The jump trees of a module are those of its source. -/
theorem module_realized (source : List Node) :
    Yields (Module.convert defaultCapabilities source) fun m =>
      Realized (jumpsOf {} m.statements) (source.map Node.jumps).flatten :=
  ((keepsJumps_converter _).statements (Node.jumpsIn_flatten source)).bind fun _ hs =>
    yields_bind fun _ => yields_pure hs

/-- An export table only has names. -/
theorem Module.jumpsOf_table (m : Module) : jumpsOf {} m.table = [] := by
  unfold Module.table
  split
  · rfl
  · simp only [jumpsOf, exportTable, AiScript.Node.jumps, List.append_nil]
    induction m.exports with
    | nil => rfl
    | cons e es ih => simpa [entryJumps, AiScript.Node.jumps] using ih

end ScriptBridge.Conversion

namespace ScriptBridge

open Conversion TypeScript

/-- The jump trees of a file. -/
def TypeScript.SourceFile.jumps (file : SourceFile) : SourceJumps :=
  (file.statements.map Node.jumps).flatten

/-- In the conversion of a text, every loop stands for a loop of the text, and every jump of it is its
test or stands for a jump of that loop. If all jumps of the text are in loops, apart from those that
leave a switch, then so are those of its conversion. -/
theorem convertSource_jumps {fileName text : String} {place : Place} {s s' : Session}
    {nodes : List AiScript.Node}
    (h : convertSource defaultCapabilities fileName text place s = .ok nodes s') :
    ∃ file nextId, parseFrom s.program.nextId fileName text = .ok (file, nextId) ∧
      Realized (AiScript.jumpsOf {} nodes) file.jumps ∧
      (WellPlaced file.jumps → WellPlaced (AiScript.jumpsOf {} nodes)) := by
  unfold convertSource at h
  obtain ⟨m, s₁, hm, h⟩ := bind_ok h
  obtain ⟨file, nextId, hp, _, _, _, -, hc⟩ := convertText_ok hm
  have hr : Realized (AiScript.jumpsOf {} nodes) file.jumps := by
    cases h
    rw [AiScript.jumpsOf_append, m.jumpsOf_table, List.append_nil]
    exact module_realized _ _ _ _ _ hc
  exact ⟨file, nextId, hp, hr, hr.wellPlaced⟩

/-- A loop with a test; a switch in it jumps to the next round of the loop, and another loop is in the
switch. -/
def nestedJumps : String :=
  "while (false) \x7b switch (\"a\") \x7b default: for (;;) break; continue; break; \x7d break; \x7d"

theorem convertSource_jumps_nested :
    ∃ nodes s' file nextId,
      convertSource defaultCapabilities "main.ts" nestedJumps default default = .ok nodes s' ∧
      parseFrom 0 "main.ts" nestedJumps = .ok (file, nextId) ∧ WellPlaced file.jumps ∧
      Realized (AiScript.jumpsOf {} nodes) file.jumps ∧ WellPlaced (AiScript.jumpsOf {} nodes) := by
  have hc : endsWith (convertSource defaultCapabilities "main.ts" nestedJumps default default)
      (fun _ _ => true) = true := by
    decide +kernel
  have hw : succeedsWith (parseFrom 0 "main.ts" nestedJumps)
      (fun r => decide (WellPlaced r.1.jumps)) = true := by
    decide +kernel
  obtain ⟨nodes, s', hn, -⟩ := endsWith_iff.mp hc
  obtain ⟨file, nextId, hp, hr, h⟩ := convertSource_jumps hn
  have hp : parseFrom 0 "main.ts" nestedJumps = .ok (file, nextId) := hp
  rw [hp] at hw
  have hw := of_decide_eq_true hw
  exact ⟨nodes, s', file, nextId, hn, hp, hw, hr, h hw⟩

end ScriptBridge
