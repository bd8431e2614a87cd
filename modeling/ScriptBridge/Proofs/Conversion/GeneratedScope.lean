import ScriptBridge.Proofs.Conversion.ExportTable
import ScriptBridge.Proofs.Conversion.Jumps
import ScriptBridge.Proofs.Conversion.KeepsScope
import ScriptBridge.Proofs.Project.Compiled

/-!
# Generated names are distinct and in scope

Names are numbered, and no step of a conversion takes a number back, so the names that are drawn in a
run are distinct. Every capability keeps generated names in scope if the converter it works with does,
so the converted statements of a text refer to generated names only after their definitions. The export
table refers to the names of exported values without a name; these are defined where the export stands,
so the table is in scope if no export stands inside a statement.

* `drawNames`: names that are drawn between other steps.
* `Capability.KeepsScope`: what a capability has to do.
* `Fills`: what a statement enters into the export table is in scope after it.
* `convertSource_inScope`: the names of a run are distinct, and those of its output in scope.
-/

namespace ScriptBridge.Conversion

open TypeScript
open TypeScript.Node (Speak speak_children speak_cons speak_append speak_idents)
open AiScript (InScope InScopeAll inScopeAll_append)

/-! ## Names that are drawn -/

/-- A step that takes back no generated name. -/
def KeepsCount {α : Type} (m : ConvertM α) : Prop :=
  ∀ context s a s', m context s = .ok a s' → s.generated ≤ s'.generated

/-- Names that are drawn one after the other, each after another step. -/
def drawNames : List (ConvertM Unit) → ConvertM (List String)
  | [] => return []
  | step :: rest => do
    step
    let name ← freshName
    return name :: (← drawNames rest)

/-- Names that are drawn have later numbers than all before. -/
theorem drawNames_ok {steps : List (ConvertM Unit)} (h : ∀ step ∈ steps, KeepsCount step)
    {context : Context} {s s' : Progress} {names : List String}
    (hn : drawNames steps context s = .ok names s') :
    (∀ name ∈ names, ∃ k, s.generated < k ∧ name = generatedName k) ∧ names.Nodup := by
  induction steps generalizing s names with
  | nil =>
    cases hn
    exact ⟨fun _ h => absurd h List.not_mem_nil, List.nodup_nil⟩
  | cons step rest ih =>
    obtain ⟨hstep, hrest⟩ := List.forall_mem_cons.mp h
    obtain ⟨_, s₁, h₁, hn⟩ := bind_ok hn
    have hle := hstep context s _ s₁ h₁
    obtain ⟨name, s₂, h₂, hn⟩ := bind_ok hn
    cases h₂
    obtain ⟨more, s₃, h₃, hn⟩ := bind_ok hn
    cases hn
    obtain ⟨hlater, hnodup⟩ := ih hrest h₃
    refine ⟨List.forall_mem_cons.mpr ⟨⟨_, Nat.lt_succ_of_le hle, rfl⟩, fun x hx => ?_⟩,
      List.nodup_cons.mpr ⟨fun hmem => ?_, hnodup⟩⟩
    · obtain ⟨k, hk, rfl⟩ := hlater x hx
      exact ⟨k, Nat.lt_of_le_of_lt (Nat.le_succ_of_le hle) hk, rfl⟩
    · obtain ⟨k, hk, he⟩ := hlater _ hmem
      exact absurd (generatedName_injective he) (Nat.ne_of_lt hk)

theorem keepsCount_of_alike {α : Type} {m : ConvertM α} {k : Nat}
    (h : ∀ context least, ∃ R, ((Setting.growing context least).under k).Alike R m m) :
    KeepsCount m := by
  intro context s _ _ hm
  obtain ⟨_, hm'⟩ := h context s.generated
  exact (hm'.ok (Nat.le_refl _) hm).2

/-- No conversion of a node takes back a generated name. -/
theorem keepsCount_converter (n : Node) :
    KeepsCount ((converter defaultCapabilities (levels [n])).expression n) ∧
      KeepsCount ((converter defaultCapabilities (levels [n])).effects n) ∧
      KeepsCount ((converter defaultCapabilities (levels [n])).statement n) := by
  have hfits (context : Context) (least : Nat) :
      ((Setting.growing context least).under (levels [n])).fits n :=
    ⟨trivial, Node.cost_lt_levels (List.mem_singleton.mpr rfl)⟩
  have hkeeps (context : Context) (least : Nat) :
      ((Setting.growing context least).under (levels [n])).Keeps
        (converter defaultCapabilities (levels [n])) (converter defaultCapabilities (levels [n])) :=
    Setting.keeps_converter exportsFirst_default _
  exact ⟨keepsCount_of_alike fun c l => ⟨_, (hkeeps c l).expression (hfits c l)⟩,
    keepsCount_of_alike fun c l => ⟨_, (hkeeps c l).effects (hfits c l)⟩,
    keepsCount_of_alike fun c l => ⟨_, (hkeeps c l).statement (hfits c l)⟩⟩

/-! ## Capabilities -/

/-- A capability whose results are in scope everywhere. -/
structure Capability.KeepsScope (cap : Capability) (c : Converter) : Prop where
  expression : ∀ {n}, Ordinary n → Makes (cap.expression c n) fun r => ∀ v ∈ r, Scoped [] v
  effects : ∀ {n}, Ordinary n → Makes (cap.effects c n) fun r => ScopedAll [] (given r)
  statement : ∀ {n}, Ordinary n → Makes (cap.statement c n) fun r => ScopedAll [] (given r)

theorem makes_value {v : AiScript.Node} (h : Scoped [] v) :
    Makes (pure (some v)) fun r => ∀ v ∈ r, Scoped [] v := by
  refine carries_pure ?_
  rintro _ ⟨⟩
  exact h

theorem makes_statements {ns : List AiScript.Node} (h : ScopedAll [] ns) :
    Makes (pure (some ns)) fun r => ScopedAll [] (given r) :=
  carries_pure h

theorem makes_no_value : Makes (pure none) fun r : Option AiScript.Node => ∀ v ∈ r, Scoped [] v :=
  carries_pure nofun

theorem makes_no_statements :
    Makes (pure none) fun r : Option (List AiScript.Node) => ScopedAll [] (given r) :=
  carries_pure trivial

section
variable {c : Converter} (hc : KeepsScope c) {n : Node} (hn : Ordinary n)

section
include hc hn

/-! ### Expressions -/

theorem literals_scoped : Makes (literals.expression c n) fun r => ∀ v ∈ r, Scoped [] v := by
  dsimp only [literals]
  split
  · exact (carries_orNumeralFault _).next fun _ => makes_value trivial
  · exact makes_value trivial
  · exact makes_value trivial
  · exact carries_refuse _ _
  · exact makes_value (scoped_tmpl.mpr (by simp))
  · rename_i m head spans
    have hspans : AllOrdinary spans := speak_children hn
    refine (hc.parts hspans).bind fun parts hp => makes_value (scoped_tmpl.mpr ?_)
    exact List.forall_mem_append.mpr ⟨scoped_templateText head, hp⟩
  · rename_i m elements
    have helements : AllOrdinary elements := speak_children hn
    exact (hc.items helements).bind fun items hi => makes_value (scoped_arr.mpr hi)
  · rename_i m properties
    have hproperties : AllOrdinary properties := speak_children hn
    refine (hc.entries (List.forall_mem_nil _) hproperties).bind fun entries he => ?_
    exact makes_value (scoped_obj.mpr he)
  · exact makes_no_value

theorem types_scoped : Makes (types.expression c n) fun r => ∀ v ∈ r, Scoped [] v := by
  dsimp only [types]
  have part {e : Node} {more : List Node} (hs : AllOrdinary (e :: more)) :
      Makes (do return some (← c.expression e)) fun r => ∀ v ∈ r, Scoped [] v :=
    (hc.expression e (hs e (by simp))).bind fun r hr => makes_value hr
  split
  · exact part (speak_children hn)
  · exact part (speak_children hn)
  · exact part (speak_children hn)
  · exact makes_no_value

theorem identifiers_scoped : Makes (identifiers.expression c n) fun r => ∀ v ∈ r, Scoped [] v := by
  dsimp only [identifiers]
  split
  · split
    · exact makes_value trivial
    · exact makes_value (scoped_name hn)
  · rename_i m e
    have he : AllOrdinary [e] := speak_children hn
    exact (hc.expression e (he e (by simp))).bind fun r hr => makes_value hr
  · exact makes_no_value

theorem identifiers_effects_scoped :
    Makes (identifiers.effects c n) fun r => ScopedAll [] (given r) := by
  dsimp only [identifiers]
  split
  · rename_i m e
    have he : AllOrdinary [e] := speak_children hn
    exact (hc.effects e (he e (by simp))).bind fun r hr => makes_statements hr
  · exact makes_no_statements

theorem operators_scoped : Makes (operators.expression c n) fun r => ∀ v ∈ r, Scoped [] v := by
  dsimp only [operators]
  split
  · rename_i m left operator right
    have hs : AllOrdinary [left, right] := speak_children hn
    simp only [speak_cons] at hs
    exact (hc.binaryOperation hs.1 hs.2.1).bind fun r hr => makes_value hr
  · rename_i m operator operand
    have hs : AllOrdinary [operand] := speak_children hn
    exact (hc.prefixOperation (hs operand (by simp))).bind fun r hr => makes_value hr
  · rename_i m operand operator
    have hs : AllOrdinary [operand] := speak_children hn
    exact (hc.stepValue (hs operand (by simp))).bind fun r hr => makes_value hr
  iterate 4
    · exact carries_refuse _ _
  · exact makes_no_value

theorem operators_effects_scoped :
    Makes (operators.effects c n) fun r => ScopedAll [] (given r) := by
  have hu : Ordinary n.unwrap := Node.speaks_unwrap.trans hn
  have step {operator : String} {operand : Node} (hs : AllOrdinary [operand]) :
      Makes (do return some [stepBy operator (← assignTarget c operand)]) fun r =>
        ScopedAll [] (given r) := by
    refine (hc.assignTarget (hs operand (by simp))).bind fun r hr => makes_statements ?_
    exact scopedAll_singleton.mpr (scoped_stepBy operator hr)
  dsimp only [operators]
  split
  · rename_i m left operator right he
    rw [he] at hu
    have hs : AllOrdinary [left, right] := speak_children hu
    simp only [speak_cons] at hs
    split
    · exact (hc.assignment hs.1 hs.2.1).bind fun r hr => makes_statements hr
    · exact makes_no_statements
  · rename_i m operator operand he
    rw [he] at hu
    split
    · exact step (speak_children hu)
    · exact makes_no_statements
  · rename_i m operand operator he
    rw [he] at hu
    exact step (speak_children hu)
  · exact makes_no_statements

theorem access_scoped : Makes (access.expression c n) fun r => ∀ v ∈ r, Scoped [] v := by
  dsimp only [access]
  split
  · rename_i m callee args isOptional
    have hs : AllOrdinary (callee :: args) := speak_children hn
    obtain ⟨hcallee, hargs⟩ := speak_cons.mp hs
    refine carries_guard ((hc.args hargs).bind fun as ha => ?_)
    exact (hc.expression callee hcallee).bind fun f hf => makes_value (scoped_call.mpr ⟨hf, ha⟩)
  · rename_i m target name isOptional
    have hs : AllOrdinary [target, .ident name] := speak_children hn
    exact carries_guard ((hc.property (speak_cons.mp hs).1).bind fun r hr => makes_value hr)
  · rename_i m target key isOptional
    have hs : AllOrdinary [target, key] := speak_children hn
    simp only [speak_cons] at hs
    refine carries_guard ((carries_checkElementAccess _ _).next fun _ => ?_)
    refine (hc.expression target hs.1).bind fun t ht => (hc.expression key hs.2.1).bind fun k hk => ?_
    exact makes_value ⟨ht, hk⟩
  · exact carries_refuse _ _
  · exact makes_no_value

theorem functions_scoped : Makes (functions.expression c n) fun r => ∀ v ∈ r, Scoped [] v := by
  dsimp only [functions]
  split
  · rename_i m params body result typeParams isAsync
    have hs : AllOrdinary (params ++ body :: result.toList ++ typeParams) := speak_children hn
    simp only [speak_append, speak_cons] at hs
    exact (hc.function hs.1.1 hs.1.2.1).bind fun r hr => makes_value hr
  · rename_i m name params body result typeParams isAsync isGenerator
    have hs : AllOrdinary (name.toList.map Node.ident ++ params ++ body :: result.toList ++
      typeParams) := speak_children hn
    simp only [speak_append, speak_cons] at hs
    exact (hc.function hs.1.1.2 hs.1.2.1).bind fun r hr => makes_value hr
  · exact makes_no_value

theorem control_scoped : Makes (control.expression c n) fun r => ∀ v ∈ r, Scoped [] v := by
  dsimp only [control]
  split
  · rename_i m test whenTrue whenFalse
    have hs : AllOrdinary [test, whenTrue, whenFalse] := speak_children hn
    simp only [speak_cons] at hs
    refine (hc.condition hs.1).bind fun t ht => (hc.expression _ hs.2.1).bind fun v hv => ?_
    refine (hc.elseValues hs.2.2.1).bind ?_
    rintro ⟨branches, last⟩ ⟨hb, hl⟩
    refine makes_value (scoped_cond.mpr ⟨ht, hv, hb, ?_⟩)
    rintro _ ⟨⟩
    exact hl
  · exact makes_no_value

/-! ### Statements -/

theorem functions_statement_scoped :
    Makes (functions.statement c n) fun r => ScopedAll [] (given r) := by
  dsimp only [functions]
  split
  · rename_i m modifiers name params body result typeParams isAsync isGenerator
    have hs : AllOrdinary (modifiers.map Node.modifier ++ name.toList.map Node.ident ++ params ++
      [body] ++ result.toList ++ typeParams) := speak_children hn
    simp only [speak_append, speak_cons] at hs
    split
    · exact makes_statements trivial
    split
    · exact carries_refuse _ _
    · refine (carries_checkName _).next fun _ => ?_
      refine (hc.function hs.1.1.1.2 hs.1.1.2.1).bind fun r hr => makes_statements ?_
      exact scopedAll_singleton.mpr hr
  · exact makes_statements trivial
  · exact makes_no_statements

theorem declarations_statement_scoped :
    Makes (declarations.statement c n) fun r => ScopedAll [] (given r) := by
  dsimp only [declarations]
  split
  · rename_i m modifiers list
    have hs : AllOrdinary (modifiers.map Node.modifier ++ [list]) := speak_children hn
    split
    · exact makes_statements trivial
    · exact (hc.variableList (hs list (by simp))).bind fun r hr => makes_statements hr
  · exact makes_no_statements

theorem control_statement_scoped :
    Makes (control.statement c n) fun r => ScopedAll [] (given r) := by
  dsimp only [control]
  split
  · rename_i m test body otherwise
    have hs : AllOrdinary (test :: body :: otherwise.toList) := speak_children hn
    simp only [speak_cons] at hs
    refine (hc.condition hs.1).bind fun t ht => (hc.branch hs.2.1).bind fun b hb => ?_
    refine (KeepsScope.elseBranches? hc otherwise hs.2.2).bind ?_
    rintro ⟨branches, last⟩ ⟨hbs, hl⟩
    exact makes_statements (scopedAll_singleton.mpr (scoped_cond.mpr ⟨ht, hb, hbs, hl⟩))
  · exact (hc.forLoop (speak_children hn)).bind fun r hr => makes_statements hr
  · rename_i m test body
    have hs : AllOrdinary [test, body] := speak_children hn
    simp only [speak_cons] at hs
    exact (hc.whileLoop hs.1 hs.2.1).bind fun r hr => makes_statements hr
  · rename_i m body test
    have hs : AllOrdinary [body, test] := speak_children hn
    simp only [speak_cons] at hs
    exact (hc.doLoop hs.1 hs.2.1).bind fun r hr => makes_statements hr
  · rename_i m target items body isAwait
    have hs : AllOrdinary [target, items, body] := speak_children hn
    simp only [speak_cons] at hs
    exact carries_guard ((hc.forOfLoop hs.2.1 hs.2.2.1).bind fun r hr => makes_statements hr)
  · exact carries_refuse _ _
  · rename_i m subject clauses
    obtain ⟨hs, hk⟩ : _ ∧ AllOrdinary clauses := speak_cons.mp (speak_children hn)
    exact (hc.switch hs hk).bind fun r hr => makes_statements hr
  · exact makes_no_statements

theorem statements_statement_scoped :
    Makes (statements.statement c n) fun r => ScopedAll [] (given r) := by
  dsimp only [statements]
  split
  · rename_i m e
    have he : AllOrdinary [e] := speak_children hn
    exact (hc.effects e (he e (by simp))).bind fun r hr => makes_statements hr
  · rename_i m inner
    have hs : AllOrdinary inner := speak_children hn
    refine (hc.statements hs).bind fun r hr => makes_statements ?_
    exact scopedAll_singleton.mpr hr
  · exact makes_statements trivial
  · exact makes_statements (scopedAll_singleton.mpr trivial)
  · rename_i m e
    have he : AllOrdinary [e] := speak_children hn
    refine (hc.expression e (he e (by simp))).bind fun r hr => makes_statements ?_
    exact scopedAll_singleton.mpr hr
  iterate 3
    · exact carries_refuse _ _
  · exact makes_statements (scopedAll_singleton.mpr trivial)
  · exact makes_statements (scopedAll_singleton.mpr trivial)
  · exact makes_no_statements

end

theorem types_statement_scoped : Makes (types.statement c n) fun r => ScopedAll [] (given r) := by
  dsimp only [types]
  split
  · exact makes_statements trivial
  · exact makes_statements trivial
  split
  · exact makes_statements trivial
  split
  · exact carries_refuse _ _
  · exact makes_no_statements

/-! ### Imports and exports -/

/-- The definition of something imported refers to the name of its module. -/
theorem importNames_scoped {module : ConvertM String}
    (hm : Makes module fun name => isOrdinary name = true) (elements : List Node) :
    Makes (importNames module elements) (ScopedAll []) := by
  fun_induction importNames module elements with
  | case1 => exact carries_pure trivial
  | case2 m imported i isTypeOnly rest ih =>
    refine (carries_isTypeName i).next fun isType => ?_
    have after {first : List AiScript.Node} (hf : ScopedAll [] first) :
        Makes (do return first ++ (← importNames module rest)) (ScopedAll []) :=
      ih.bind fun more hmore => carries_pure (hf.append hmore)
    dsimp only
    split
    · exact after trivial
    · refine (carries_checkName i).next fun _ => hm.bind fun name hname => after ?_
      exact scopedAll_singleton.mpr (.inl hname)
  | case3 n rest _ ih => exact ih

theorem imports_statement_scoped : Makes (imports.statement c n) fun r => ScopedAll [] (given r) := by
  dsimp only [imports]
  split
  · rename_i m _ name allAs elements _ specifier
    have hm : Makes (moduleName specifier m.span) fun name => isOrdinary name = true :=
      carries_moduleName specifier m.span fun _ _ _ hI hname => hI _ _ _ hname
    have hd : Makes (importDefault (moduleName specifier m.span) name) (ScopedAll []) := by
      unfold importDefault
      split
      · exact carries_pure trivial
      · refine (carries_isTypeName _).next fun isType => ?_
        split
        · exact carries_pure trivial
        · refine (carries_checkName _).next fun _ => hm.bind fun module hmodule => carries_pure ?_
          exact scopedAll_singleton.mpr (.inl hmodule)
    have ha : Makes (importAll (moduleName specifier m.span) allAs) (ScopedAll []) := by
      unfold importAll
      split
      · exact carries_pure trivial
      · refine (carries_checkName _).next fun _ => hm.bind fun module hmodule => carries_pure ?_
        exact scopedAll_singleton.mpr (.inl hmodule)
    refine hd.bind fun first hf => ha.bind fun second hs => ?_
    refine (importNames_scoped hm _).bind fun more hmore => makes_statements ?_
    exact (hf.append hs).append hmore
  · exact makes_statements trivial
  · exact makes_no_statements

theorem makes_addExport (name localName : String) : Makes (addExport name localName) fun _ => True :=
  carries_addExport fun _ _ hI => hI

theorem exportNames_scoped (elements : List Node) : Makes (exportNames elements) fun _ => True := by
  induction elements with
  | nil => exact carries_pure trivial
  | cons element rest ih =>
    by_cases hx : ∃ m localName name, element = .exportSpecifier m localName name
    · obtain ⟨m, localName, name, rfl⟩ := hx
      refine (carries_isTypeName _).next fun isType => ?_
      split
      · exact (makes_addExport _ _).next fun _ => ih
      · exact ih
    · rw [exportNames.eq_3 _ _ fun m localName name he => hx ⟨m, localName, name, he⟩]
      exact ih

theorem exportVariables_scoped (list : Node) : Makes (exportVariables list) fun _ => True := by
  rw [exportVariables_eq]
  induction variableNames list with
  | nil => exact carries_pure trivial
  | cons i names ih => exact (makes_addExport _ _).next fun _ => ih

include hc hn

theorem exportDefault_scoped : Makes (exportDefault c n) (ScopedAll []) := by
  unfold exportDefault
  dsimp only
  split
  · refine (carries_isTypeName _).next fun isType => ?_
    split
    · exact (makes_addExport _ _).next fun _ => carries_pure trivial
    · exact carries_pure trivial
  · refine makes_freshName.next fun temp => (makes_addExport _ _).next fun _ => ?_
    exact (hc.expression n hn).bind fun r hr => carries_pure (scopedAll_singleton.mpr hr)

theorem exportDeclared_scoped : Makes (exportDeclared c n) (ScopedAll []) := by
  have inner : Makes (c.statement (withoutExport n)) (ScopedAll []) :=
    hc.statement _ (Node.speaks_setModifiers _ hn)
  unfold exportDeclared
  dsimp only
  split
  · exact carries_pure trivial
  split
  · exact carries_pure trivial
  · exact carries_pure trivial
  · exact carries_pure trivial
  · rename_i m modifiers params body result typeParams isAsync isGenerator _
    have hs : AllOrdinary (modifiers.map Node.modifier ++ [] ++ params ++ [body] ++ result.toList ++
      typeParams) := speak_children hn
    simp only [speak_append, speak_cons] at hs
    refine makes_freshName.next fun temp => (makes_addExport _ _).next fun _ => ?_
    refine (hc.function hs.1.1.1.2 hs.1.1.2.1).bind fun r hr => carries_pure ?_
    exact scopedAll_singleton.mpr hr
  · exact (makes_addExport _ _).next fun _ => inner
  · exact (exportVariables_scoped _).next fun _ => inner
  · exact inner

theorem exports_statement_scoped : Makes (exports.statement c n) fun r => ScopedAll [] (given r) := by
  dsimp only [exports]
  split
  · split
    · exact (exportNames_scoped _).next fun _ => makes_statements trivial
    · exact makes_statements trivial
  · exact carries_refuse _ _
  · rename_i m e
    have he : AllOrdinary [e] := speak_children hn
    exact (exportDefault_scoped hc (he e (by simp))).bind fun r hr => makes_statements hr
  · exact carries_refuse _ _
  · split
    · exact (exportDeclared_scoped hc hn).bind fun r hr => makes_statements hr
    · exact makes_no_statements

omit hn in
theorem defaultCapabilities_keepsScope : ∀ cap ∈ defaultCapabilities, cap.KeepsScope c := by
  intro cap hcap
  have noValue {n : Node} (_ : Ordinary n) :
      Makes (pure none) fun r : Option AiScript.Node => ∀ v ∈ r, Scoped [] v := makes_no_value
  have noStatements {n : Node} (_ : Ordinary n) :
      Makes (pure none) fun r : Option (List AiScript.Node) => ScopedAll [] (given r) :=
    makes_no_statements
  simp only [defaultCapabilities, List.mem_cons, List.not_mem_nil, or_false] at hcap
  rcases hcap with rfl | rfl | rfl | rfl | rfl | rfl | rfl | rfl | rfl | rfl | rfl
  · exact ⟨noValue, noStatements, fun _ => imports_statement_scoped⟩
  · exact ⟨noValue, noStatements, exports_statement_scoped hc⟩
  · exact ⟨types_scoped hc, noStatements, fun _ => types_statement_scoped⟩
  · exact ⟨literals_scoped hc, noStatements, noStatements⟩
  · exact ⟨identifiers_scoped hc, identifiers_effects_scoped hc, noStatements⟩
  · exact ⟨operators_scoped hc, operators_effects_scoped hc, noStatements⟩
  · exact ⟨access_scoped hc, noStatements, noStatements⟩
  · exact ⟨functions_scoped hc, noStatements, functions_statement_scoped hc⟩
  · exact ⟨noValue, noStatements, declarations_statement_scoped hc⟩
  · exact ⟨control_scoped hc, noStatements, control_statement_scoped hc⟩
  · exact ⟨noValue, noStatements, statements_statement_scoped hc⟩

end

/-- The first of several capabilities that keep generated names in scope keeps them so. -/
theorem keepsScope_first {c : Converter} {caps : List Capability}
    (h : ∀ cap ∈ caps, cap.KeepsScope c) :
    KeepsScope
      { expression := fun n => firstExpression c n caps
        effects := fun n => firstEffects c n caps
        statement := fun n => firstStatement c n caps } where
  expression := by
    intro n hn
    dsimp only
    induction caps with
    | nil => exact carries_refuse _ _
    | cons cap caps ih =>
      refine ((h cap (by simp)).expression hn).bind fun r hr => ?_
      cases r with
      | none => exact ih fun cap hcap => h cap (List.mem_cons_of_mem _ hcap)
      | some r => exact carries_pure (scoped_stamp.mpr (hr r rfl))
  effects := by
    intro n hn
    dsimp only
    induction caps with
    | nil => exact carries_refuse _ _
    | cons cap caps ih =>
      refine ((h cap (by simp)).effects hn).bind fun r hr => ?_
      cases r with
      | none =>
        refine ((h cap (by simp)).expression hn).bind fun r hr => ?_
        cases r with
        | none => exact ih fun cap hcap => h cap (List.mem_cons_of_mem _ hcap)
        | some r => exact carries_pure (scopedAll_singleton.mpr (scoped_stamp.mpr (hr r rfl)))
      | some r => exact carries_pure (scopedAll_stamp.mpr hr)
  statement := by
    intro n hn
    dsimp only
    induction caps with
    | nil => exact carries_refuse _ _
    | cons cap caps ih =>
      refine ((h cap (by simp)).statement hn).bind fun r hr => ?_
      cases r with
      | none => exact ih fun cap hcap => h cap (List.mem_cons_of_mem _ hcap)
      | some r => exact carries_pure (scopedAll_stamp.mpr hr)

/-- Generated names stay in scope at every depth. -/
theorem keepsScope_converter (k : Nat) : KeepsScope (converter defaultCapabilities k) := by
  induction k with
  | zero => exact ⟨fun _ _ => carries_throw _, fun _ _ => carries_throw _, fun _ _ => carries_throw _⟩
  | succ k ih => exact keepsScope_first (defaultCapabilities_keepsScope ih)

/-! ## The export table -/

/-- Every local name in an export table is ordinary or in scope. -/
def TableScoped (env : List String) (table : List (String × String)) : Prop :=
  ∀ e ∈ table, isOrdinary e.2 = true ∨ e.2 ∈ env

theorem TableScoped.mono {env env' : List String} {table : List (String × String)}
    (h : TableScoped env table) (hs : env ⊆ env') : TableScoped env' table :=
  fun e he => (h e he).imp_right (hs ·)

theorem TableScoped.set {env : List String} {table : List (String × String)} {name localName : String}
    (h : TableScoped env table) (hl : isOrdinary localName = true ∨ localName ∈ env) :
    TableScoped env (Assoc.set name localName table) :=
  Assoc.forall_mem_set (P := fun l => isOrdinary l = true ∨ l ∈ env) h hl

/-- A step after which every local name in the export table is in scope if it was before. -/
def Fills (context : Context) (m : ConvertM (List AiScript.Node)) : Prop :=
  ∀ env s out s', TableScoped env s.exports → m context s = .ok out s' →
    TableScoped (out.flatMap AiScript.Node.defines ++ env) s'.exports

/-- A step that enters ordinary names only. -/
abbrev Enlists {α : Type} (m : ConvertM α) : Prop :=
  ∀ env, Carries (fun _ table => TableScoped env table) m fun _ => True

theorem enlists_addExport {localName : String} (name : String) (h : isOrdinary localName = true) :
    Enlists (addExport name localName) :=
  fun _ => carries_addExport fun _ _ ht => ht.set (.inl h)

/-- An export list enters names of the source. -/
theorem exportNames_enlists {elements : List Node} (h : AllOrdinary elements) :
    Enlists (exportNames elements) := by
  intro env
  induction elements with
  | nil => exact carries_pure trivial
  | cons element rest ih =>
    obtain ⟨he, hr⟩ := speak_cons.mp h
    by_cases hx : ∃ m localName name, element = .exportSpecifier m localName name
    · obtain ⟨m, localName, name, rfl⟩ := hx
      have hi : AllOrdinary (localName.toList.map Node.ident ++ [.ident name]) := speak_children he
      simp only [speak_append, speak_cons, speak_idents, Node.speaks_ident] at hi
      have hinner : isOrdinary (localName.getD name).name = true := by
        cases localName with
        | none => exact hi.2.1
        | some i => exact hi.1 i rfl
      refine (carries_isTypeName _).next fun isType => ?_
      split
      · exact (enlists_addExport _ hinner env).next fun _ => ih hr
      · exact ih hr
    · rw [exportNames.eq_3 _ _ fun m localName name he => hx ⟨m, localName, name, he⟩]
      exact ih hr

theorem ordinary_variableNames {list : Node} (h : Ordinary list) :
    ∀ i ∈ variableNames list, isOrdinary i.name = true := by
  cases list with
  | variableList m keyword declarations =>
    intro i hi
    obtain ⟨declaration, hd, hi⟩ := List.mem_flatMap.mp hi
    have hd : Ordinary declaration := speak_children h _ hd
    split at hi
    · exact Node.speaks_bindingIdentifiers _ (speak_children hd _ (by simp [Node.children])) i hi
    · cases hi
  | _ => exact List.forall_mem_nil _

theorem exportVariables_enlists {list : Node} (h : Ordinary list) : Enlists (exportVariables list) := by
  have hnames := ordinary_variableNames h
  intro env
  rw [exportVariables_eq]
  generalize variableNames list = names at hnames
  induction names with
  | nil => exact carries_pure trivial
  | cons i names ih =>
    obtain ⟨hi, hnames⟩ := List.forall_mem_cons.mp hnames
    exact (enlists_addExport _ hi env).next fun _ => ih hnames

section
variable {context : Context} {α : Type}

/-- A step that enters nothing leaves the table as it was. -/
theorem Enters.unchanged {m : ConvertM α} (h : Enters context [] m) {s s' : Progress} {a : α}
    (hm : m context s = .ok a s') : s'.exports = s.exports := by
  obtain ⟨entries, hentries, he⟩ := h s a s' hm
  cases hentries
  exact he

theorem fills_of_enters {m : ConvertM (List AiScript.Node)} (h : Enters context [] m) :
    Fills context m := by
  intro env s out s' ht hm
  rw [h.unchanged hm]
  exact ht.mono (List.subset_append_right _ _)

theorem fills_pure_nil : Fills context (pure []) :=
  fills_of_enters (enters_pure _)

theorem fills_refuse (cause : Cause) (n : Node) : Fills context (refuse cause n) :=
  fun _ _ _ _ _ h => nomatch h

/-- A step that enters ordinary names before another one. -/
theorem Enlists.fills {m : ConvertM α} {f : α → ConvertM (List AiScript.Node)} (hm : Enlists m)
    (hf : ∀ a, Fills context (f a)) : Fills context (m >>= f) := by
  intro env s out s' ht h
  obtain ⟨a, s₁, h₁, h⟩ := bind_ok h
  exact hf a env s₁ out s' (hm env context s a s₁ ht h₁).2 h

/-- A value without a name is defined where it is exported. -/
theorem fills_unnamed {m : ConvertM AiScript.Node} (hm : Enters context [] m) :
    Fills context (do
      let temp ← freshName
      addExport "default" temp
      return [define temp (← m) false]) := by
  intro env s out s' ht h
  obtain ⟨temp, s₁, h₁, h⟩ := bind_ok h
  cases h₁
  obtain ⟨_, s₂, h₂, h⟩ := bind_ok h
  cases h₂
  obtain ⟨value, s₃, h₃, h⟩ := bind_ok h
  cases h
  rw [hm.unchanged h₃]
  exact (ht.mono (List.subset_append_right _ _)).set (.inr (List.mem_cons_self ..))

theorem Fills.stamped {m : ConvertM (List AiScript.Node)} (h : Fills context m) (source : Node) :
    Fills context (List.map (stamp source) <$> m) := by
  intro env s out s' ht hm
  rw [map_eq_pure_bind] at hm
  obtain ⟨a, s₁, h₁, hm⟩ := bind_ok hm
  cases hm
  rw [List.flatMap_map]
  simp only [defines_stamp]
  exact h env s a _ ht h₁

/-! ### Statements -/

section
variable {k : Nat} {n : Node} (hinner : ∀ m ∈ n.children, IsSilent m) (hk : n.cost ≤ k)
  (hn : Ordinary n)
include hinner hk hn

theorem exportDefault_fills {e : Node} (he : e ∈ n.children) :
    Fills context (exportDefault (converter defaultCapabilities k) e) := by
  have hvalue : Enters context [] ((converter defaultCapabilities k).expression e) :=
    enters_of_silent fun table => (Setting.keeps_converter exportsFirst_default k).expression
      (allFit_silent hinner hk table e he)
  have hordinary : Ordinary e := speak_children hn e he
  unfold exportDefault
  dsimp only
  split
  · rename_i i hi
    have hname : isOrdinary i.name = true := by
      split at hi
      · split at hi
        · cases hi
        · cases hi
          exact Node.speaks_ident.symm.trans hordinary
      · cases hi
    refine Enlists.fills (fun _ => carries_isTypeName i) fun isType => ?_
    split
    · exact (enlists_addExport _ hname).fills fun _ => fills_pure_nil
    · exact fills_pure_nil
  · exact fills_unnamed hvalue

theorem exportDeclared_fills (he : hasModifier n.modifiers "export" = true) :
    Fills context (exportDeclared (converter defaultCapabilities k) n) := by
  have hrest : Fills context ((converter defaultCapabilities k).statement (withoutExport n)) := by
    refine fills_of_enters (enters_of_silent fun table =>
      (Setting.keeps_converter exportsFirst_default k).statement ?_)
    exact ⟨isSilent_withoutExport hinner (isExport_withoutExport (.inr he)),
      Nat.lt_of_lt_of_le (Node.cost_withoutExport_lt he) hk⟩
  unfold exportDeclared
  dsimp only
  split
  · exact fills_pure_nil
  split
  · exact fills_pure_nil
  · exact fills_pure_nil
  · exact fills_pure_nil
  · rename_i m modifiers params body result typeParams isAsync isGenerator _
    refine fills_unnamed (enters_of_silent (k := k) (R := fun _ => AiScript.Like fun _ => True)
      fun table => ?_)
    have hs : ((Setting.silent context table).under k).AllFit _ := allFit_silent hinner hk table
    simp only [Node.children, Option.toList_some, Setting.allFit_cons, Setting.allFit_append] at hs
    exact (Setting.keeps_converter exportsFirst_default k).function hs.1.1.1.2 hs.1.1.2.1
  · rename_i m modifiers i params body result typeParams isAsync isGenerator _
    have hs : AllOrdinary (modifiers.map Node.modifier ++ [.ident i] ++ params ++ [body] ++
      result.toList ++ typeParams) := speak_children hn
    simp only [speak_append, speak_cons, Node.speaks_ident] at hs
    exact (enlists_addExport _ hs.1.1.1.1.2.1).fills fun _ => hrest
  · rename_i m modifiers list _
    have hs : AllOrdinary (modifiers.map Node.modifier ++ [list]) := speak_children hn
    exact (exportVariables_enlists (hs list (by simp))).fills fun _ => hrest
  · exact hrest

/-- The exports take an export, and what they enter is in scope after it. -/
theorem exports_fills (hexport : isExport n = true) :
    ∃ step, exports.statement (converter defaultCapabilities k) n = some <$> step ∧
      Fills context step := by
  dsimp only [exports]
  split
  · rename_i m elements isTypeOnly
    have hs : AllOrdinary (elements ++ []) := speak_children hn
    cases isTypeOnly with
    | true => exact ⟨pure [], rfl, fills_pure_nil⟩
    | false =>
      refine ⟨exportNames elements >>= fun _ => pure [], ?_, ?_⟩
      · rw [map_bind]
        rfl
      · exact (exportNames_enlists (speak_append.mp hs).1).fills fun _ => fills_pure_nil
  · exact ⟨refuse .reExport _, rfl, fills_refuse _ _⟩
  · exact ⟨_, bind_pure_comp _ _, exportDefault_fills hinner hk hn (by simp [Node.children])⟩
  · exact ⟨refuse .exportAssignment _, rfl, fills_refuse _ _⟩
  · rename_i hlist hother hvalue hassign
    have he : hasModifier n.modifiers "export" = true := by
      unfold isExport at hexport
      split at hexport
      · exact absurd rfl (hother _ _ _ _)
      · rename_i m e isDefault
        cases isDefault with
        | true => exact absurd rfl (hvalue _ _)
        | false => exact absurd rfl (hassign _ _)
      · exact hexport
    rw [if_pos he]
    exact ⟨_, bind_pure_comp _ _, exportDeclared_fills hinner hk hn he⟩

end

/-- What a statement of a module enters is in scope after it. -/
theorem statement_fills {k : Nat} {n : Node} (h : ExportsOutside n) (hk : n.cost ≤ k)
    (hn : Ordinary n) : Fills context ((converter defaultCapabilities (k + 1)).statement n) := by
  cases herased : isErased n with
  | true =>
    rw [exportsFirst_default.converter_erased k herased]
    exact fills_pure_nil
  | false =>
    cases hexport : isExport n with
    | false =>
      have hkept : Enters context (kept (exposures context.program n))
          ((converter defaultCapabilities (k + 1)).statement n) := enters_statement h hk
      rw [exposures_of_not_isExport hexport] at hkept
      exact fills_of_enters hkept
    | true =>
      obtain ⟨step, hstep, hfills⟩ := exports_fills (h herased) hk hn hexport
      have hfirst : (converter defaultCapabilities (k + 1)).statement n =
          List.map (stamp n) <$> step :=
        firstStatement_export hexport hstep
      exact hfirst ▸ hfills.stamped n

theorem statements_fill {k : Nat} {source : List Node} (h : ∀ n ∈ source, ExportsOutside n)
    (hk : ∀ n ∈ source, n.cost ≤ k) (hs : AllOrdinary source) :
    Fills context ((converter defaultCapabilities (k + 1)).statements source) := by
  induction source with
  | nil => exact fills_pure_nil
  | cons n source ih =>
    obtain ⟨hn, hrest⟩ := List.forall_mem_cons.mp h
    obtain ⟨hkn, hkrest⟩ := List.forall_mem_cons.mp hk
    obtain ⟨hsn, hsrest⟩ := speak_cons.mp hs
    intro env s out s' ht hm
    obtain ⟨first, s₁, h₁, hm⟩ := bind_ok hm
    obtain ⟨more, s₂, h₂, hm⟩ := bind_ok hm
    cases hm
    have hfirst := statement_fills hn hkn hsn env s first s₁ ht h₁
    refine (ih hrest hkrest hsrest _ s₁ more _ hfirst h₂).mono fun x hx => ?_
    simp only [List.flatMap_append, List.mem_append] at hx ⊢
    grind

/-- The export table of a module without exports inside statements is in scope after them. -/
theorem convert_inScope {source : List Node} (hs : AllOrdinary source) {progress after : Progress}
    (hnone : progress.exports = []) {m : Module}
    (hmodules : ∀ specifier span name, context.moduleName specifier span = .ok name →
      isOrdinary name = true)
    (hm : Module.convert defaultCapabilities source context progress = .ok m after) :
    ScopedAll [] m.statements ∧
      ((∀ n ∈ source, ExportsOutside n) → ScopedAll [] (m.statements ++ m.table)) := by
  unfold Module.convert at hm
  obtain ⟨nodes, s, hnodes, hm⟩ := bind_ok hm
  cases hm
  have hstatements := ((keepsScope_converter _).statements hs context progress nodes after hmodules
    hnodes).1
  refine ⟨hstatements, fun hout => inScopeAll_append.mpr ⟨hstatements, ?_⟩⟩
  have hcost : ∀ n ∈ source, n.cost ≤ 2 * (source.map Node.height).foldl max 0 + 1 :=
    fun n hn => Nat.le_of_lt_succ (Node.cost_lt_levels hn)
  have hfills : Fills context ((converter defaultCapabilities (levels source)).statements source) :=
    statements_fill hout hcost hs
  have htable := hfills [] progress nodes after (hnone ▸ nofun) hnodes
  dsimp only [Module.table]
  split
  · trivial
  · refine scopedAll_singleton.mpr (scoped_obj.mpr ?_)
    simp only [List.forall_mem_map]
    exact htable

end

end ScriptBridge.Conversion

namespace ScriptBridge

open AiScript Conversion TypeScript

variable {fileName text : String} {place : Place} {s s' : Session} {file : SourceFile}
  {nextId : Nat} {nodes : List AiScript.Node}

/-- The names that are drawn in a run are distinct. What a text without generated names is converted to
refers to generated names in their scope, and so does its export table if no export stands inside a
statement. -/
theorem convertSource_inScope
    (hp : parseFrom s.program.nextId fileName text = .ok (file, nextId))
    (hordinary : AllOrdinary file.statements)
    (h : convertSource defaultCapabilities fileName text place s = .ok nodes s') :
    ((∀ steps, (∀ step ∈ steps, KeepsCount step) → Yields (drawNames steps) List.Nodup) ∧
      ∀ n, KeepsCount ((converter defaultCapabilities (levels [n])).expression n) ∧
        KeepsCount ((converter defaultCapabilities (levels [n])).effects n) ∧
        KeepsCount ((converter defaultCapabilities (levels [n])).statement n)) ∧
      ∃ m : Module, nodes = m.statements ++ m.table ∧ ScopedAll [] m.statements ∧
        ((∀ n ∈ file.statements, ExportsOutside n) → ScopedAll [] nodes) := by
  refine ⟨⟨fun steps hsteps _ _ _ _ hn => (drawNames_ok hsteps hn).2, keepsCount_converter⟩, ?_⟩
  unfold convertSource convertText at h
  obtain ⟨m, s₁, hm, h⟩ := bind_ok h
  obtain ⟨id, s₂, hid, hm⟩ := bind_ok hm
  obtain ⟨after, hc, -⟩ := convertFile_ok hm
  have hsource := parseText_source (loading_ok hid)
  obtain ⟨rfl, -⟩ : file = _ ∧ _ := Prod.mk.inj (Except.ok.inj (hp.symm.trans hsource))
  cases h
  exact ⟨m, rfl, convert_inScope hordinary rfl (fun _ _ _ h => by cases h) hc⟩

/-- A pattern, and an exported value without a name. -/
def unnamedExport : String :=
  "const [a] = [1]; export default [a, 2];"

theorem convertSource_inScope_unnamedExport :
    ∃ nodes s' file nextId,
      parseFrom 0 "main.ts" unnamedExport = .ok (file, nextId) ∧ AllOrdinary file.statements ∧
      (∀ n ∈ file.statements, ExportsOutside n) ∧
      convertSource defaultCapabilities "main.ts" unnamedExport default default = .ok nodes s' ∧
      nodes.length = 4 ∧ ScopedAll [] nodes := by
  have hc : endsWith (convertSource defaultCapabilities "main.ts" unnamedExport default default)
      (fun nodes _ => nodes.length == 4) = true := by
    decide +kernel
  have hfile : succeedsWith (parseFrom 0 "main.ts" unnamedExport)
      (fun r => r.1.statements.all fun n => n.speaks isOrdinary && decide (ExportsOutside n)) =
        true := by
    decide +kernel
  obtain ⟨nodes, s', hn, hlength⟩ := endsWith_iff.mp hc
  obtain ⟨⟨file, nextId⟩, hp, htests⟩ := succeedsWith_iff.mp hfile
  simp only [List.all_eq_true, Bool.and_eq_true, decide_eq_true_eq] at htests
  have hordinary : AllOrdinary file.statements := fun n hn => (htests n hn).1
  have hout : ∀ n ∈ file.statements, ExportsOutside n := fun n hn => (htests n hn).2
  obtain ⟨-, m, -, -, hscoped⟩ := convertSource_inScope hp hordinary hn
  exact ⟨nodes, s', file, nextId, hp, hordinary, hout, hn, beq_iff_eq.mp hlength, hscoped hout⟩

end ScriptBridge
