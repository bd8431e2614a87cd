import ScriptBridge.Proofs.AiScript.Decide
import ScriptBridge.Proofs.AiScript.RoundTrip
import ScriptBridge.Proofs.Conversion.AlikeCapabilities
import ScriptBridge.Proofs.Conversion.Jumps
import ScriptBridge.Proofs.Conversion.KeepsForm
import ScriptBridge.Proofs.Project.Sources

/-!
# Printed conversions read back

Every capability keeps the right form if the converter it works with does, so the conversion of a text
whose names can be read has the right form everywhere, and its export table too. If it can be printed
as well, only one thing is left that can keep it from being read back: parts that run on into each
other. The conversion does not see to that, because it drops the parentheses of the source.

* `Capability.KeepsForm`: what a capability has to do.
* `convertSource_formed`: the conversion of a text has the right form.
* `convertSource_readsBack`: it is read back as it was if its parts stand apart.
-/

namespace ScriptBridge.Conversion

open TypeScript
open TypeScript.Node (Named named_children named_cons named_append named_idents)
open AiScript (IsPath)

/-- A capability whose results have the right form where the names of the source can be read. -/
structure Capability.KeepsForm (cap : Capability) (c : Converter) : Prop where
  expression : ∀ {n : Node}, n.named = true →
    Gives (cap.expression c n) fun r => ∀ v ∈ r, Valued v
  effects : ∀ {n : Node}, n.named = true → Gives (cap.effects c n) fun r => AllStand (given r)
  statement : ∀ {n : Node}, n.named = true → Gives (cap.statement c n) fun r => AllStand (given r)

theorem gives_value {v : AiScript.Node} (h : Valued v) :
    Gives (pure (some v)) fun r => ∀ v ∈ r, Valued v := by
  refine carries_pure ?_
  rintro _ ⟨⟩
  exact h

theorem gives_statements {ns : List AiScript.Node} (h : AllStand ns) :
    Gives (pure (some ns)) fun r => AllStand (given r) :=
  carries_pure h

theorem no_value : Gives (pure none) fun r : Option AiScript.Node => ∀ v ∈ r, Valued v :=
  carries_pure nofun

theorem no_statements :
    Gives (pure none) fun r : Option (List AiScript.Node) => AllStand (given r) :=
  carries_pure allStand_nil

section
variable {c : Converter} (hc : KeepsForm c) {n : Node} (hn : n.named = true)

section
include hc hn

/-! ## Expressions -/

theorem literals_formed : Gives (literals.expression c n) fun r => ∀ v ∈ r, Valued v := by
  dsimp only [literals]
  split
  · exact (carries_orNumeralFault _).next fun _ => gives_value valued_num
  · exact gives_value valued_str
  · exact gives_value valued_bool
  · exact carries_refuse _ _
  · exact gives_value (valued_tmpl (by simp))
  · rename_i m head spans
    have hspans : Named spans := named_children hn
    refine (hc.parts hspans).bind fun parts hp => gives_value (valued_tmpl ?_)
    exact List.forall_mem_append.mpr ⟨valued_templateText head, hp⟩
  · rename_i m elements
    have helements : Named elements := named_children hn
    exact (hc.items helements).bind fun items hi => gives_value (valued_arr.mpr hi)
  · rename_i m properties
    have hproperties : Named properties := named_children hn
    have hnone : (([] : List (String × AiScript.Node)).map Prod.fst).Nodup := List.nodup_nil
    refine (hc.entries hnone (List.forall_mem_nil _) hproperties).bind fun entries he => ?_
    exact gives_value (valued_obj.mpr he)
  · exact no_value

theorem types_formed : Gives (types.expression c n) fun r => ∀ v ∈ r, Valued v := by
  dsimp only [types]
  have part {e : Node} {more : List Node} (hs : Named (e :: more)) :
      Gives (do return some (← c.expression e)) fun r => ∀ v ∈ r, Valued v :=
    (hc.expression e (hs e (by simp))).bind fun r hr => gives_value hr
  split
  · exact part (named_children hn)
  · exact part (named_children hn)
  · exact part (named_children hn)
  · exact no_value

theorem identifiers_formed : Gives (identifiers.expression c n) fun r => ∀ v ∈ r, Valued v := by
  dsimp only [identifiers]
  split
  · rename_i i
    have hi := isPath_of_readable (Node.named_ident ▸ hn)
    split
    · exact gives_value valued_null
    · exact gives_value (valued_ident.mpr hi)
  · rename_i m e
    have he : Named [e] := named_children hn
    exact (hc.expression e (he e (by simp))).bind fun r hr => gives_value hr
  · exact no_value

theorem identifiers_effects_formed :
    Gives (identifiers.effects c n) fun r => AllStand (given r) := by
  dsimp only [identifiers]
  split
  · rename_i m e
    have he : Named [e] := named_children hn
    exact (hc.effects e (he e (by simp))).bind fun r hr => gives_statements hr
  · exact no_statements

theorem operators_formed : Gives (operators.expression c n) fun r => ∀ v ∈ r, Valued v := by
  dsimp only [operators]
  split
  · rename_i m left operator right
    have hs : Named [left, right] := named_children hn
    simp only [named_cons] at hs
    exact (hc.binaryOperation hs.1 hs.2.1).bind fun r hr => gives_value hr
  · rename_i m operator operand
    have hs : Named [operand] := named_children hn
    exact (hc.prefixOperation (hs operand (by simp))).bind fun r hr => gives_value hr
  · rename_i m operand operator
    have hs : Named [operand] := named_children hn
    exact (hc.stepValue (hs operand (by simp))).bind fun r hr => gives_value hr
  iterate 4
    · exact carries_refuse _ _
  · exact no_value

theorem operators_effects_formed : Gives (operators.effects c n) fun r => AllStand (given r) := by
  have hu : n.unwrap.named = true := Node.named_unwrap.trans hn
  have step {operator : String} {operand : Node} (hs : Named [operand]) :
      Gives (do return some [stepBy operator (← assignTarget c operand)]) fun r =>
        AllStand (given r) := by
    refine (hc.assignTarget (hs operand (by simp))).bind fun r hr => gives_statements ?_
    exact allStand_cons.mpr ⟨stands_stepBy operator hr, allStand_nil⟩
  dsimp only [operators]
  split
  · rename_i m left operator right he
    rw [he] at hu
    have hs : Named [left, right] := named_children hu
    simp only [named_cons] at hs
    split
    · exact (hc.assignment hs.1 hs.2.1).bind fun r hr => gives_statements hr
    · exact no_statements
  · rename_i m operator operand he
    rw [he] at hu
    split
    · exact step (named_children hu)
    · exact no_statements
  · rename_i m operand operator he
    rw [he] at hu
    exact step (named_children hu)
  · exact no_statements

theorem access_formed : Gives (access.expression c n) fun r => ∀ v ∈ r, Valued v := by
  dsimp only [access]
  split
  · rename_i m callee args isOptional
    have hs : Named (callee :: args) := named_children hn
    obtain ⟨hcallee, hargs⟩ := named_cons.mp hs
    refine carries_guard ((hc.args hargs).bind fun as ha => ?_)
    exact (hc.expression callee hcallee).bind fun f hf => gives_value (valued_call.mpr ⟨hf, ha⟩)
  · rename_i m target name isOptional
    have hs : Named [target, .ident name] := named_children hn
    simp only [named_cons, Node.named_ident] at hs
    exact carries_guard ((hc.property hs.1 hs.2.1).bind fun r hr => gives_value hr)
  · rename_i m target key isOptional
    have hs : Named [target, key] := named_children hn
    simp only [named_cons] at hs
    refine carries_guard ((carries_checkElementAccess _ _).next fun _ => ?_)
    refine (hc.expression target hs.1).bind fun t ht => (hc.expression key hs.2.1).bind fun k hk => ?_
    exact gives_value (valued_index.mpr ⟨ht, hk⟩)
  · exact carries_refuse _ _
  · exact no_value

theorem functions_formed : Gives (functions.expression c n) fun r => ∀ v ∈ r, Valued v := by
  dsimp only [functions]
  split
  · rename_i m params body result typeParams isAsync
    have hs : Named (params ++ body :: result.toList ++ typeParams) := named_children hn
    simp only [named_append, named_cons] at hs
    exact (hc.function hs.1.1 hs.1.2.1).bind fun r hr => gives_value hr
  · rename_i m name params body result typeParams isAsync isGenerator
    have hs : Named (name.toList.map Node.ident ++ params ++ body :: result.toList ++ typeParams) :=
      named_children hn
    simp only [named_append, named_cons] at hs
    exact (hc.function hs.1.1.2 hs.1.2.1).bind fun r hr => gives_value hr
  · exact no_value

theorem control_formed : Gives (control.expression c n) fun r => ∀ v ∈ r, Valued v := by
  dsimp only [control]
  split
  · rename_i m test whenTrue whenFalse
    have hs : Named [test, whenTrue, whenFalse] := named_children hn
    simp only [named_cons] at hs
    refine (hc.condition hs.1).bind fun t ht => (hc.expression _ hs.2.1).bind fun v hv => ?_
    refine (hc.elseValues hs.2.2.1).bind ?_
    rintro ⟨branches, last⟩ ⟨hb, hl⟩
    refine gives_value (valued_cond ht hv.stands hb ?_)
    rintro _ ⟨⟩
    exact hl.stands
  · exact no_value

/-! ## Statements -/

theorem functions_statement_formed :
    Gives (functions.statement c n) fun r => AllStand (given r) := by
  dsimp only [functions]
  split
  · rename_i m modifiers name params body result typeParams isAsync isGenerator
    have hs : Named (modifiers.map Node.modifier ++ name.toList.map Node.ident ++ params ++ [body] ++
      result.toList ++ typeParams) := named_children hn
    simp only [named_append, named_cons, named_idents] at hs
    split
    · exact gives_statements allStand_nil
    split
    · exact carries_refuse _ _
    · rename_i i
      have hi := isPath_of_readable (hs.1.1.1.1.2 i rfl)
      refine (carries_checkName i).next fun _ => ?_
      refine (hc.function hs.1.1.1.2 hs.1.1.2.1).bind fun r hr => gives_statements ?_
      exact allStand_cons.mpr ⟨stands_define.mpr ⟨hi, hr⟩, allStand_nil⟩
  · exact gives_statements allStand_nil
  · exact no_statements

theorem declarations_statement_formed :
    Gives (declarations.statement c n) fun r => AllStand (given r) := by
  dsimp only [declarations]
  split
  · rename_i m modifiers list
    have hs : Named (modifiers.map Node.modifier ++ [list]) := named_children hn
    split
    · exact gives_statements allStand_nil
    · exact (hc.variableList (hs list (by simp))).bind fun r hr => gives_statements hr
  · exact no_statements

theorem control_statement_formed :
    Gives (control.statement c n) fun r => AllStand (given r) := by
  dsimp only [control]
  split
  · rename_i m test body otherwise
    have hs : Named (test :: body :: otherwise.toList) := named_children hn
    simp only [named_cons] at hs
    refine (hc.condition hs.1).bind fun t ht => (hc.branch hs.2.1).bind fun b hb => ?_
    refine (KeepsForm.elseBranches? hc otherwise hs.2.2).bind ?_
    rintro ⟨branches, last⟩ ⟨hbs, hl⟩
    exact gives_statements (allStand_cons.mpr ⟨(valued_cond ht hb hbs hl).stands, allStand_nil⟩)
  · exact (hc.forLoop (named_children hn)).bind fun r hr => gives_statements hr
  · rename_i m test body
    have hs : Named [test, body] := named_children hn
    simp only [named_cons] at hs
    exact (hc.whileLoop hs.1 hs.2.1).bind fun r hr => gives_statements hr
  · rename_i m body test
    have hs : Named [body, test] := named_children hn
    simp only [named_cons] at hs
    exact (hc.doLoop hs.1 hs.2.1).bind fun r hr => gives_statements hr
  · rename_i m target items body isAwait
    have hs : Named [target, items, body] := named_children hn
    simp only [named_cons] at hs
    refine carries_guard ?_
    exact (hc.forOfLoop hs.1 hs.2.1 hs.2.2.1).bind fun r hr => gives_statements hr
  · exact carries_refuse _ _
  · rename_i m subject clauses
    obtain ⟨hs, hk⟩ : _ ∧ Named clauses := named_cons.mp (named_children hn)
    exact (hc.switch hs hk).bind fun r hr => gives_statements hr
  · exact no_statements

theorem statements_statement_formed :
    Gives (statements.statement c n) fun r => AllStand (given r) := by
  dsimp only [statements]
  split
  · rename_i m e
    have he : Named [e] := named_children hn
    exact (hc.effects e (he e (by simp))).bind fun r hr => gives_statements hr
  · rename_i m inner
    have hs : Named inner := named_children hn
    refine (hc.statements hs).bind fun r hr => gives_statements ?_
    exact allStand_cons.mpr ⟨stands_block.mpr hr, allStand_nil⟩
  · exact gives_statements allStand_nil
  · exact gives_statements (by simp)
  · rename_i m e
    have he : Named [e] := named_children hn
    refine (hc.expression e (he e (by simp))).bind fun r hr => gives_statements ?_
    exact allStand_cons.mpr ⟨stands_ret.mpr hr, allStand_nil⟩
  iterate 3
    · exact carries_refuse _ _
  · exact gives_statements (by simp)
  · exact gives_statements (by simp)
  · exact no_statements

end

theorem types_statement_formed : Gives (types.statement c n) fun r => AllStand (given r) := by
  dsimp only [types]
  split
  · exact gives_statements allStand_nil
  · exact gives_statements allStand_nil
  split
  · exact gives_statements allStand_nil
  split
  · exact carries_refuse _ _
  · exact no_statements

/-! ## Imports and exports -/

theorem importNames_formed {module : ConvertM String} (hm : Gives module IsPath)
    {elements : List Node} (h : Named elements) : Gives (importNames module elements) AllStand := by
  fun_induction importNames module elements with
  | case1 => exact carries_pure allStand_nil
  | case2 m imported i isTypeOnly rest ih =>
    obtain ⟨he, hr⟩ := named_cons.mp h
    have hi : Named (imported.toList.map Node.ident ++ [.ident i]) := named_children he
    simp only [named_append, named_cons, Node.named_ident] at hi
    refine (carries_isTypeName i).next fun isType => ?_
    have after {first : List AiScript.Node} (hf : AllStand first) :
        Gives (do return first ++ (← importNames module rest)) AllStand :=
      (ih hr).bind fun more hmore => carries_pure (allStand_append.mpr ⟨hf, hmore⟩)
    dsimp only
    split
    · exact after allStand_nil
    · refine (carries_checkName i).next fun _ => hm.bind fun name hname => after ?_
      refine allStand_cons.mpr ⟨stands_define.mpr ⟨isPath_of_readable hi.2.1, ?_⟩, allStand_nil⟩
      exact valued_prop.mpr (valued_ident.mpr hname)
  | case3 n rest _ ih => exact ih (named_cons.mp h).2

theorem imports_statement_formed (hn : n.named = true) :
    Gives (imports.statement c n) fun r => AllStand (given r) := by
  dsimp only [imports]
  split
  · rename_i m _ name allAs elements _ specifier
    have hclause := (named_cons.mp (named_children hn)).1
    have hs : Named (name.toList.map Node.ident ++ allAs.toList.map Node.ident ++ elements.getD []) :=
      named_children hclause
    simp only [named_append, named_idents] at hs
    have hm : Gives (moduleName specifier m.span) IsPath :=
      carries_moduleName specifier m.span fun _ _ _ hI hname => hI.modules _ _ _ hname
    have hd : Gives (importDefault (moduleName specifier m.span) name) AllStand := by
      unfold importDefault
      split
      · exact carries_pure allStand_nil
      · rename_i i
        refine (carries_isTypeName i).next fun isType => ?_
        split
        · exact carries_pure allStand_nil
        · refine (carries_checkName i).next fun _ => hm.bind fun module hmodule => carries_pure ?_
          simp [hmodule, isPath_of_readable (hs.1.1 i rfl)]
    have ha : Gives (importAll (moduleName specifier m.span) allAs) AllStand := by
      unfold importAll
      split
      · exact carries_pure allStand_nil
      · rename_i i
        refine (carries_checkName i).next fun _ => hm.bind fun module hmodule => carries_pure ?_
        simp [hmodule, isPath_of_readable (hs.1.2 i rfl)]
    refine hd.bind fun first hf => ha.bind fun second hsecond => ?_
    refine (importNames_formed hm hs.2).bind fun more hmore => gives_statements ?_
    simp [hf, hsecond, hmore]
  · exact gives_statements allStand_nil
  · exact no_statements

/-- A local name that can be read may be exported. -/
theorem gives_addExport {name localName : String} (h : IsPath localName) :
    Gives (addExport name localName) fun _ => True :=
  carries_addExport fun _ _ hI =>
    { hI with keys := Assoc.nodup_set hI.keys, locals := Assoc.forall_mem_set hI.locals h }

theorem exportNames_formed {elements : List Node} (h : Named elements) :
    Gives (exportNames elements) fun _ => True := by
  induction elements with
  | nil => exact carries_pure trivial
  | cons element rest ih =>
    obtain ⟨he, hr⟩ := named_cons.mp h
    by_cases hx : ∃ m localName name, element = .exportSpecifier m localName name
    · obtain ⟨m, localName, name, rfl⟩ := hx
      have hi : Named (localName.toList.map Node.ident ++ [.ident name]) := named_children he
      simp only [named_append, named_cons, named_idents, Node.named_ident] at hi
      have hinner : isReadable (localName.getD name).name = true := by
        cases localName with
        | none => exact hi.2.1
        | some i => exact hi.1 i rfl
      refine (carries_isTypeName _).next fun isType => ?_
      split
      · exact (gives_addExport (isPath_of_readable hinner)).next fun _ => ih hr
      · exact ih hr
    · rw [exportNames.eq_3 _ _ fun m localName name he => hx ⟨m, localName, name, he⟩]
      exact ih hr

include hc hn in
theorem exportDefault_formed : Gives (exportDefault c n) AllStand := by
  unfold exportDefault
  dsimp only
  split
  · rename_i i hi
    have hname : isReadable i.name = true := by
      split at hi
      · split at hi
        · cases hi
        · cases hi
          exact Node.named_ident ▸ hn
      · cases hi
    refine (carries_isTypeName i).next fun isType => ?_
    split
    · exact (gives_addExport (isPath_of_readable hname)).next fun _ => carries_pure allStand_nil
    · exact carries_pure allStand_nil
  · refine gives_freshName.bind fun temp htemp => (gives_addExport htemp).next fun _ => ?_
    refine (hc.expression n hn).bind fun r hr => carries_pure ?_
    exact allStand_cons.mpr ⟨stands_define.mpr ⟨htemp, hr⟩, allStand_nil⟩

theorem named_variableNames {list : Node} (h : list.named = true) :
    ∀ i ∈ variableNames list, isReadable i.name = true := by
  cases list with
  | variableList m keyword declarations =>
    intro i hi
    obtain ⟨declaration, hd, hi⟩ := List.mem_flatMap.mp hi
    have hd : declaration.named = true := named_children h _ hd
    split at hi
    · exact Node.named_bindingIdentifiers _ (named_children hd _ (by simp [Node.children])) i hi
    · cases hi
  | _ => exact List.forall_mem_nil _

theorem exportVariables_formed {list : Node} (h : list.named = true) :
    Gives (exportVariables list) fun _ => True := by
  have hnames := named_variableNames h
  rw [exportVariables_eq]
  generalize variableNames list = names at hnames
  induction names with
  | nil => exact carries_pure trivial
  | cons i names ih =>
    obtain ⟨hi, hnames⟩ := List.forall_mem_cons.mp hnames
    exact (gives_addExport (isPath_of_readable hi)).next fun _ => ih hnames

include hc hn in
theorem exportDeclared_formed : Gives (exportDeclared c n) AllStand := by
  have inner : Gives (c.statement (withoutExport n)) AllStand :=
    hc.statement _ (Node.named_setModifiers _ hn)
  unfold exportDeclared
  dsimp only
  split
  · exact carries_pure allStand_nil
  split
  · exact carries_pure allStand_nil
  · exact carries_pure allStand_nil
  · exact carries_pure allStand_nil
  · rename_i m modifiers params body result typeParams isAsync isGenerator _
    have hs : Named (modifiers.map Node.modifier ++ [] ++ params ++ [body] ++ result.toList ++
      typeParams) := named_children hn
    simp only [named_append, named_cons] at hs
    refine gives_freshName.bind fun temp htemp => (gives_addExport htemp).next fun _ => ?_
    refine (hc.function hs.1.1.1.2 hs.1.1.2.1).bind fun r hr => carries_pure ?_
    exact allStand_cons.mpr ⟨stands_define.mpr ⟨htemp, hr⟩, allStand_nil⟩
  · rename_i m modifiers i params body result typeParams isAsync isGenerator _
    have hs : Named (modifiers.map Node.modifier ++ [.ident i] ++ params ++ [body] ++
      result.toList ++ typeParams) := named_children hn
    simp only [named_append, named_cons, Node.named_ident] at hs
    exact (gives_addExport (isPath_of_readable hs.1.1.1.1.2.1)).next fun _ => inner
  · rename_i m modifiers list _
    have hs : Named (modifiers.map Node.modifier ++ [list]) := named_children hn
    exact (exportVariables_formed (hs list (by simp))).next fun _ => inner
  · exact inner

include hc hn in
theorem exports_statement_formed : Gives (exports.statement c n) fun r => AllStand (given r) := by
  dsimp only [exports]
  split
  · rename_i m elements isTypeOnly
    have hs : Named (elements ++ []) := named_children hn
    split
    · refine (exportNames_formed (named_append.mp hs).1).next fun _ => ?_
      exact gives_statements allStand_nil
    · exact gives_statements allStand_nil
  · exact carries_refuse _ _
  · rename_i m e
    have he : Named [e] := named_children hn
    refine (exportDefault_formed hc (he e (by simp))).bind fun r hr => gives_statements hr
  · exact carries_refuse _ _
  · split
    · exact (exportDeclared_formed hc hn).bind fun r hr => gives_statements hr
    · exact no_statements

/-! ## All capabilities -/

include hc in
theorem defaultCapabilities_keepsForm : ∀ cap ∈ defaultCapabilities, cap.KeepsForm c := by
  intro cap hcap
  have noValue {n : Node} (_ : n.named = true) :
      Gives (pure none) fun r : Option AiScript.Node => ∀ v ∈ r, Valued v := no_value
  have noStatements {n : Node} (_ : n.named = true) :
      Gives (pure none) fun r : Option (List AiScript.Node) => AllStand (given r) := no_statements
  simp only [defaultCapabilities, List.mem_cons, List.not_mem_nil, or_false] at hcap
  rcases hcap with rfl | rfl | rfl | rfl | rfl | rfl | rfl | rfl | rfl | rfl | rfl
  · exact ⟨noValue, noStatements, imports_statement_formed⟩
  · exact ⟨noValue, noStatements, exports_statement_formed hc⟩
  · exact ⟨types_formed hc, noStatements, fun _ => types_statement_formed⟩
  · exact ⟨literals_formed hc, noStatements, noStatements⟩
  · exact ⟨identifiers_formed hc, identifiers_effects_formed hc, noStatements⟩
  · exact ⟨operators_formed hc, operators_effects_formed hc, noStatements⟩
  · exact ⟨access_formed hc, noStatements, noStatements⟩
  · exact ⟨functions_formed hc, noStatements, functions_statement_formed hc⟩
  · exact ⟨noValue, noStatements, declarations_statement_formed hc⟩
  · exact ⟨control_formed hc, noStatements, control_statement_formed hc⟩
  · exact ⟨noValue, noStatements, statements_statement_formed hc⟩

end

/-- The first of several capabilities that keep the right form keeps it. -/
theorem keepsForm_first {c : Converter} {caps : List Capability}
    (h : ∀ cap ∈ caps, cap.KeepsForm c) :
    KeepsForm
      { expression := fun n => firstExpression c n caps
        effects := fun n => firstEffects c n caps
        statement := fun n => firstStatement c n caps } where
  expression := by
    intro n hn
    dsimp only
    induction caps with
    | nil => exact carries_refuse _ _
    | cons cap caps ih =>
      refine ((h cap (by simp)).expression hn).bind fun r hr => ?_
      cases r with
      | none => exact ih fun cap hcap => h cap (List.mem_cons_of_mem _ hcap)
      | some r => exact carries_pure (valued_stamp.mpr (hr r rfl))
  effects := by
    intro n hn
    dsimp only
    induction caps with
    | nil => exact carries_refuse _ _
    | cons cap caps ih =>
      refine ((h cap (by simp)).effects hn).bind fun r hr => ?_
      cases r with
      | none =>
        refine ((h cap (by simp)).expression hn).bind fun r hr => ?_
        cases r with
        | none => exact ih fun cap hcap => h cap (List.mem_cons_of_mem _ hcap)
        | some r =>
          refine carries_pure (allStand_cons.mpr ⟨?_, allStand_nil⟩)
          exact (valued_stamp.mpr (hr r rfl)).stands
      | some r => exact carries_pure (allStand_stamp.mpr hr)
  statement := by
    intro n hn
    dsimp only
    induction caps with
    | nil => exact carries_refuse _ _
    | cons cap caps ih =>
      refine ((h cap (by simp)).statement hn).bind fun r hr => ?_
      cases r with
      | none => exact ih fun cap hcap => h cap (List.mem_cons_of_mem _ hcap)
      | some r => exact carries_pure (allStand_stamp.mpr hr)

/-- Conversion keeps the right form at every depth. -/
theorem keepsForm_converter (k : Nat) : KeepsForm (converter defaultCapabilities k) := by
  induction k with
  | zero => exact ⟨fun _ _ => carries_throw _, fun _ _ => carries_throw _, fun _ _ => carries_throw _⟩
  | succ k ih => exact keepsForm_first (defaultCapabilities_keepsForm ih)

/-- The statements of a module have the right form, and so has its export table. -/
theorem module_formed {source : List Node} (h : Named source) :
    Gives (Module.convert defaultCapabilities source) fun m => AllStand (m.statements ++ m.table) := by
  intro c s m s' hI he
  obtain ⟨ns, s₁, hns, he⟩ := bind_ok he
  obtain ⟨hstatements, hexports⟩ := (keepsForm_converter _).statements h c s ns s₁ hI hns
  cases he
  refine ⟨allStand_append.mpr ⟨hstatements, ?_⟩, hexports⟩
  dsimp only [Module.table]
  split
  · exact allStand_nil
  · exact allStand_cons.mpr ⟨(valued_exportTable hexports.keys hexports.locals).stands, allStand_nil⟩

end ScriptBridge.Conversion

namespace ScriptBridge

open AiScript Conversion TypeScript

variable {fileName text code : String} {place : Place} {s s' : Session} {file : SourceFile}
  {nextId : Nat} {nodes : List AiScript.Node}

/-- The conversion of a text whose names can be read has the right form everywhere. -/
theorem convertSource_formed
    (hp : parseFrom s.program.nextId fileName text = .ok (file, nextId))
    (hnamed : Node.Named file.statements)
    (h : convertSource defaultCapabilities fileName text place s = .ok nodes s') :
    EverywhereAll Formed ⟨.statement, false⟩ nodes := by
  unfold convertSource convertText at h
  obtain ⟨m, s₁, hm, h⟩ := bind_ok h
  obtain ⟨id, s₂, hid, hm⟩ := bind_ok hm
  obtain ⟨after, hc, -⟩ := convertFile_ok hm
  have hsource := parseText_source (loading_ok hid)
  obtain ⟨rfl, -⟩ : file = _ ∧ _ := Prod.mk.inj (Except.ok.inj (hp.symm.trans hsource))
  cases h
  refine everywhereAll_iff.mpr (module_formed hnamed _ _ _ _ ?_ hc).1
  exact ⟨nofun, List.nodup_nil, List.forall_mem_nil _⟩

/-- The conversion of a text whose names can be read is read back as it was if it can be printed and
its parts stand apart. -/
theorem convertSource_readsBack
    (hp : parseFrom s.program.nextId fileName text = .ok (file, nextId))
    (hnamed : Node.Named file.statements)
    (h : convertSource defaultCapabilities fileName text place s = .ok nodes s')
    (hprint : print nodes = .ok code) (hapart : EverywhereAll Apart ⟨.statement, false⟩ nodes) :
    ∃ again, AiScript.parse code = .ok again ∧ sameAll again nodes = true := by
  have hformed := convertSource_formed hp hnamed h
  have hprintable : Printable nodes :=
    everywhereAll_and (finite_of_print hprint) (everywhereAll_and hformed hapart)
  exact parse_of_print hprintable hprint

/-- A product of a sum, which needs its parentheses. -/
def scaledSum : String :=
  "function f(x) \x7b return [x, -1]; \x7d let y = (f(1) + 2) * -3;"

theorem convertSource_readsBack_scaledSum :
    ∃ nodes s' file nextId code again,
      parseFrom 0 "main.ts" scaledSum = .ok (file, nextId) ∧ Node.Named file.statements ∧
      convertSource defaultCapabilities "main.ts" scaledSum default default = .ok nodes s' ∧
      print nodes = .ok code ∧ EverywhereAll Apart ⟨.statement, false⟩ nodes ∧
      AiScript.parse code = .ok again ∧ sameAll again nodes = true := by
  have hc : endsWith (convertSource defaultCapabilities "main.ts" scaledSum default default)
      (fun nodes _ => succeedsWith (print nodes) (fun _ => true) &&
        decide (EverywhereAll Apart ⟨.statement, false⟩ nodes)) = true := by
    decide +kernel
  have hnamed : succeedsWith (parseFrom 0 "main.ts" scaledSum)
      (fun r => r.1.statements.all Node.named) = true := by
    decide +kernel
  obtain ⟨nodes, s', hn, htests⟩ := endsWith_iff.mp hc
  rw [Bool.and_eq_true] at htests
  obtain ⟨code, hprint, -⟩ := succeedsWith_iff.mp htests.1
  have hapart := of_decide_eq_true htests.2
  obtain ⟨⟨file, nextId⟩, hp, hnamed⟩ := succeedsWith_iff.mp hnamed
  have hnamed := List.all_eq_true.mp hnamed
  obtain ⟨again, hparse, hsame⟩ := convertSource_readsBack hp hnamed hn hprint hapart
  exact ⟨nodes, s', file, nextId, code, again, hp, hnamed, hn, hprint, hapart, hparse, hsame⟩

end ScriptBridge
