import ScriptBridge.Proofs.Conversion.KeepsAlike

/-!
# Capabilities that convert alike

Each capability converts a node alike through converters that convert alike what costs less than the
node. The cost of a node grows with its depth and with an export mark, so it is what a conversion may
step down on: to the parts of a node, and to an exported declaration without its mark.

* `TypeScript.Node.cost`: what a step of a conversion makes less of.
* `Setting.under`, `Setting.below`: the settings of what costs less than a bound or a node.
* `Setting.KeepsAt`: a capability that converts one node alike, with one lemma for each capability.
-/

namespace ScriptBridge.TypeScript.Node

open Conversion

/-! ## Cost -/

/-- How many steps a conversion of a node goes inward: two for each level, as a declaration on a level
is converted once more without its export mark. -/
def cost (n : Node) : Nat :=
  2 * n.height + if hasModifier n.modifiers "export" then 1 else 0

theorem cost_lt_of_mem_children {n m : Node} (h : m ∈ n.children) : m.cost < n.cost := by
  have := height_lt_of_mem_children h
  unfold cost
  split <;> omega

/-- Fewer steps than there are levels for the conversion of a list. -/
theorem cost_lt_levels {n : Node} {source : List Node} (h : n ∈ source) :
    n.cost < levels source := by
  have := (le_foldl_max (source.map height) 0).2 _ (List.mem_map_of_mem h)
  unfold cost levels
  split <;> omega

theorem mem_children_of_withoutExport {n m : Node} (h : m ∈ (withoutExport n).children) :
    m ∈ n.children := by
  have hmods : ∀ {ms : List Modifier} {p : Modifier → Bool},
      m ∈ (ms.filter p).map modifier → m ∈ ms.map modifier := by
    intro ms p h
    obtain ⟨k, hk, rfl⟩ := List.mem_map.mp h
    exact List.mem_map_of_mem (List.mem_filter.mp hk).1
  unfold withoutExport at h
  cases n with
  | variableStatement | functionDeclaration | classDeclaration | enumDeclaration
  | interfaceDeclaration | typeAlias | moduleDeclaration =>
    simp only [setModifiers, modifiers, children, List.mem_append, List.mem_cons] at h ⊢
    revert h
    have := @hmods
    grind
  | _ => exact h

theorem hasModifier_withoutExport (n : Node) :
    hasModifier (withoutExport n).modifiers "export" = false := by
  have hmods : ∀ ms : List Modifier, hasModifier
      (ms.filter fun m => m.word != "export" && m.word != "default") "export" = false := by
    intro ms
    rw [hasModifier, List.any_eq_false]
    intro m hm
    have := (List.mem_filter.mp hm).2
    grind
  cases n <;> first | exact hmods _ | rfl

theorem cost_withoutExport_le (n : Node) : (withoutExport n).cost ≤ n.cost := by
  have := height_le_of_children fun _ => mem_children_of_withoutExport (n := n)
  unfold cost
  rw [hasModifier_withoutExport]
  simp only [Bool.false_eq_true, if_false]
  omega

theorem cost_withoutExport_lt {n : Node} (h : hasModifier n.modifiers "export" = true) :
    (withoutExport n).cost < n.cost := by
  have := height_le_of_children fun _ => mem_children_of_withoutExport (n := n)
  unfold cost
  rw [hasModifier_withoutExport, h]
  simp only [Bool.false_eq_true, if_false, if_true]
  omega

theorem cost_unwrap_le (n : Node) : n.unwrap.cost ≤ n.cost := by
  fun_induction unwrap n with
  | case1 m e ih =>
    have : e.cost < (parenthesized m e).cost := cost_lt_of_mem_children (by simp [children])
    omega
  | case2 => exact Nat.le_refl _

end ScriptBridge.TypeScript.Node

namespace ScriptBridge.Conversion

open TypeScript Binding
open AiScript (Like LikeAll LikeOption)

/-- The names that a list of variables declares. -/
def variableNames : Node → List Ident
  | .variableList _ _ declarations =>
    declarations.flatMap fun
      | .variableDeclaration _ target _ _ => bindingIdentifiers target
      | _ => []
  | _ => []

theorem exportVariables_eq (list : Node) :
    exportVariables list = (variableNames list).forM fun i => addExport i.name i.name := by
  cases list <;> rfl

namespace Setting

variable {w : Setting} {n : Node} {c d : Converter}

/-- The setting of what costs less than a bound. -/
def under (w : Setting) (k : Nat) : Setting :=
  { w with
    fits := fun n => w.fits n ∧ n.cost < k
    fits_children := fun h m hm =>
      ⟨w.fits_children h.1 m hm, Nat.lt_trans (Node.cost_lt_of_mem_children hm) h.2⟩
    fits_withoutExport := fun h =>
      ⟨w.fits_withoutExport h.1, Nat.lt_of_le_of_lt (Node.cost_withoutExport_le _) h.2⟩
    known_ident := fun h => w.known_ident h.1
    known_module := fun h => w.known_module h.1
    steady_export := fun name _ h => w.steady_export name h.1 }

/-- The setting of what costs less than a node. -/
abbrev below (w : Setting) (n : Node) : Setting :=
  w.under n.cost

theorem allFit_below (h : w.fits n) : (w.below n).AllFit n.children :=
  fun m hm => ⟨w.fits_children h m hm, Node.cost_lt_of_mem_children hm⟩

/-- Results of a capability that are alike or both missing. -/
abbrev LikeResult (w : Setting) : Option (List AiScript.Node) → Option (List AiScript.Node) → Prop :=
  Option.Rel (LikeAll w.known)

/-- A capability that converts a node alike through two converters. -/
structure KeepsAt (w : Setting) (n : Node) (cap : Capability) (c d : Converter) : Prop where
  expression : w.Alike (LikeOption w.known) (cap.expression c n) (cap.expression d n)
  effects : w.Alike w.LikeResult (cap.effects c n) (cap.effects d n)
  statement : w.Alike w.LikeResult (cap.statement c n) (cap.statement d n)

section
variable (hc : (w.below n).Keeps c d) (hn : w.fits n)
include hc hn

/-! ## Expressions -/

theorem types_alike :
    w.Alike (LikeOption w.known) (types.expression c n) (types.expression d n) := by
  have hs := allFit_below hn
  dsimp only [types]
  split
  iterate 3
    · exact (hc.expression (hs _ (by simp [Node.children]))).bind fun r r' hr => alike_pure (.some hr)
  · exact alike_pure .none

theorem literals_alike :
    w.Alike (LikeOption w.known) (literals.expression c n) (literals.expression d n) := by
  have hs := allFit_below hn
  dsimp only [literals]
  split
  · exact (orNumeralFault_alike _).next fun x => alike_pure (.some .num)
  · exact alike_pure (.some .str)
  · exact alike_pure (.some .bool)
  · exact alike_refuse _ _
  · exact alike_pure (.some (.tmpl (AiScript.likeAll_singleton .str)))
  · refine (hc.parts hs).bind fun r r' hr => alike_pure (.some (.tmpl ?_))
    exact (AiScript.likeAll_templateText _).append hr
  · exact (hc.items hs).bind fun r r' hr => alike_pure (.some (.arr hr))
  · exact (hc.entries .nil hs).bind fun r r' hr => alike_pure (.some (.obj hr))
  · exact alike_pure .none

theorem identifiers_alike :
    w.Alike (LikeOption w.known) (identifiers.expression c n) (identifiers.expression d n) := by
  have hs := allFit_below hn
  dsimp only [identifiers]
  split
  · split
    · exact alike_pure (.some .null)
    · exact alike_pure (.some (.ident (w.known_ident hn)))
  · exact (hc.expression (hs _ (by simp [Node.children]))).bind fun r r' hr => alike_pure (.some hr)
  · exact alike_pure .none

theorem identifiers_effects_alike :
    w.Alike w.LikeResult (identifiers.effects c n) (identifiers.effects d n) := by
  have hs := allFit_below hn
  dsimp only [identifiers]
  split
  · exact (hc.effects (hs _ (by simp [Node.children]))).bind fun r r' hr => alike_pure (.some hr)
  · exact alike_pure .none

theorem operators_alike :
    w.Alike (LikeOption w.known) (operators.expression c n) (operators.expression d n) := by
  have hs := allFit_below hn
  dsimp only [operators]
  split
  · have hs : (w.below _).AllFit [_, _] := hs
    simp only [allFit_cons] at hs
    exact (hc.binaryOperation hs.1 hs.2.1).bind fun r r' hr => alike_pure (.some hr)
  · exact (hc.prefixOperation (hs _ (by simp [Node.children]))).bind fun r r' hr =>
      alike_pure (.some hr)
  · exact (hc.stepValue (hs _ (by simp [Node.children]))).bind fun r r' hr => alike_pure (.some hr)
  iterate 4
    · exact alike_refuse _ _
  · exact alike_pure .none

theorem operators_effects_alike :
    w.Alike w.LikeResult (operators.effects c n) (operators.effects d n) := by
  have hs : (w.below n).AllFit n.unwrap.children := fun m hm =>
    ⟨w.fits_children (fits_unwrap hn) m hm,
      Nat.lt_of_lt_of_le (Node.cost_lt_of_mem_children hm) (Node.cost_unwrap_le n)⟩
  dsimp only [operators]
  split
  · rename_i he
    rw [he] at hs
    simp only [Node.children, allFit_cons] at hs
    split
    · exact (hc.assignment hs.1 hs.2.1).bind fun r r' hr => alike_pure (.some hr)
    · exact alike_pure .none
  · rename_i he
    rw [he] at hs
    simp only [Node.children, allFit_cons] at hs
    split
    · refine (hc.assignTarget hs.1).bind fun r r' hr => alike_pure (.some ?_)
      exact AiScript.likeAll_singleton (.update hr .num)
    · exact alike_pure .none
  · rename_i he
    rw [he] at hs
    simp only [Node.children, allFit_cons] at hs
    refine (hc.assignTarget hs.1).bind fun r r' hr => alike_pure (.some ?_)
    exact AiScript.likeAll_singleton (.update hr .num)
  · exact alike_pure .none

theorem access_alike :
    w.Alike (LikeOption w.known) (access.expression c n) (access.expression d n) := by
  have hs := allFit_below hn
  dsimp only [access]
  split
  · simp only [Node.children, allFit_cons] at hs
    refine alike_guard ((hc.args hs.2).bind fun as as' has => ?_)
    exact (hc.expression hs.1).bind fun r r' hr => alike_pure (.some (.call hr has))
  · simp only [Node.children, allFit_cons] at hs
    exact alike_guard ((hc.property hs.1 _).bind fun r r' hr => alike_pure (.some hr))
  · simp only [Node.children, allFit_cons] at hs
    refine alike_guard ((checkElementAccess_alike _ _).next fun _ => ?_)
    refine (hc.expression hs.1).bind fun t t' ht => (hc.expression hs.2.1).bind fun k k' hk => ?_
    exact alike_pure (.some (.index ht hk))
  · exact alike_refuse _ _
  · exact alike_pure .none

theorem functions_alike :
    w.Alike (LikeOption w.known) (functions.expression c n) (functions.expression d n) := by
  have hs := allFit_below hn
  dsimp only [functions]
  split
  · simp only [Node.children, allFit_cons, allFit_append] at hs
    exact (hc.function hs.1.1 hs.1.2.1).bind fun r r' hr => alike_pure (.some hr)
  · simp only [Node.children, allFit_cons, allFit_append] at hs
    exact (hc.function hs.1.1.2 hs.1.2.1).bind fun r r' hr => alike_pure (.some hr)
  · exact alike_pure .none

theorem control_alike :
    w.Alike (LikeOption w.known) (control.expression c n) (control.expression d n) := by
  have hs := allFit_below hn
  dsimp only [control]
  split
  · simp only [Node.children, allFit_cons] at hs
    refine (hc.condition hs.1).bind fun t t' ht => (hc.expression hs.2.1).bind fun v v' hv => ?_
    refine (Keeps.elseValues hc _ hs.2.2.1).bind ?_
    rintro ⟨branches, last⟩ ⟨branches', last'⟩ ⟨hbs, hl⟩
    exact alike_pure (.some (.cond ht hv hbs (.some hl)))
  · exact alike_pure .none

/-! ## Statements -/

omit hc hn in
theorem types_statement_alike :
    w.Alike w.LikeResult (types.statement c n) (types.statement d n) := by
  dsimp only [types]
  split
  · exact alike_pure (.some .nil)
  · exact alike_pure (.some .nil)
  split
  · exact alike_pure (.some .nil)
  split
  · exact alike_refuse _ _
  · exact alike_pure .none

theorem functions_statement_alike :
    w.Alike w.LikeResult (functions.statement c n) (functions.statement d n) := by
  have hs := allFit_below hn
  dsimp only [functions]
  split
  · simp only [Node.children, Option.toList_some, allFit_cons, allFit_append] at hs
    split
    · exact alike_pure (.some .nil)
    split
    · exact alike_refuse _ _
    · refine (checkName_alike _).next fun _ => ?_
      refine (hc.function hs.1.1.1.2 hs.1.1.2.1).bind fun r r' hr => alike_pure (.some ?_)
      exact AiScript.likeAll_singleton (.define hr)
  · exact alike_pure (.some .nil)
  · exact alike_pure .none

theorem declarations_statement_alike :
    w.Alike w.LikeResult (declarations.statement c n) (declarations.statement d n) := by
  have hs := allFit_below hn
  dsimp only [declarations]
  split
  · simp only [Node.children, allFit_cons, allFit_append] at hs
    split
    · exact alike_pure (.some .nil)
    · exact (hc.variableList hs.2.1).bind fun r r' hr => alike_pure (.some hr)
  · exact alike_pure .none

theorem control_statement_alike :
    w.Alike w.LikeResult (control.statement c n) (control.statement d n) := by
  have hs := allFit_below hn
  dsimp only [control]
  split
  · simp only [Node.children, allFit_cons] at hs
    refine (hc.condition hs.1).bind fun t t' ht => (hc.branch hs.2.1).bind fun b b' hb => ?_
    refine (Keeps.elseBranches? hc _ hs.2.2).bind ?_
    rintro ⟨branches, last⟩ ⟨branches', last'⟩ ⟨hbs, hl⟩
    exact alike_pure (.some (AiScript.likeAll_singleton (.cond ht hb hbs hl)))
  · exact (hc.forLoop hs).bind fun r r' hr => alike_pure (.some hr)
  · simp only [Node.children, allFit_cons] at hs
    exact (hc.whileLoop hs.1 hs.2.1).bind fun r r' hr => alike_pure (.some hr)
  · simp only [Node.children, allFit_cons] at hs
    exact (hc.doLoop hs.1 hs.2.1).bind fun r r' hr => alike_pure (.some hr)
  · simp only [Node.children, allFit_cons] at hs
    exact alike_guard ((hc.forOfLoop hs.2.1 hs.2.2.1).bind fun r r' hr => alike_pure (.some hr))
  · exact alike_refuse _ _
  · simp only [Node.children, allFit_cons] at hs
    exact (hc.switch hs.1 hs.2).bind fun r r' hr => alike_pure (.some hr)
  · exact alike_pure .none

theorem statements_statement_alike :
    w.Alike w.LikeResult (statements.statement c n) (statements.statement d n) := by
  have hs := allFit_below hn
  dsimp only [statements]
  split
  · exact (hc.effects (hs _ (by simp [Node.children]))).bind fun r r' hr => alike_pure (.some hr)
  · refine (hc.statements hs).bind fun r r' hr => alike_pure (.some ?_)
    exact AiScript.likeAll_singleton (.block hr)
  · exact alike_pure (.some .nil)
  · exact alike_pure (.some (AiScript.likeAll_singleton (.ret .null)))
  · refine (hc.expression (hs _ (by simp [Node.children]))).bind fun r r' hr => alike_pure (.some ?_)
    exact AiScript.likeAll_singleton (.ret hr)
  iterate 3
    · exact alike_refuse _ _
  · exact alike_pure (.some (AiScript.likeAll_singleton .exit))
  · exact alike_pure (.some (AiScript.likeAll_singleton .next))
  · exact alike_pure .none

end

/-! ## Imports and exports -/

section
variable {module : ConvertM String} (hm : w.Alike w.SameName module module)
include hm

theorem importDefault_alike (i : Option Ident) :
    w.Alike (LikeAll w.known) (importDefault module i) (importDefault module i) := by
  cases i with
  | none => exact alike_pure .nil
  | some i =>
    refine (isTypeName_alike i).next fun isType => ?_
    split
    · exact alike_pure .nil
    · refine (checkName_alike i).next fun _ => hm.bind ?_
      rintro name _ ⟨rfl, hk⟩
      exact alike_pure (AiScript.likeAll_singleton (.define (.prop (.ident hk))))

theorem importAll_alike (i : Option Ident) :
    w.Alike (LikeAll w.known) (importAll module i) (importAll module i) := by
  cases i with
  | none => exact alike_pure .nil
  | some i =>
    refine (checkName_alike i).next fun _ => hm.bind ?_
    rintro name _ ⟨rfl, hk⟩
    exact alike_pure (AiScript.likeAll_singleton (.define (.ident hk)))

theorem importNames_alike (elements : List Node) :
    w.Alike (LikeAll w.known) (importNames module elements) (importNames module elements) := by
  induction elements with
  | nil => exact alike_pure .nil
  | cons n rest ih =>
    have last {first : List AiScript.Node} (h : LikeAll w.known first first) :
        w.Alike (LikeAll w.known) (do return first ++ (← importNames module rest))
          (do return first ++ (← importNames module rest)) :=
      ih.bind fun _ _ hr => alike_pure (h.append hr)
    by_cases hn : ∃ m imported i isTypeOnly, n = .importSpecifier m imported i isTypeOnly
    · obtain ⟨m, imported, i, isTypeOnly, rfl⟩ := hn
      refine (isTypeName_alike i).next fun isType => ?_
      dsimp only
      split
      · exact last .nil
      · refine (checkName_alike i).next fun _ => hm.bind ?_
        rintro name _ ⟨rfl, hk⟩
        exact last (AiScript.likeAll_singleton (.define (.prop (.ident hk))))
    · rw [importNames.eq_3 _ _ _ fun m imported i t he => hn ⟨m, imported, i, t, he⟩]
      exact ih

end

theorem imports_statement_alike (hn : w.fits n) :
    w.Alike w.LikeResult (imports.statement c n) (imports.statement d n) := by
  dsimp only [imports]
  split
  · have hm := moduleName_alike hn
    refine (importDefault_alike hm _).bind fun _ _ h₁ => (importAll_alike hm _).bind fun _ _ h₂ => ?_
    refine (importNames_alike hm _).bind fun _ _ h₃ => alike_pure (.some ?_)
    exact (h₁.append h₂).append h₃
  · exact alike_pure (.some .nil)
  · exact alike_pure .none

/-- The names of an export list are entered. -/
theorem exportNames_alike (hn : w.fits n) (he : isExport n = true) {elements : List Node}
    (hs : w.AllFit elements) : w.Alike Eq (exportNames elements) (exportNames elements) := by
  induction elements with
  | nil => exact alike_pure rfl
  | cons element rest ih =>
    obtain ⟨hspec, hr⟩ := allFit_cons.mp hs
    by_cases hx : ∃ m localName name, element = .exportSpecifier m localName name
    · obtain ⟨m, localName, name, rfl⟩ := hx
      have hk : w.known (localName.getD name).name := by
        have hparts : w.AllFit (localName.toList.map Node.ident ++ [.ident name]) :=
          allFit_children hspec
        refine w.known_ident (hparts _ ?_)
        cases localName <;> simp
      refine (isTypeName_alike _).next fun isType => ?_
      split
      · exact (addExport_alike hn he hk).next fun _ => ih hr
      · exact ih hr
    · rw [exportNames.eq_3 _ _ fun m localName name he => hx ⟨m, localName, name, he⟩]
      exact ih hr

mutual
theorem known_bindingIdentifiers (pattern : Node) (h : w.fits pattern) :
    ∀ i ∈ bindingIdentifiers pattern, w.known i.name := by
  cases pattern with
  | ident i => exact List.forall_mem_singleton.mpr (w.known_ident h)
  | objectPattern m elements | arrayPattern m elements =>
    exact known_elementIdentifiers elements (allFit_children h)
  | _ => exact List.forall_mem_nil _
termination_by sizeOf pattern
decreasing_by all_goals (subst_vars; decreasing_tactic)

theorem known_elementIdentifiers (elements : List Node) (h : w.AllFit elements) :
    ∀ i ∈ elementIdentifiers elements, w.known i.name := by
  cases elements with
  | nil => exact List.forall_mem_nil _
  | cons n rest =>
    obtain ⟨he, hr⟩ := allFit_cons.mp h
    by_cases hn : ∃ m key target fallback isRest, n = .bindingElement m key target fallback isRest
    · obtain ⟨m, key, target, fallback, isRest, rfl⟩ := hn
      have hs : w.AllFit (key.toList ++ target :: fallback.toList) := allFit_children he
      simp only [allFit_append, allFit_cons] at hs
      exact List.forall_mem_append.mpr
        ⟨known_bindingIdentifiers target hs.2.1, known_elementIdentifiers rest hr⟩
    · rw [elementIdentifiers.eq_3 _ _ fun m key target fallback isRest he =>
        hn ⟨m, key, target, fallback, isRest, he⟩]
      exact known_elementIdentifiers rest hr
termination_by sizeOf elements
decreasing_by all_goals (subst_vars; decreasing_tactic)
end

theorem known_variableNames {list : Node} (h : w.fits list) :
    ∀ i ∈ variableNames list, w.known i.name := by
  cases list with
  | variableList m keyword declarations =>
    intro i hi
    obtain ⟨declaration, hd, hi⟩ := List.mem_flatMap.mp hi
    have hd : w.fits declaration := allFit_children h _ hd
    split at hi
    · exact known_bindingIdentifiers _ (allFit_children hd _ (by simp [Node.children])) i hi
    · cases hi
  | _ => exact List.forall_mem_nil _

/-- The names of declared variables are entered. -/
theorem exportVariables_alike {list : Node} (hn : w.fits n) (he : isExport n = true)
    (hs : w.fits list) : w.Alike Eq (exportVariables list) (exportVariables list) := by
  have hnames := known_variableNames hs
  rw [exportVariables_eq]
  generalize variableNames list = names at hnames
  induction names with
  | nil => exact alike_pure rfl
  | cons i names ih =>
    obtain ⟨hi, hnames⟩ := List.forall_mem_cons.mp hnames
    exact (addExport_alike hn he hi).next fun _ => ih hnames

section
variable (hc : (w.below n).Keeps c d) (hn : w.fits n)
include hc hn

theorem exportDefault_alike {e : Node} (he : isExport n = true) (hs : (w.below n).fits e) :
    w.Alike (LikeAll w.known) (exportDefault c e) (exportDefault d e) := by
  have byName (i : Ident) (hi : w.known i.name) : w.Alike (LikeAll w.known)
      (do if !(← isTypeName i) then addExport "default" i.name
          return ([] : List AiScript.Node))
      (do if !(← isTypeName i) then addExport "default" i.name
          return ([] : List AiScript.Node)) := by
    refine (isTypeName_alike i).next fun isType => ?_
    split
    · exact (addExport_alike hn he hi).next fun _ => alike_pure .nil
    · exact alike_pure .nil
  have byValue : w.Alike (LikeAll w.known)
      (do let temp ← freshName
          addExport "default" temp
          return [define temp (← c.expression e) false])
      (do let temp ← freshName
          addExport "default" temp
          return [define temp (← d.expression e) false]) := by
    refine freshName_alike.bind ?_
    rintro temp _ ⟨rfl, ht⟩
    refine (addExport_alike hn he ht).next fun _ => (hc.expression hs).bind fun r r' hr => ?_
    exact alike_pure (AiScript.likeAll_singleton (.define hr))
  cases e with
  | ident i =>
    unfold exportDefault
    dsimp only
    cases hu : i.name == "undefined" with
    | true => exact byValue
    | false => exact byName i (w.known_ident hs.1)
  | _ => exact byValue

theorem exportDeclared_alike (he : hasModifier n.modifiers "export" = true) :
    w.Alike (LikeAll w.known) (exportDeclared c n) (exportDeclared d n) := by
  have hs := allFit_below hn
  have he' : isExport n = true := isExport_of_modifier he
  have inner : w.Alike (LikeAll w.known) (c.statement (withoutExport n))
      (d.statement (withoutExport n)) :=
    hc.statement ⟨w.fits_withoutExport hn, Node.cost_withoutExport_lt he⟩
  unfold exportDeclared
  split
  · exact alike_pure .nil
  dsimp only
  split
  · exact alike_pure .nil
  · exact alike_pure .nil
  · exact alike_pure .nil
  · simp only [Node.children, Option.toList_some, allFit_cons, allFit_append] at hs
    refine freshName_alike.bind ?_
    rintro temp _ ⟨rfl, ht⟩
    refine (addExport_alike hn he' ht).next fun _ => ?_
    refine (hc.function hs.1.1.1.2 hs.1.1.2.1).bind fun r r' hr => ?_
    exact alike_pure (AiScript.likeAll_singleton (.define hr))
  · simp only [Node.children, Option.toList_some, allFit_cons, allFit_append] at hs
    have hk := w.known_ident (hs.1.1.1.1.2 _ (List.mem_singleton.mpr rfl)).1
    exact (addExport_alike hn he' hk).next fun _ => inner
  · simp only [Node.children, allFit_cons, allFit_append] at hs
    exact (exportVariables_alike hn he' hs.2.1.1).next fun _ => inner
  · exact inner

theorem exports_statement_alike :
    w.Alike w.LikeResult (exports.statement c n) (exports.statement d n) := by
  have hs := allFit_below hn
  dsimp only [exports]
  split
  · split
    · simp only [Node.children, Option.getD_some, allFit_append] at hs
      refine (exportNames_alike hn rfl fun m hm => (hs.1 m hm).1).next fun _ => ?_
      exact alike_pure (.some .nil)
    · exact alike_pure (.some .nil)
  · exact alike_refuse _ _
  · exact (exportDefault_alike hc hn rfl (hs _ (by simp [Node.children]))).bind
      fun r r' hr => alike_pure (.some hr)
  · exact alike_refuse _ _
  · split
    · exact (exportDeclared_alike hc hn ‹_›).bind fun r r' hr => alike_pure (.some hr)
    · exact alike_pure .none

/-! ## All capabilities -/

theorem defaultCapabilities_keepsAt : ∀ cap ∈ defaultCapabilities, w.KeepsAt n cap c d := by
  have noExpression : w.Alike (LikeOption w.known) (pure none) (pure none) := alike_pure .none
  have none : w.Alike w.LikeResult (pure none) (pure none) := alike_pure .none
  intro cap hcap
  simp only [defaultCapabilities, List.mem_cons, List.not_mem_nil, or_false] at hcap
  rcases hcap with rfl | rfl | rfl | rfl | rfl | rfl | rfl | rfl | rfl | rfl | rfl
  · exact ⟨noExpression, none, imports_statement_alike hn⟩
  · exact ⟨noExpression, none, exports_statement_alike hc hn⟩
  · exact ⟨types_alike hc hn, none, types_statement_alike⟩
  · exact ⟨literals_alike hc hn, none, none⟩
  · exact ⟨identifiers_alike hc hn, identifiers_effects_alike hc hn, none⟩
  · exact ⟨operators_alike hc hn, operators_effects_alike hc hn, none⟩
  · exact ⟨access_alike hc hn, none, none⟩
  · exact ⟨functions_alike hc hn, none, functions_statement_alike hc hn⟩
  · exact ⟨noExpression, none, declarations_statement_alike hc hn⟩
  · exact ⟨control_alike hc hn, none, control_statement_alike hc hn⟩
  · exact ⟨noExpression, none, statements_statement_alike hc hn⟩

end

end Setting

end ScriptBridge.Conversion
