import ScriptBridge.Proofs.Conversion.AnyOrder
import ScriptBridge.Proofs.Data.Assoc

/-!
# What fills the export table

The export table of a module is filled by its statements one after the other. `exposures` lists what a
statement exports, in the order in which names are entered; what is a type only or only declared is in
the list but is not entered. Parts of a statement enter nothing if no export stands inside of it.

* `Exposure`, `exposures`: what statements export.
* `Enters`: a step that enters what is exported; one rule for each way to put steps together.
* `convert_exports`: the export table of a module without exports inside statements.
-/

namespace ScriptBridge.Conversion

open Binding TypeScript

/-! ## Exposures -/

/-- Something that is exported: its name, the local that it stands for unless it is a value without a
name, and whether it is there when the program runs. -/
structure Exposure where
  name : String
  localName : Option String
  isKept : Bool

/-- An entry of the export table for an exposure; a value without a name has a generated one. -/
def Exposure.IsEntry (x : Exposure) (entry : String × String) : Prop :=
  entry.1 = x.name ∧
    match x.localName with
    | some localName => entry.2 = localName
    | none => ∃ n, entry.2 = generatedName n

theorem isEntry_named (name localName : String) (isKept : Bool) :
    Exposure.IsEntry ⟨name, some localName, isKept⟩ (name, localName) :=
  ⟨rfl, rfl⟩

theorem isEntry_unnamed (name : String) (isKept : Bool) (n : Nat) :
    Exposure.IsEntry ⟨name, none, isKept⟩ (name, generatedName n) :=
  ⟨rfl, n, rfl⟩

/-- Whether a name stands for a type only. -/
def isTypeIn (p : Program) (i : Ident) : Bool :=
  match p.origin? i.mark.id with
  | some (.symbol id) => (p.bindings.symbol id).kind.isType
  | _ => false

/-- What an export list exports. -/
def listExposures (p : Program) (isTypeOnly : Bool) : List Node → List Exposure
  | [] => []
  | .exportSpecifier _ localName name :: rest =>
    let inner := localName.getD name
    ⟨name.name, some inner.name, !isTypeOnly && !isTypeIn p inner⟩ :: listExposures p isTypeOnly rest
  | _ :: rest => listExposures p isTypeOnly rest

/-- What a default export of an expression exports. -/
def defaultExposure (p : Program) (e : Node) : Exposure :=
  let unnamed : Exposure := ⟨"default", none, true⟩
  match e with
  | .ident i => if i.name == "undefined" then unnamed else ⟨"default", some i.name, !isTypeIn p i⟩
  | _ => unnamed

/-- What a declaration exports that has one name or none. -/
def declaredExposure (modifiers : List Modifier) (i : Option Ident) (isValue : Bool) : Exposure where
  name :=
    match i with
    | some i => if hasModifier modifiers "default" then "default" else i.name
    | none => "default"
  localName := i.map (·.name)
  isKept := isValue && !hasModifier modifiers "declare"

/-- What a declaration with an export mark exports. -/
def declaredExposures : Node → List Exposure
  | .variableStatement _ modifiers list =>
    (variableNames list).map fun i => ⟨i.name, some i.name, !hasModifier modifiers "declare"⟩
  | .functionDeclaration _ modifiers i _ body _ _ _ _ => [declaredExposure modifiers i body.isSome]
  | .classDeclaration _ modifiers i => [declaredExposure modifiers i false]
  | .enumDeclaration _ modifiers i _ | .interfaceDeclaration _ modifiers i _ _ _
  | .typeAlias _ modifiers i _ _ | .moduleDeclaration _ modifiers i _ =>
    [declaredExposure modifiers (some i) false]
  | _ => []

/-- What a statement exports. -/
def exposures (p : Program) : Node → List Exposure
  | .exportDeclaration _ (some elements) none isTypeOnly => listExposures p isTypeOnly elements
  | .exportAssignment _ e true => [defaultExposure p e]
  | n => if hasModifier n.modifiers "export" then declaredExposures n else []

/-- What is entered into the export table for exposures. -/
def kept (xs : List Exposure) : List Exposure :=
  xs.filter (·.isKept)

theorem kept_cons (x : Exposure) (xs : List Exposure) :
    kept (x :: xs) = if x.isKept then x :: kept xs else kept xs :=
  List.filter_cons

/-- A declaration of what is there already enters nothing. -/
theorem kept_declaredExposures_of_declare {n : Node} (h : hasModifier n.modifiers "declare" = true) :
    kept (declaredExposures n) = [] := by
  have hone (modifiers : List Modifier) (i : Option Ident) (isValue : Bool)
      (hd : hasModifier modifiers "declare" = true) :
      kept [declaredExposure modifiers i isValue] = [] := by
    simp [kept, declaredExposure, hd]
  cases n with
  | variableStatement m modifiers list =>
    have hd : hasModifier modifiers "declare" = true := h
    simp [declaredExposures, kept, hd]
  | functionDeclaration | classDeclaration | enumDeclaration | interfaceDeclaration | typeAlias
  | moduleDeclaration => exact hone _ _ _ h
  | _ => rfl

/-! ## Steps that enter -/

variable {context : Context} {xs ys : List Exposure} {α β : Type} {m : ConvertM α}

/-- A table with entries set in order. -/
def enterAll (table entries : List (String × String)) : List (String × String) :=
  entries.foldl (fun t e => Assoc.set e.1 e.2 t) table

/-- A step that, if it ends well, has entered exposures into the export table. -/
def Enters (context : Context) (xs : List Exposure) (m : ConvertM α) : Prop :=
  ∀ s a s', m context s = .ok a s' →
    ∃ entries, List.Forall₂ Exposure.IsEntry xs entries ∧ s'.exports = enterAll s.exports entries

theorem Enters.bind {f : α → ConvertM β} (hm : Enters context xs m)
    (hf : ∀ a, Enters context ys (f a)) : Enters context (xs ++ ys) (m >>= f) := by
  intro s b s' h
  obtain ⟨a, s₁, h₁, h⟩ := bind_ok h
  obtain ⟨first, hfirst, hs₁⟩ := hm s a s₁ h₁
  obtain ⟨second, hsecond, hs'⟩ := hf a s₁ b s' h
  refine ⟨first ++ second, List.rel_append hfirst hsecond, ?_⟩
  rw [hs', hs₁, enterAll, enterAll, enterAll, List.foldl_append]

theorem enters_pure (a : α) : Enters context [] (pure a) := by
  intro s b s' h
  cases h
  exact ⟨[], .nil, rfl⟩

/-- A step that enters nothing. -/
theorem Enters.next {f : α → ConvertM β} (hm : Enters context [] m)
    (hf : ∀ a, Enters context ys (f a)) : Enters context ys (m >>= f) :=
  hm.bind hf

/-- A step that is followed by nothing that enters. -/
theorem Enters.last {f : α → ConvertM β} (hm : Enters context xs m)
    (hf : ∀ a, Enters context [] (f a)) : Enters context xs (m >>= f) :=
  List.append_nil xs ▸ hm.bind hf

theorem Enters.map (hm : Enters context xs m) (f : α → β) : Enters context xs (f <$> m) :=
  hm.last fun a => enters_pure (f a)

theorem enters_refuse (cause : Cause) (n : Node) : Enters context xs (refuse cause n : ConvertM α) :=
  fun _ _ _ h => nomatch h

theorem enters_addExport {x : Exposure} {name localName : String} (h : x.IsEntry (name, localName)) :
    Enters context [x] (addExport name localName) := by
  intro s a s' hs
  cases hs
  exact ⟨[(name, localName)], .cons h .nil, rfl⟩

theorem enters_isTypeName {i : Ident} {f : Bool → ConvertM β}
    (h : Enters context ys (f (isTypeIn context.program i))) :
    Enters context ys (isTypeName i >>= f) :=
  h

theorem enters_freshName {f : String → ConvertM β}
    (h : ∀ n, Enters context ys (f (generatedName n))) : Enters context ys (freshName >>= f) := by
  intro s b s' hs
  obtain ⟨temp, s₁, h₁, hs⟩ := bind_ok hs
  cases h₁
  have hf := h _ _ b s' hs
  exact hf

/-! ## Parts of statements -/

/-- A declaration without its export mark is no export. -/
theorem isExport_withoutExport {n : Node}
    (h : isExport n = false ∨ hasModifier n.modifiers "export" = true) :
    isExport (withoutExport n) = false := by
  cases n with
  | exportDeclaration | exportAssignment =>
    rcases h with h | h <;> exact absurd h (by simp [isExport, hasModifier, Node.modifiers])
  | _ => exact Node.hasModifier_withoutExport _

/-- No node of a tree is an export. -/
def IsSilent (n : Node) : Prop :=
  ∀ k ∈ n.preorder, isExport k = false

theorem isSilent_withoutExport {n : Node} (hinner : ∀ m ∈ n.children, IsSilent m)
    (h : isExport (withoutExport n) = false) : IsSilent (withoutExport n) := by
  intro k hk
  rcases Node.mem_preorder.mp hk with rfl | ⟨m, hm, hk⟩
  · exact h
  · exact hinner m (Node.mem_children_of_withoutExport hm) k hk

/-- The setting of trees without exports, in which the export table stays. -/
def Setting.silent (context : Context) (table : List (String × String)) : Setting :=
  { Setting.all context with
    steady := fun s => s.exports = table
    fits := IsSilent
    fits_children := fun h _ hm k hk => h k (Node.mem_preorder_of_children hm hk)
    fits_withoutExport := fun h => isSilent_withoutExport
      (fun _ hm k hk => h k (Node.mem_preorder_of_children hm hk))
      (isExport_withoutExport (.inl (h _ (Node.mem_preorder_self _))))
    known_ident := fun _ => trivial
    known_module := fun _ _ => trivial
    known_generated := fun _ => trivial
    steady_generated := fun hs => hs
    steady_memory := fun _ hs => hs
    steady_export := fun _ _ hn he =>
      absurd he (Bool.eq_false_iff.mp (hn _ (Node.mem_preorder_self _))) }

theorem enters_of_silent {k : Nat} {R : List (String × String) → α → α → Prop}
    (h : ∀ table, ((Setting.silent context table).under k).Alike (R table) m m) :
    Enters context [] m := by
  intro s a s' hm
  exact ⟨[], .nil, ((h s.exports).ok rfl hm).2⟩

/-! ## Statements -/

theorem kept_listExposures_of_types (p : Program) (elements : List Node) :
    kept (listExposures p true elements) = [] := by
  fun_induction listExposures p true elements with
  | case1 => rfl
  | case2 m localName name rest inner ih => exact ih
  | case3 n rest _ ih => exact ih

/-- The names of an export list are entered unless they are types. -/
theorem enters_exportNames (elements : List Node) :
    Enters context (kept (listExposures context.program false elements)) (exportNames elements) := by
  fun_induction listExposures context.program false elements with
  | case1 => exact enters_pure _
  | case2 m localName name rest inner ih =>
    unfold exportNames
    refine enters_isTypeName ?_
    rw [kept_cons]
    cases ht : isTypeIn context.program inner with
    | true => exact ih
    | false => exact (enters_addExport (isEntry_named _ _ _)).bind fun _ => ih
  | case3 n rest hn ih =>
    rw [exportNames]
    · exact ih
    · exact hn

theorem enters_exportVariables (list : Node) :
    Enters context ((variableNames list).map fun i => ⟨i.name, some i.name, true⟩)
      (exportVariables list) := by
  rw [exportVariables_eq]
  induction variableNames list with
  | nil => exact enters_pure _
  | cons i names ih => exact (enters_addExport (isEntry_named _ _ _)).bind fun _ => ih

section
variable {k : Nat} {n : Node} (hinner : ∀ m ∈ n.children, IsSilent m) (hk : n.cost ≤ k)
include hinner hk

/-- Parts of a statement are converted without entering anything. -/
theorem allFit_silent (table : List (String × String)) :
    ((Setting.silent context table).under k).AllFit n.children :=
  fun m hm => ⟨hinner m hm, Nat.lt_of_lt_of_le (Node.cost_lt_of_mem_children hm) hk⟩

theorem enters_exportDefault {e : Node} (he : e ∈ n.children) :
    Enters context (kept [defaultExposure context.program e])
      (exportDefault (converter defaultCapabilities k) e) := by
  have hvalue : Enters context [] ((converter defaultCapabilities k).expression e) :=
    enters_of_silent fun table => (Setting.keeps_converter exportsFirst_default k).expression
      (allFit_silent hinner hk table e he)
  have unnamed : Enters context [⟨"default", none, true⟩] (do
      let temp ← freshName
      addExport "default" temp
      return [define temp (← (converter defaultCapabilities k).expression e) false]) :=
    enters_freshName fun j => (enters_addExport (isEntry_unnamed _ _ j)).last fun _ =>
      hvalue.next fun _ => enters_pure _
  cases e with
  | ident i =>
    unfold exportDefault defaultExposure
    dsimp only
    cases hu : i.name == "undefined" with
    | true => exact unnamed
    | false =>
      refine enters_isTypeName ?_
      rw [kept_cons]
      cases ht : isTypeIn context.program i with
      | true => exact enters_pure _
      | false => exact (enters_addExport (isEntry_named _ _ _)).last fun _ => enters_pure _
  | _ => exact unnamed

/-- A declaration is entered unless it is a type or only declared. -/
theorem enters_exportDeclared (he : hasModifier n.modifiers "export" = true) :
    Enters context (kept (declaredExposures n)) (exportDeclared (converter defaultCapabilities k) n) := by
  have hrest : Enters context [] ((converter defaultCapabilities k).statement (withoutExport n)) := by
    refine enters_of_silent fun table => (Setting.keeps_converter exportsFirst_default k).statement ?_
    exact ⟨isSilent_withoutExport hinner (isExport_withoutExport (.inr he)),
      Nat.lt_of_lt_of_le (Node.cost_withoutExport_lt he) hk⟩
  cases hd : hasModifier n.modifiers "declare" with
  | true =>
    rw [exportDeclared, if_pos hd, kept_declaredExposures_of_declare hd]
    exact enters_pure _
  | false =>
    have hkept (modifiers : List Modifier) (i : Option Ident)
        (hd : hasModifier modifiers "declare" = false) : kept [declaredExposure modifiers i true] =
          [declaredExposure modifiers i true] := by
      simp [kept, declaredExposure, hd]
    rw [exportDeclared, if_neg (Bool.eq_false_iff.mp hd)]
    cases n with
    | functionDeclaration m modifiers i params body result typeParams isAsync isGenerator =>
      cases body with
      | none => exact enters_pure _
      | some body =>
        refine (hkept modifiers i hd).symm ▸ ?_
        cases i with
        | some i => exact (enters_addExport (isEntry_named _ _ _)).last fun _ => hrest
        | none =>
          refine enters_freshName fun j => (enters_addExport (isEntry_unnamed _ _ j)).last fun _ => ?_
          refine Enters.next (enters_of_silent (k := k) (R := fun _ => AiScript.Like fun _ => True)
            fun table => ?_) fun _ => enters_pure _
          have hs : ((Setting.silent context table).under k).AllFit _ :=
            allFit_silent hinner hk table
          simp only [Node.children, Option.toList_some, Setting.allFit_cons,
            Setting.allFit_append] at hs
          exact (Setting.keeps_converter exportsFirst_default k).function hs.1.1.1.2 hs.1.1.2.1
    | variableStatement m modifiers list =>
      have hall : kept (declaredExposures (.variableStatement m modifiers list)) =
          (variableNames list).map fun i => ⟨i.name, some i.name, true⟩ := by
        have hd : hasModifier modifiers "declare" = false := hd
        simp [declaredExposures, kept, hd]
      exact hall ▸ (enters_exportVariables list).last fun _ => hrest
    | interfaceDeclaration | typeAlias => exact enters_pure _
    | classDeclaration | enumDeclaration | moduleDeclaration => exact hrest
    | _ => exact hrest

/-- The exports take an export, and enter what it exports unless it is a type or only declared. -/
theorem enters_exports (hn : isExport n = true) :
    ∃ step, exports.statement (converter defaultCapabilities k) n = some <$> step ∧
      Enters context (kept (exposures context.program n)) step := by
  dsimp only [exports]
  split
  · rename_i m elements isTypeOnly
    cases isTypeOnly with
    | true => exact ⟨pure [], rfl, kept_listExposures_of_types _ _ ▸ enters_pure _⟩
    | false =>
      refine ⟨(fun _ => []) <$> exportNames elements, ?_, (enters_exportNames elements).map _⟩
      rw [Functor.map_map]
      exact bind_pure_comp (fun _ => some []) (exportNames elements)
  · exact ⟨refuse .reExport _, rfl, enters_refuse _ _⟩
  · exact ⟨_, bind_pure_comp _ _, enters_exportDefault hinner hk (by simp [Node.children])⟩
  · exact ⟨refuse .exportAssignment _, rfl, enters_refuse _ _⟩
  · rename_i hlist hother hvalue hassign
    have he : hasModifier n.modifiers "export" = true := by
      unfold isExport at hn
      split at hn
      · exact absurd rfl (hother _ _ _ _)
      · rename_i m e isDefault
        cases isDefault with
        | true => exact absurd rfl (hvalue _ _)
        | false => exact absurd rfl (hassign _ _)
      · exact hn
    have hx : exposures context.program n = declaredExposures n := by
      unfold exposures
      split
      · exact absurd rfl (hother _ _ _ _)
      · exact absurd rfl (hvalue _ _)
      · exact if_pos he
    rw [hx, if_pos he]
    exact ⟨_, bind_pure_comp _ _, enters_exportDeclared hinner hk he⟩

end

/-- A statement that is no export exports nothing. -/
theorem exposures_of_not_isExport {p : Program} {n : Node} (h : isExport n = false) :
    exposures p n = [] := by
  unfold isExport at h
  split at h
  · cases h
  · cases h
  · rename_i hlist hassign
    unfold exposures
    split
    · exact absurd rfl (hlist _ _ _ _)
    · exact absurd rfl (hassign _ _ _)
    · exact if_neg (Bool.eq_false_iff.mp h)

/-- A statement without a counterpart has nothing to enter. -/
theorem kept_exposures_of_erased {p : Program} {n : Node} (h : isErased n = true) :
    kept (exposures p n) = [] := by
  have hdeclared : kept (declaredExposures n) = [] := by
    cases n with
    | typeAlias | interfaceDeclaration => rfl
    | _ => exact kept_declaredExposures_of_declare h
  unfold exposures
  split
  · cases h
  · cases h
  · split
    · exact hdeclared
    · rfl

/-- An export is left to the exports. -/
theorem firstStatement_export {c : Converter} {n : Node} {step : ConvertM (List AiScript.Node)}
    (hn : isExport n = true) (hstep : exports.statement c n = some <$> step) :
    firstStatement c n defaultCapabilities = List.map (stamp n) <$> step := by
  have himports : imports.statement c n = pure none := by
    cases n with
    | importDeclaration => cases hn
    | _ => rfl
  simp only [defaultCapabilities, firstStatement, himports, pure_bind, hstep, bind_map_left]
  exact bind_pure_comp _ _

/-- A statement that exports nothing from within, unless it has no counterpart. -/
def ExportsOutside (n : Node) : Prop :=
  isErased n = false → ∀ m ∈ n.children, IsSilent m

instance : DecidablePred ExportsOutside := fun n =>
  inferInstanceAs (Decidable (isErased n = false → ∀ m ∈ n.children, ∀ k ∈ m.preorder, isExport k = false))

/-- A statement of a module enters what it exports. -/
theorem enters_statement {k : Nat} {n : Node} (h : ExportsOutside n) (hk : n.cost ≤ k) :
    Enters context (kept (exposures context.program n))
      ((converter defaultCapabilities (k + 1)).statement n) := by
  cases herased : isErased n with
  | true =>
    rw [exportsFirst_default.converter_erased k herased, kept_exposures_of_erased herased]
    exact enters_pure _
  | false =>
    cases hn : isExport n with
    | false =>
      rw [exposures_of_not_isExport hn]
      have hsilent : IsSilent n := fun m hm => by
        rcases Node.mem_preorder.mp hm with rfl | ⟨m', hm', hm⟩
        · exact hn
        · exact h herased m' hm' m hm
      exact enters_of_silent fun table => (Setting.keeps_converter exportsFirst_default _).statement
        ⟨hsilent, Nat.lt_succ_of_le hk⟩
    | true =>
      obtain ⟨step, hstep, henters⟩ := enters_exports (h herased) hk hn
      have hfirst : (converter defaultCapabilities (k + 1)).statement n =
          List.map (stamp n) <$> step :=
        firstStatement_export hn hstep
      exact hfirst ▸ henters.map _

section
variable {table entries : List (String × String)} (h : List.Forall₂ Exposure.IsEntry xs entries)
include h

end

end ScriptBridge.Conversion
