import ScriptBridge.Proofs.Conversion.Calls
import ScriptBridge.Proofs.Conversion.KeepsGates

/-!
# No gate is passed by

Every capability either declines a form or checks all of it, so conversion by all capabilities checks
whatever it converts, at every depth. For a text this means that the oracle, asked after the conversion,
gives a fitting type for every condition, every source of a loop and every access with a key that is
live in the text.

* `defaultCapabilities_keepsGates`: each capability.
* `convertSource_gates`: texts.
-/

namespace ScriptBridge.Conversion

open TypeScript Typing

/-- A result for a node, if there is one, is of a checked node. -/
def Decides {α : Type} (m : ConvertM (Option α)) (n : Node) : Prop :=
  Leaves m fun r memory => r.isSome = true → Checked memory n

theorem declines {α : Type} (n : Node) : Decides (pure none : ConvertM (Option α)) n :=
  leaves_pure fun _ h => absurd h Bool.false_ne_true

theorem refuses {α : Type} (cause : Cause) (m n : Node) :
    Decides (refuse cause m : ConvertM (Option α)) n :=
  leaves_refuse cause m

theorem decides_pure {α : Type} {a : α} {n : Node} (h : ∀ memory, Checked memory n) :
    Decides (pure (some a)) n :=
  leaves_pure fun memory _ => h memory

/-- A step that checks a node decides it. -/
theorem decides_of_checked {α β : Type} {m : ConvertM α} {f : α → β} {n : Node}
    (h : Leaves m fun _ memory => Checked memory n) : Decides (do return some (f (← m))) n :=
  h.bind fun _ => leaves_pure fun _ hn _ => hn

/-- A capability that checks what it does not decline. -/
structure Capability.KeepsGates (cap : Capability) (c : Converter) : Prop where
  expression : ∀ n, Decides (cap.expression c n) n
  effects : ∀ n, Decides (cap.effects c n) n
  statement : ∀ n, Decides (cap.statement c n) n

section
variable {c : Converter} (hc : KeepsGates c)
include hc

/-! ## Expressions -/

theorem types_decides (n : Node) : Decides (types.expression c n) n := by
  dsimp only [types]
  have inner (e : Node) : Leaves (c.expression e) fun _ memory => AllChecked memory [e] :=
    (hc.expression e).mono fun _ _ h => allChecked_singleton.mpr h
  split
  · exact decides_of_checked ((inner _).mono fun _ _ h => checked_of_parts rfl h)
  · exact decides_of_checked ((inner _).mono fun _ _ h => checked_of_parts rfl h)
  · exact decides_of_checked ((inner _).mono fun _ _ h => checked_of_parts rfl h)
  · exact declines n

theorem literals_decides (n : Node) : Decides (literals.expression c n) n := by
  dsimp only [literals]
  split
  · exact (leaves_orNumeralFault _).bind fun _ => leaves_pure fun _ _ _ =>
      checked_of_parts rfl allChecked_nil
  · exact decides_pure fun _ => checked_of_parts rfl allChecked_nil
  · exact decides_pure fun _ => checked_of_parts rfl allChecked_nil
  · exact refuses _ _ _
  · exact decides_pure fun _ => checked_of_parts rfl allChecked_nil
  · exact decides_of_checked ((hc.templateParts _).mono fun _ _ h => checked_of_parts rfl h)
  · exact decides_of_checked ((hc.items _).mono fun _ _ h => checked_of_parts rfl h)
  · exact decides_of_checked ((hc.entries _ _).mono fun _ _ h => checked_of_parts rfl h)
  · exact declines n

theorem identifiers_decides (n : Node) : Decides (identifiers.expression c n) n := by
  dsimp only [identifiers]
  split
  · exact decides_pure fun _ => checked_ident _
  · refine decides_of_checked ((hc.expression _).mono fun _ _ h => checked_of_parts rfl ?_)
    exact allChecked_singleton.mpr h
  · exact declines _

theorem identifiers_effects_decides (n : Node) : Decides (identifiers.effects c n) n := by
  dsimp only [identifiers]
  split
  · refine decides_of_checked ((hc.effects _).mono fun _ _ h => checked_of_parts rfl ?_)
    exact allChecked_singleton.mpr h
  · exact declines _

theorem operators_decides (n : Node) : Decides (operators.expression c n) n := by
  dsimp only [operators]
  split
  · exact decides_of_checked ((hc.binaryOperation _ _ _ _).mono fun _ _ h => checked_of_parts rfl h)
  · refine decides_of_checked ((hc.prefixOperation _ _ _).mono fun _ _ h => checked_of_parts rfl ?_)
    exact allChecked_singleton.mpr h
  · refine decides_of_checked ((hc.stepValue _ _ _).mono fun _ _ h => checked_of_parts rfl ?_)
    exact allChecked_singleton.mpr h
  iterate 4
    · exact refuses _ _ _
  · exact declines n

theorem operators_effects_decides (n : Node) : Decides (operators.effects c n) n := by
  have step (operator : String) (operand : Node) :
      Leaves (assignTarget c operand) fun _ memory => AllChecked memory [operand] :=
    (hc.assignTarget operand).mono fun _ _ h => allChecked_singleton.mpr h
  unfold Decides
  simp only [← checked_unwrap (n := n)]
  dsimp only [operators]
  split
  · rename_i h
    rw [h]
    split
    · exact decides_of_checked ((hc.assignment _ _ _ _).mono fun _ _ h => checked_of_parts rfl h)
    · exact declines _
  · rename_i operator operand h
    rw [h]
    split
    · exact decides_of_checked ((step operator operand).mono fun _ _ h => checked_of_parts rfl h)
    · exact declines _
  · rename_i operand operator h
    rw [h]
    exact decides_of_checked ((step operator operand).mono fun _ _ h => checked_of_parts rfl h)
  · exact declines _

theorem access_decides (n : Node) : Decides (access.expression c n) n := by
  dsimp only [access]
  split
  · refine leaves_guard ((hc.args _).bind fun args => (hc.expression _).bind fun callee => ?_)
    exact leaves_pure fun _ hf ha _ => checked_of_parts rfl (allChecked_cons.mpr ⟨hf, ha⟩)
  · refine leaves_guard (decides_of_checked ((hc.property _ _).mono fun _ _ h => ?_))
    refine checked_of_parts rfl (allChecked_cons.mpr ⟨h, ?_⟩)
    exact allChecked_singleton.mpr (checked_ident _)
  · rename_i m target key isOptional
    refine leaves_guard ((leaves_checkElementAccess target key m isOptional).bind fun _ => ?_)
    refine (hc.expression target).bind fun t => (hc.expression key).bind fun k => ?_
    refine leaves_pure fun _ hk ht hg _ => checked_iff.mpr ⟨hg, ?_⟩
    exact allChecked_cons.mpr ⟨ht, allChecked_singleton.mpr hk⟩
  · exact refuses _ _ _
  · exact declines n

theorem functions_decides (n : Node) : Decides (functions.expression c n) n := by
  dsimp only [functions]
  split
  · exact decides_of_checked ((hc.function _ _ _ _ _).mono fun _ _ h => checked_of_parts rfl h)
  · exact decides_of_checked ((hc.function _ _ _ _ _).mono fun _ _ h => checked_of_parts rfl h)
  · exact declines n

theorem control_decides (n : Node) : Decides (control.expression c n) n := by
  dsimp only [control]
  split
  · refine (hc.condition _).bind fun test => (hc.expression _).bind fun value => ?_
    refine (hc.elseValues _).bind fun more => leaves_pure fun _ hf hw ht _ => ?_
    refine checked_iff.mpr ⟨ht.1, allChecked_cons.mpr ⟨ht.2, ?_⟩⟩
    exact allChecked_cons.mpr ⟨hw, allChecked_singleton.mpr hf⟩
  · exact declines n

/-! ## Statements -/

omit hc in
theorem types_statement_decides (n : Node) : Decides (types.statement c n) n := by
  dsimp only [types]
  split
  · exact decides_pure fun _ => checked_of_parts rfl allChecked_nil
  · exact decides_pure fun _ => checked_of_parts rfl allChecked_nil
  split
  · exact decides_pure fun _ => checked_declared ‹_›
  split
  · exact refuses _ _ _
  · exact declines n

theorem functions_statement_decides (n : Node) : Decides (functions.statement c n) n := by
  dsimp only [functions]
  split
  · split
    · exact decides_pure fun _ => checked_declared ‹_›
    split
    · exact refuses _ _ _
    · refine (leaves_checkName _).next fun _ => (hc.function _ _ _ _ _).bind fun value => ?_
      exact leaves_pure fun _ h _ => checked_of_parts rfl h
  · rename_i m modifiers name params body result typeParams isAsync isGenerator hbody
    cases body with
    | none => exact decides_pure fun _ => checked_of_parts rfl allChecked_nil
    | some body => exact (hbody _ rfl).elim
  · exact declines n

theorem declarations_statement_decides (n : Node) : Decides (declarations.statement c n) n := by
  dsimp only [declarations]
  split
  · split
    · exact decides_pure fun _ => checked_declared ‹_›
    · exact decides_of_checked ((hc.variableList _).mono fun _ _ h => checked_of_parts rfl h)
  · exact declines n

theorem control_statement_decides (n : Node) : Decides (control.statement c n) n := by
  dsimp only [control]
  split
  · refine (hc.condition _).bind fun test => (hc.branch _).bind fun body => ?_
    refine (KeepsGates.elseBranches? hc _).bind fun more => leaves_pure fun _ ho hb ht _ => ?_
    exact checked_iff.mpr ⟨ht.1, allChecked_cons.mpr ⟨ht.2, allChecked_cons.mpr ⟨hb, ho⟩⟩⟩
  · exact decides_of_checked (hc.forLoop _ _ _ _ _)
  · exact decides_of_checked (hc.whileLoop _ _ _)
  · exact decides_of_checked (hc.doLoop _ _ _)
  · exact leaves_guard (decides_of_checked (hc.forOfLoop _ _ _ _ _))
  · exact refuses _ _ _
  · exact decides_of_checked (hc.switch _ _ _)
  · exact declines n

theorem statements_statement_decides (n : Node) : Decides (statements.statement c n) n := by
  dsimp only [statements]
  split
  · refine decides_of_checked ((hc.effects _).mono fun _ _ h => checked_of_parts rfl ?_)
    exact allChecked_singleton.mpr h
  · exact decides_of_checked ((hc.statements _).mono fun _ _ h => checked_of_parts rfl h)
  · exact decides_pure fun _ => checked_of_parts rfl allChecked_nil
  · exact decides_pure fun _ => checked_of_parts rfl allChecked_nil
  · refine decides_of_checked ((hc.expression _).mono fun _ _ h => checked_of_parts rfl ?_)
    exact allChecked_singleton.mpr h
  iterate 3
    · exact refuses _ _ _
  · exact decides_pure fun _ => checked_of_parts rfl allChecked_nil
  · exact decides_pure fun _ => checked_of_parts rfl allChecked_nil
  · exact declines n

/-! ## Imports and exports -/

omit hc in
theorem imports_statement_decides (n : Node) : Decides (imports.statement c n) n := by
  have default (specifier : String) (span : Span) (i : Option Ident) :
      Leaves (importDefault (moduleName specifier span) i) fun _ _ => True := by
    unfold importDefault
    split
    · exact leaves_pure fun _ => trivial
    · refine (leaves_isTypeName _).next fun isType => ?_
      split
      · exact leaves_pure fun _ => trivial
      · exact (leaves_checkName _).next fun _ => (leaves_moduleName _ _).next fun _ =>
          leaves_pure fun _ => trivial
  have all (specifier : String) (span : Span) (i : Option Ident) :
      Leaves (importAll (moduleName specifier span) i) fun _ _ => True := by
    unfold importAll
    split
    · exact leaves_pure fun _ => trivial
    · exact (leaves_checkName _).next fun _ => (leaves_moduleName _ _).next fun _ =>
        leaves_pure fun _ => trivial
  have names (specifier : String) (span : Span) (elements : List Node) :
      Leaves (importNames (moduleName specifier span) elements) fun _ _ => True := by
    fun_induction importNames (moduleName specifier span) elements with
    | case1 => exact leaves_pure fun _ => trivial
    | case2 m imported i isTypeOnly rest ih =>
      refine (leaves_isTypeName i).next fun isType => ?_
      have last (first : List AiScript.Node) : Leaves (do
          return first ++ (← importNames (moduleName specifier span) rest)) fun _ _ => True :=
        ih.next fun _ => leaves_pure fun _ => trivial
      dsimp only
      split
      · exact (leaves_pure fun _ => trivial).next last
      · exact (leaves_checkName _).next fun _ => (leaves_moduleName _ _).next fun _ =>
          (leaves_pure fun _ => trivial).next last
    | case3 n rest _ ih => exact ih
  dsimp only [imports]
  split
  · refine (default _ _ _).next fun _ => (all _ _ _).next fun _ => (names _ _ _).next fun _ => ?_
    exact decides_pure fun _ => checked_of_parts rfl allChecked_nil
  · exact decides_pure fun _ => checked_of_parts rfl allChecked_nil
  · exact declines n

theorem exportDefault_checked (e : Node) :
    Leaves (exportDefault c e) fun _ memory => Checked memory e := by
  have byName (i : Ident) : Leaves (do
      if !(← isTypeName i) then addExport "default" i.name
      return ([] : List AiScript.Node)) fun _ memory => Checked memory (.ident i) := by
    refine (leaves_isTypeName i).next fun isType => ?_
    split
    · exact (leaves_addExport _ _).next fun _ => leaves_pure fun _ => checked_ident i
    · exact leaves_pure fun _ => checked_ident i
  have byValue : Leaves (do
      let temp ← freshName
      addExport "default" temp
      return [define temp (← c.expression e) false]) fun _ memory => Checked memory e :=
    leaves_freshName.next fun _ => (leaves_addExport _ _).next fun _ =>
      (hc.expression e).bind fun _ => leaves_pure fun _ h => h
  cases e with
  | ident i =>
    unfold exportDefault
    dsimp only
    cases hu : i.name == "undefined" with
    | true => exact byValue
    | false => exact byName i
  | _ => exact byValue

theorem exportDeclared_checked (n : Node) :
    Leaves (exportDeclared c n) fun _ memory => Checked memory n := by
  unfold exportDeclared
  split
  · exact leaves_pure fun _ => checked_declared ‹_›
  rename_i hd
  have inner : Leaves (c.statement (withoutExport n)) fun _ memory => Checked memory n := by
    refine (hc.statement _).mono fun _ memory h => checked_of_setModifiers ?_ h
    refine Bool.eq_false_iff.mpr fun hm => hd ?_
    obtain ⟨w, hw, he⟩ := List.any_eq_true.mp hm
    exact List.any_eq_true.mpr ⟨w, (List.mem_filter.mp hw).1, he⟩
  dsimp only
  split
  · exact leaves_pure fun _ => checked_of_parts rfl allChecked_nil
  · exact leaves_pure fun _ => checked_of_parts rfl allChecked_nil
  · exact leaves_pure fun _ => checked_of_parts rfl allChecked_nil
  · refine leaves_freshName.next fun temp => (leaves_addExport _ _).next fun _ => ?_
    exact (hc.function _ _ _ _ _).bind fun value => leaves_pure fun _ h => checked_of_parts rfl h
  · exact (leaves_addExport _ _).next fun _ => inner
  · refine Leaves.next ?_ fun _ => inner
    unfold exportVariables
    split
    · dsimp only
      generalize List.flatMap _ _ = names
      induction names with
      | nil => exact leaves_pure fun _ => trivial
      | cons i names ih => exact (leaves_addExport _ _).next fun _ => ih
    · exact leaves_pure fun _ => trivial
  · exact inner

theorem exports_statement_decides (n : Node) : Decides (exports.statement c n) n := by
  have names (elements : List Node) : Leaves (exportNames elements) fun _ _ => True := by
    fun_induction exportNames elements with
    | case1 => exact leaves_pure fun _ => trivial
    | case2 m localName name rest inner ih =>
      refine (leaves_isTypeName _).next fun isType => ?_
      split
      · exact (leaves_addExport _ _).next fun _ => ih
      · exact ih
    | case3 n rest _ ih => exact ih
  dsimp only [exports]
  split
  · split
    · exact (names _).next fun _ => decides_pure fun _ => checked_of_parts rfl allChecked_nil
    · exact decides_pure fun _ => checked_of_parts rfl allChecked_nil
  · exact refuses _ _ _
  · refine decides_of_checked ((exportDefault_checked hc _).mono fun _ _ h => ?_)
    exact checked_of_parts rfl (allChecked_singleton.mpr h)
  · exact refuses _ _ _
  · split
    · exact decides_of_checked (exportDeclared_checked hc n)
    · exact declines n

/-! ## All capabilities -/

theorem defaultCapabilities_keepsGates : ∀ cap ∈ defaultCapabilities, cap.KeepsGates c := by
  intro cap hcap
  simp only [defaultCapabilities, List.mem_cons, List.not_mem_nil, or_false] at hcap
  rcases hcap with rfl | rfl | rfl | rfl | rfl | rfl | rfl | rfl | rfl | rfl | rfl
  · exact ⟨declines, declines, imports_statement_decides⟩
  · exact ⟨declines, declines, exports_statement_decides hc⟩
  · exact ⟨types_decides hc, declines, types_statement_decides⟩
  · exact ⟨literals_decides hc, declines, declines⟩
  · exact ⟨identifiers_decides hc, identifiers_effects_decides hc, declines⟩
  · exact ⟨operators_decides hc, operators_effects_decides hc, declines⟩
  · exact ⟨access_decides hc, declines, declines⟩
  · exact ⟨functions_decides hc, declines, functions_statement_decides hc⟩
  · exact ⟨declines, declines, declarations_statement_decides hc⟩
  · exact ⟨control_decides hc, declines, control_statement_decides hc⟩
  · exact ⟨declines, declines, statements_statement_decides hc⟩

end

/-- The first of several capabilities that check what they do not decline checks all nodes. -/
theorem keepsGates_first {c : Converter} {caps : List Capability}
    (h : ∀ cap ∈ caps, cap.KeepsGates c) :
    KeepsGates
      { expression := fun n => firstExpression c n caps
        effects := fun n => firstEffects c n caps
        statement := fun n => firstStatement c n caps } where
  expression := by
    intro n
    dsimp only
    induction caps with
    | nil => exact leaves_refuse _ _
    | cons cap caps ih =>
      refine ((h cap (by simp)).expression n).bind fun r => ?_
      cases r with
      | none => exact (ih fun cap hcap => h cap (List.mem_cons_of_mem _ hcap)).mono fun _ _ hn _ => hn
      | some r => exact leaves_pure fun _ hn => hn rfl
  effects := by
    intro n
    dsimp only
    induction caps with
    | nil => exact leaves_refuse _ _
    | cons cap caps ih =>
      refine ((h cap (by simp)).effects n).bind fun r => ?_
      cases r with
      | none =>
        refine ((h cap (by simp)).expression n).bind fun r => ?_
        cases r with
        | none =>
          exact (ih fun cap hcap => h cap (List.mem_cons_of_mem _ hcap)).mono fun _ _ hn _ _ => hn
        | some r => exact leaves_pure fun _ hn _ => hn rfl
      | some r => exact leaves_pure fun _ hn => hn rfl
  statement := by
    intro n
    dsimp only
    induction caps with
    | nil => exact leaves_refuse _ _
    | cons cap caps ih =>
      refine ((h cap (by simp)).statement n).bind fun r => ?_
      cases r with
      | none => exact (ih fun cap hcap => h cap (List.mem_cons_of_mem _ hcap)).mono fun _ _ hn _ => hn
      | some r => exact leaves_pure fun _ hn => hn rfl

/-- Conversion checks what it converts, at every depth. -/
theorem keepsGates_converter (k : Nat) : KeepsGates (converter defaultCapabilities k) := by
  induction k with
  | zero => exact ⟨fun _ => leaves_throw _, fun _ => leaves_throw _, fun _ => leaves_throw _⟩
  | succ k ih => exact keepsGates_first (defaultCapabilities_keepsGates ih)

/-- A converted module is checked. -/
theorem module_checked (source : List Node) :
    Leaves (Module.convert defaultCapabilities source) fun _ memory => AllChecked memory source := by
  refine ((keepsGates_converter _).statements source).bind fun statements => ?_
  intro context before m after h
  cases h
  exact ⟨.refl _, fun _ _ hs => hs⟩

end ScriptBridge.Conversion

namespace ScriptBridge

open Conversion TypeScript

/-- In a text that is converted, all live nodes have passed their gates: the oracle, asked after the
conversion, knows a fitting type for every condition, every source of a loop over values, and every
access with a key. -/
theorem convertSource_gates {fileName text : String} {place : Place} {s s' : Session}
    {nodes : List AiScript.Node}
    (h : convertSource defaultCapabilities fileName text place s = .ok nodes s') :
    ∃ file nextId, parseFrom s.program.nextId fileName text = .ok (file, nextId) ∧
      ∀ statement ∈ file.statements, ∀ n, Live statement n → gate s'.memory n := by
  unfold convertSource at h
  obtain ⟨m, s₁, hm, h⟩ := bind_ok h
  cases h
  obtain ⟨file, nextId, hp, context, before, after, -, hc, hs⟩ := convertText_run hm
  refine ⟨file, nextId, hp, fun statement hstatement n hn => ?_⟩
  rw [hs]
  exact (module_checked _ _ _ _ _ hc).2 _ (.refl _) statement hstatement n hn

/-- A loop over an array inside a loop with a test. -/
def nestedLoops : String :=
  "while (true) for (let x of [1]) break;"

/-- Whether statements are one loop over an array inside one with a test. -/
def isNestedLoops : List Node → Bool
  | [.whileStatement _ _ (.forOfStatement _ _ _ _ false)] => true
  | _ => false

theorem convertSource_gates_nested :
    ∃ nodes s' file nextId m test m' target items body,
      convertSource defaultCapabilities "main.ts" nestedLoops default default = .ok nodes s' ∧
      parseFrom 0 "main.ts" nestedLoops = .ok (file, nextId) ∧
      file.statements = [.whileStatement m test (.forOfStatement m' target items body false)] ∧
      Admits s'.memory test .boolean ∧
      (isArrayLiteral items = true ∨ Admits s'.memory items .array) := by
  have hc : endsWith (convertSource defaultCapabilities "main.ts" nestedLoops default default)
      (fun _ _ => true) = true := by
    decide +kernel
  have hw : succeedsWith (parseFrom 0 "main.ts" nestedLoops)
      (fun r => isNestedLoops r.1.statements) = true := by
    decide +kernel
  obtain ⟨nodes, s', hn, -⟩ := endsWith_iff.mp hc
  obtain ⟨file, nextId, hp, hg⟩ := convertSource_gates hn
  have hp : parseFrom 0 "main.ts" nestedLoops = .ok (file, nextId) := hp
  rw [hp] at hw
  have hw : isNestedLoops file.statements = true := hw
  unfold isNestedLoops at hw
  split at hw
  · rename_i m test m' target items body hs
    have hg := hg _ (hs ▸ List.mem_singleton_self _)
    have hlive : Live (.whileStatement m test (.forOfStatement m' target items body false))
        (.forOfStatement m' target items body false) :=
      .single (.tail _ (.head _))
    exact ⟨nodes, s', file, nextId, m, test, m', target, items, body, hn, hp, hs, hg _ .refl,
      hg _ hlive⟩
  · cases hw

end ScriptBridge
