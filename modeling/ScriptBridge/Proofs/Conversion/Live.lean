import Mathlib.Logic.Relation
import ScriptBridge.Conversion.Module
import ScriptBridge.Proofs.TypeScript.Children
import ScriptBridge.Proofs.Typing.Remembered

/-!
# Live parts and their gates

A part of a node is live unless conversion erases it. Erased are types, what is only declared, a
parameter that stands for the receiver, the start value of a loop variable, and what follows the jump
that ends a case. `Checked memory n`: every node that is live in `n` has passed its gate, as the answers
in `memory` show.

`Leaves m P` is how this is carried through a conversion. Every value that the step `m` gives satisfies
`P`, and so do all memories that extend the one after the step, because no answer is forgotten.

* `Node.live`, `Live`: live parts.
* `gate`, `Checked`: what a gate asks for, and what has passed.
* `Leaves.bind`: one step after another.
-/

namespace ScriptBridge.Conversion

open TypeScript Typing

/-! ## Live parts -/

/-- Whether a node is a parameter. -/
def isParameter : Node → Bool
  | .parameter .. => true
  | _ => false

/-- Whether a node is a part of a template. -/
def isTemplateSpan : Node → Bool
  | .templateSpan .. => true
  | _ => false

/-- Whether a node is an element of a pattern. -/
def isBindingElement : Node → Bool
  | .bindingElement .. => true
  | _ => false

/-- Whether a node is a clause of a switch. -/
def isClause : Node → Bool
  | .caseClause .. | .defaultClause .. => true
  | _ => false

/-- Whether a node is a list of variables. -/
def isVariableList : Node → Bool
  | .variableList .. => true
  | _ => false

/-- The parts of an element of an array pattern, which has no key. -/
def elementParts : Node → List Node
  | .bindingElement _ _ target fallback _ => target :: fallback.toList
  | _ => []

/-- The variable of a loop over values without its type and its start value. -/
def loopPattern : Node → Node
  | .variableList _ _ [.variableDeclaration _ pattern _ _] => pattern
  | target => target

/-- Statements up to the first one that leaves a case. -/
def upToJump : List Node → List Node
  | [] => []
  | s :: rest =>
    match s with
    | .breakStatement .. | .returnStatement .. => [s]
    | _ => s :: upToJump rest

theorem upToJump_cons {s : Node} (rest : List Node)
    (hb : ∀ m label, s ≠ .breakStatement m label) (hr : ∀ m value, s ≠ .returnStatement m value) :
    upToJump (s :: rest) = s :: upToJump rest := by
  rw [upToJump]
  · exact hb
  · exact hr

/-- The parts of a node that are not erased, unless the node is only declared. Parameters, elements of
patterns and templates, and clauses are the only nodes that a text puts in the lists for them. -/
def parts : Node → List Node
  | .typeAlias .. | .interfaceDeclaration .. | .importDeclaration .. | .exportDeclaration .. => []
  | .asType _ e _ | .satisfiesType _ e _ => [e]
  | .template _ _ spans => spans.filter isTemplateSpan
  | .arrow _ params body _ _ _ | .function _ _ params body _ _ _ _
  | .functionDeclaration _ _ _ params (some body) _ _ _ _ => params.filter isParameter ++ [body]
  | .functionDeclaration _ _ _ _ none _ _ _ _ => []
  | .method _ name params body _ _ _ _ => name :: params.filter isParameter ++ [body]
  | .parameter _ target _ fallback _ _ =>
    if isReceiver target then [] else target :: fallback.toList
  | .arrayPattern _ elements => elements.flatMap elementParts
  | .objectPattern _ elements => elements.filter isBindingElement
  | .variableDeclaration _ target _ value => target :: value.toList
  | .variableStatement _ _ list => [list].filter isVariableList
  | .forOfStatement _ target items body _ => [loopPattern target, items, body]
  | .switchStatement _ subject clauses => subject :: clauses.filter isClause
  | .caseClause _ test statements => test :: upToJump (openTail statements)
  | .defaultClause _ statements => upToJump (openTail statements)
  | n => n.children

/-- The live nodes directly inside a node. -/
def liveParts (n : Node) : List Node :=
  if hasModifier n.modifiers "declare" then [] else parts n

/-- `Live n k`: the node `k` is live in `n`, or `n` itself. -/
def Live : Node → Node → Prop :=
  Relation.ReflTransGen fun n k => k ∈ liveParts n

/-! ## Gates -/

/-- The oracle's answer about an expression, known by now. -/
def HasType (memory : Memory) (e : Node) (t : Ty) : Prop :=
  ∀ program, typeOf e program memory = .ok t memory

theorem hasType_iff {memory : Memory} {e : Node} {t : Ty} :
    HasType memory e t ↔ memory.expressions[e.id]? = some t :=
  ⟨fun h => typeOf_remembered (h default), typeOf_known⟩

theorem HasType.extend {before after : Memory} {e : Node} {t : Ty} (h : HasType before e t)
    (he : Extends before after) : HasType after e t :=
  hasType_iff.mpr (he _ _ (hasType_iff.mp h))

/-- An expression has a type that passes the gate for a kind. -/
def Admits (memory : Memory) (e : Node) (k : Kind) : Prop :=
  ∃ t, HasType memory e t ∧ passes t k = true

theorem Admits.extend {before after : Memory} {e : Node} {k : Kind} (h : Admits before e k)
    (he : Extends before after) : Admits after e k :=
  h.imp fun _ ⟨ht, hp⟩ => ⟨ht.extend he, hp⟩

/-- Whether a node is an array literal. -/
def isArrayLiteral : Node → Bool
  | .array .. => true
  | _ => false

/-- What the gate of a node asks for: conditions are truth values, loops go over arrays, and keys fit
what they are keys of. -/
def gate (memory : Memory) : Node → Prop
  | .ifStatement _ test _ _ | .whileStatement _ test _ | .doStatement _ _ test
  | .forStatement _ _ (some test) _ _ | .conditional _ test _ _ => Admits memory test .boolean
  | .forOfStatement _ _ items _ _ => isArrayLiteral items = true ∨ Admits memory items .array
  | .elementAccess _ target key _ => ∃ t, HasType memory target t ∧
      (t.isOpen = true ∨ t.fits .array = true ∧ Admits memory key .number ∨
        t.fits .object = true ∧ Admits memory key .string)
  | _ => True

theorem gate_extend {before after : Memory} (he : Extends before after) {n : Node}
    (h : gate before n) : gate after n := by
  unfold gate at h ⊢
  split
  · exact h.extend he
  · exact h.extend he
  · exact h.extend he
  · exact h.extend he
  · exact h.extend he
  · exact h.imp_right (·.extend he)
  · obtain ⟨t, ht, h⟩ := h
    refine ⟨t, ht.extend he, h.imp_right (Or.imp ?_ ?_)⟩
    · exact And.imp_right (·.extend he)
    · exact And.imp_right (·.extend he)
  · trivial

/-- Every node that is live in a node has passed its gate. -/
def Checked (memory : Memory) (n : Node) : Prop :=
  ∀ k, Live n k → gate memory k

/-- All live nodes of nodes have passed their gates. -/
def AllChecked (memory : Memory) (ns : List Node) : Prop :=
  ∀ n ∈ ns, Checked memory n

theorem Checked.extend {before after : Memory} {n : Node} (h : Checked before n)
    (he : Extends before after) : Checked after n :=
  fun k hk => gate_extend he (h k hk)

variable {memory : Memory} {n : Node} {ns ms : List Node}

/-- A node is checked if it has passed its gate and its live parts are checked. -/
theorem checked_iff : Checked memory n ↔ gate memory n ∧ AllChecked memory (liveParts n) := by
  constructor
  · exact fun h => ⟨h n .refl, fun k hk m hm => h m (.head hk hm)⟩
  · rintro ⟨hg, hl⟩ k hk
    cases hk.cases_head with
    | inl he => exact he ▸ hg
    | inr h =>
      obtain ⟨m, hm, hk⟩ := h
      exact hl m hm k hk

@[simp] theorem allChecked_nil : AllChecked memory [] :=
  fun _ h => nomatch h

@[simp] theorem allChecked_cons : AllChecked memory (n :: ns) ↔
    Checked memory n ∧ AllChecked memory ns :=
  List.forall_mem_cons

theorem allChecked_singleton : AllChecked memory [n] ↔ Checked memory n :=
  List.forall_mem_singleton

@[simp] theorem allChecked_append : AllChecked memory (ns ++ ms) ↔
    AllChecked memory ns ∧ AllChecked memory ms :=
  List.forall_mem_append

/-- A node without a gate of its own is checked if its live parts are. -/
theorem checked_of_parts (hg : gate memory n = True) (h : AllChecked memory (parts n)) :
    Checked memory n := by
  refine checked_iff.mpr ⟨hg ▸ trivial, ?_⟩
  unfold liveParts
  split
  · exact allChecked_nil
  · exact h

theorem checked_ident (i : Ident) : Checked memory (.ident i) :=
  checked_of_parts rfl allChecked_nil

/-- Only statements are declared, and those that may be have no gate. -/
theorem checked_declared (h : hasModifier n.modifiers "declare" = true) : Checked memory n := by
  refine checked_iff.mpr ⟨?_, ?_⟩
  · cases n <;> trivial
  · rw [liveParts, if_pos h]
    exact allChecked_nil

theorem allChecked_modifiers (modifiers : List Modifier) :
    AllChecked memory (modifiers.map Node.modifier) :=
  List.forall_mem_map.mpr fun _ _ => checked_of_parts rfl allChecked_nil

/-- The words before a declaration do not matter, unless they erase it. -/
theorem checked_of_setModifiers {modifiers : List Modifier}
    (hm : hasModifier modifiers "declare" = false) (h : Checked memory (n.setModifiers modifiers)) :
    Checked memory n := by
  obtain ⟨hg, hl⟩ := checked_iff.mp h
  have hlive : liveParts (n.setModifiers modifiers) = parts (n.setModifiers modifiers) := by
    refine if_neg ?_
    cases n <;> first
      | exact Bool.eq_false_iff.mp hm
      | exact Bool.false_ne_true
  rw [hlive] at hl
  cases n with
  | classDeclaration m old name =>
    refine checked_of_parts rfl (allChecked_append.mpr ⟨allChecked_modifiers old, ?_⟩)
    exact (allChecked_append.mp hl).2
  | enumDeclaration m old name members =>
    refine checked_of_parts rfl (allChecked_append.mpr ⟨allChecked_modifiers old, ?_⟩)
    exact (allChecked_append.mp hl).2
  | moduleDeclaration m old name statements =>
    refine checked_of_parts rfl (allChecked_append.mpr ⟨allChecked_modifiers old, ?_⟩)
    exact (allChecked_append.mp hl).2
  | functionDeclaration m old name params body =>
    cases body with
    | none => exact checked_of_parts rfl hl
    | some body => exact checked_of_parts rfl hl
  | variableStatement => exact checked_of_parts rfl hl
  | interfaceDeclaration => exact checked_of_parts rfl hl
  | typeAlias => exact checked_of_parts rfl hl
  | _ => exact h

theorem checked_unwrap : Checked memory n.unwrap ↔ Checked memory n :=
  iff_of_eq <| Node.apply_unwrap (g := Checked memory) (fun m e => by
    rw [checked_iff (n := .parenthesized m e)]
    simp [gate, liveParts, parts, hasModifier, Node.modifiers, Node.children]) n

end ScriptBridge.Conversion
