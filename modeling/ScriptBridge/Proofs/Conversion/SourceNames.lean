import ScriptBridge.Binding.Declare
import ScriptBridge.Proofs.Conversion.CallCount

/-!
# Names of a source

`speaks p n`: all names in the node `n` pass the test `p`. What parts of a node are taken out of it, or
are put in a new order, has no other names.
-/

namespace ScriptBridge.TypeScript.Node

/-- Whether all names in a node pass a test. -/
def speaks (p : String → Bool) (n : Node) : Bool :=
  n.fold fun n inside => inside.all (fun b => b) && match n with | .ident i => p i.name | _ => true

/-- Nodes all of whose names pass a test. -/
def Speak (p : String → Bool) (ns : List Node) : Prop :=
  ∀ n ∈ ns, n.speaks p = true

variable {p : String → Bool} {n : Node} {ns ms : List Node}

theorem speaks_iff : n.speaks p = true ↔
    Speak p n.children ∧ (match n with | .ident i => p i.name | _ => true) = true := by
  rw [speaks, fold_eq, Bool.and_eq_true, List.all_map, List.all_eq_true]
  rfl

theorem speak_children (h : n.speaks p = true) : Speak p n.children :=
  (speaks_iff.mp h).1

@[simp] theorem speaks_ident {i : Ident} : (ident i).speaks p = p i.name := by
  rw [speaks, fold_ident, List.all_nil, Bool.true_and]

@[simp] theorem speak_nil : Speak p [] :=
  fun _ h => nomatch h

@[simp] theorem speak_cons : Speak p (n :: ns) ↔ n.speaks p = true ∧ Speak p ns :=
  List.forall_mem_cons

@[simp] theorem speak_append : Speak p (ns ++ ms) ↔ Speak p ns ∧ Speak p ms :=
  List.forall_mem_append

@[simp] theorem speak_modifiers (ms : List Modifier) : Speak p (ms.map Node.modifier) := by
  intro n hn
  obtain ⟨m, -, rfl⟩ := List.mem_map.mp hn
  exact speaks_iff.mpr ⟨speak_nil, rfl⟩

@[simp] theorem speak_idents {o : Option Ident} :
    Speak p (o.toList.map Node.ident) ↔ ∀ i ∈ o, p i.name = true := by
  cases o <;> simp

theorem speaks_unwrap : n.unwrap.speaks p = n.speaks p := by
  refine apply_unwrap (fun m e => ?_) n
  rw [Bool.eq_iff_iff, speaks_iff]
  simp [children]

theorem speaks_setModifiers (ms : List Modifier) (h : n.speaks p = true) :
    (n.setModifiers ms).speaks p = true := by
  fun_cases setModifiers ms n
  case case8 => exact h
  all_goals
    refine speaks_iff.mpr ⟨?_, rfl⟩
    have := speak_children h
    simp only [children, speak_append, speak_modifiers, true_and] at this ⊢
    exact this

mutual
/-- A pattern binds names of the source. -/
theorem speaks_bindingIdentifiers (n : Node) (h : n.speaks p = true) :
    ∀ i ∈ Binding.bindingIdentifiers n, p i.name = true := by
  fun_cases Binding.bindingIdentifiers n with
  | case1 i => simpa using h
  | case2 m elements => exact speak_elementIdentifiers elements (speak_children h)
  | case3 m elements => exact speak_elementIdentifiers elements (speak_children h)
  | case4 => nofun
termination_by sizeOf n
decreasing_by all_goals (subst_vars; decreasing_tactic)

theorem speak_elementIdentifiers (ns : List Node) (h : Speak p ns) :
    ∀ i ∈ Binding.elementIdentifiers ns, p i.name = true := by
  fun_cases Binding.elementIdentifiers ns with
  | case1 => nofun
  | case2 m key target fallback isRest rest =>
    obtain ⟨hn, hr⟩ := speak_cons.mp h
    have ht : Speak p (key.toList ++ target :: fallback.toList) := speak_children hn
    simp only [speak_append, speak_cons] at ht
    exact List.forall_mem_append.mpr
      ⟨speaks_bindingIdentifiers target ht.2.1, speak_elementIdentifiers rest hr⟩
  | case3 n rest _ => exact speak_elementIdentifiers rest (speak_cons.mp h).2
termination_by sizeOf ns
decreasing_by all_goals (subst_vars; decreasing_tactic)
end

mutual
theorem speak_openLast (n : Node) (h : n.speaks p = true) : Speak p (Conversion.openLast n) := by
  fun_cases Conversion.openLast n with
  | case1 m statements => exact speak_openTail statements (speak_children h)
  | case2 n => simpa using h
termination_by sizeOf n
decreasing_by all_goals (subst_vars; decreasing_tactic)

theorem speak_openTail (ns : List Node) (h : Speak p ns) : Speak p (Conversion.openTail ns) := by
  fun_cases Conversion.openTail ns with
  | case1 => exact speak_nil
  | case2 n rest _ => exact speak_openLast n (speak_cons.mp h).1
  | case3 n rest _ =>
    obtain ⟨hn, hr⟩ := speak_cons.mp h
    exact speak_cons.mpr ⟨hn, speak_openTail rest hr⟩
termination_by sizeOf ns
decreasing_by all_goals (subst_vars; decreasing_tactic)
end

end ScriptBridge.TypeScript.Node
