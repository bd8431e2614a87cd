import ScriptBridge.TypeScript.Node.Fold

/-!
# Folds and children

A fold gives every node the value of the node and the values of its children. `fold_eq` says so in one
equation for all forms, so that a property of a fold is read off `Node.children`. What a node has in
common with parentheses around it, it has in common with `Node.unwrap` (`apply_unwrap`). `induct` is
induction from the children of a node to the node.
-/

namespace ScriptBridge.TypeScript.Node

variable {α : Type} (f : Node → List α → α)

theorem foldAll_eq (ns : List Node) : foldAll f ns = ns.map (fold f) := by
  induction ns with
  | nil => rfl
  | cons n ns ih => rw [foldAll, ih, List.map_cons]

theorem foldOption_eq (n : Option Node) : foldOption f n = n.toList.map (fold f) := by
  cases n <;> rfl

theorem foldLists_eq (ns : Option (List Node)) : foldLists f ns = (ns.getD []).map (fold f) := by
  cases ns with
  | none => rfl
  | some ns => exact foldAll_eq f ns

theorem foldIdent_eq (i : Option Ident) :
    foldIdent f i = (i.toList.map Node.ident).map (fold f) := by
  cases i <;> rfl

theorem foldModifiers_eq (ms : List Modifier) :
    foldModifiers f ms = (ms.map Node.modifier).map (fold f) := by
  rw [foldModifiers, List.map_map]
  rfl

theorem foldSpecifier_eq (s : Option (Mark × String)) :
    foldSpecifier f s = (s.toList.map fun (m, v) => Node.string m v).map (fold f) := by
  cases s <;> rfl

theorem fold_ident (i : Ident) : (ident i).fold f = f (ident i) [] := rfl

theorem fold_string (m : Mark) (value : String) :
    (string m value).fold f = f (string m value) [] := rfl

/-- The value of a node comes from the values of its children. -/
theorem fold_eq (n : Node) : n.fold f = f n (n.children.map (fold f)) := by
  -- The fold of a form is read off by computation; its equations would be many and slow to make.
  cases n <;> first
    | rfl
    | refine congrArg (f _) ?_
      dsimp only [children]
      simp only [fold_ident, fold_string, foldAll_eq, foldOption_eq, foldLists_eq, foldIdent_eq,
        foldModifiers_eq, foldSpecifier_eq, List.map_append, List.map_cons, List.map_nil,
        List.cons_append, List.nil_append, List.append_assoc]

/-! ## Induction -/

theorem le_foldl_max (ks : List Nat) (a : Nat) :
    a ≤ ks.foldl max a ∧ ∀ k ∈ ks, k ≤ ks.foldl max a := by
  induction ks generalizing a with
  | nil => simp
  | cons k ks ih =>
    obtain ⟨hmax, hall⟩ := ih (max a k)
    rw [List.foldl_cons]
    refine ⟨by omega, ?_⟩
    rintro k' hk
    rcases List.mem_cons.mp hk with rfl | hk
    · omega
    · exact hall k' hk

theorem foldl_max_le {ks : List Nat} {a b : Nat} (ha : a ≤ b) (h : ∀ k ∈ ks, k ≤ b) :
    ks.foldl max a ≤ b := by
  induction ks generalizing a with
  | nil => exact ha
  | cons k ks ih =>
    obtain ⟨hk, hks⟩ := List.forall_mem_cons.mp h
    exact ih (by omega) hks

theorem height_eq (n : Node) : n.height = (n.children.map height).foldl max 0 + 1 := by
  rw [height, fold_eq]
  rfl

theorem height_lt_of_mem_children {n m : Node} (h : m ∈ n.children) : m.height < n.height := by
  rw [height_eq n]
  exact Nat.lt_succ_of_le ((le_foldl_max _ 0).2 _ (List.mem_map_of_mem h))

theorem height_le_of_children {n m : Node} (h : ∀ k ∈ n.children, k ∈ m.children) :
    n.height ≤ m.height := by
  rw [height_eq n, height_eq m]
  refine Nat.succ_le_succ (foldl_max_le (Nat.zero_le _) fun k hk => ?_)
  obtain ⟨c, hc, rfl⟩ := List.mem_map.mp hk
  exact (le_foldl_max _ 0).2 _ (List.mem_map_of_mem (h c hc))

/-- What holds of a node if it holds of its children holds of all nodes. -/
theorem induct {P : Node → Prop} (h : ∀ n, (∀ m ∈ n.children, P m) → P n) (n : Node) : P n := by
  generalize hk : n.height = k
  induction k using Nat.strongRecOn generalizing n with
  | ind k ih =>
    subst hk
    exact h n fun m hm => ih m.height (height_lt_of_mem_children hm) m rfl

/-- The nodes of a tree are its root and those of its children. -/
theorem mem_preorder {n k : Node} :
    k ∈ n.preorder ↔ k = n ∨ ∃ m ∈ n.children, k ∈ m.preorder := by
  have h : n.preorder = n :: (n.children.map preorder).flatten := by
    rw [preorder, fold_eq]
    rfl
  rw [h, List.mem_cons, ← List.flatMap_def, List.mem_flatMap]

theorem mem_preorder_self (n : Node) : n ∈ n.preorder :=
  mem_preorder.mpr (.inl rfl)

theorem mem_preorder_of_children {n m k : Node} (hm : m ∈ n.children) (hk : k ∈ m.preorder) :
    k ∈ n.preorder :=
  mem_preorder.mpr (.inr ⟨m, hm, hk⟩)

/-! ## Parentheses -/

/-- What is the same for an expression in parentheses is the same without all of them. -/
theorem apply_unwrap {g : Node → α} (h : ∀ m e, g (parenthesized m e) = g e) (n : Node) :
    g n.unwrap = g n := by
  fun_induction unwrap n with
  | case1 m e ih => rw [ih, h]
  | case2 => rfl

theorem unwrap_ne_parenthesized (n : Node) (m : Mark) (e : Node) :
    n.unwrap ≠ .parenthesized m e := by
  fun_induction unwrap n with
  | case1 _ _ ih => exact ih
  | case2 _ h => exact h m e

theorem unwrap_unwrap (n : Node) : n.unwrap.unwrap = n.unwrap := by
  have h := n.unwrap_ne_parenthesized
  generalize n.unwrap = e at *
  unfold unwrap
  split
  · exact absurd rfl (h _ _)
  · rfl

end ScriptBridge.TypeScript.Node
