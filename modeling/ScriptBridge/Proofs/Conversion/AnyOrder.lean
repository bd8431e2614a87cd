import Mathlib.Data.List.Permutation
import ScriptBridge.Proofs.Conversion.AlikeCapabilities
import ScriptBridge.Proofs.Project.Sources

/-!
# The order of the capabilities

A node is converted by the first capability that does not decline it. Almost every form is declined by
all capabilities but one, so the order does not matter to it. Three kinds of nodes are taken by more:
parentheses, which the operators open all at once where the value is not used; declarations that have
no counterpart, which all that take them erase or refuse alike; and exported functions and variables,
which must not be converted before they are exported. So any order with the exports before the functions
and the variables gives the same trees up to places, and the same faults.

* `expressionTaker`, `statementTaker`: the capability for a form.
* `ExportsFirst`: the orders in question.
* `Setting.alike_converter`: conversion in two orders.
* `convertSource_anyOrder`: texts.
-/

namespace ScriptBridge.Conversion

open TypeScript
open AiScript (Like LikeAll LikeOption)

/-! ## Who takes a node -/

/-- The name of the capability for an expression. -/
def expressionTaker : Node → String
  | .number .. | .string .. | .boolean .. | .null .. | .plainTemplate .. | .template ..
  | .array .. | .object .. => "literals"
  | .ident .. | .parenthesized .. => "identifiers"
  | .binary .. | .prefixUnary .. | .postfixUnary .. | .typeOf .. | .voidOf .. | .deleteOf ..
  | .awaitOf .. => "operators"
  | .call .. | .propertyAccess .. | .elementAccess .. | .construct .. => "access"
  | .arrow .. | .function .. => "functions"
  | .conditional .. => "control"
  | .asType .. | .satisfiesType .. | .nonNull .. => "types"
  | _ => ""

/-- The name of the capability for a statement that is neither exported nor declared only. -/
def statementTaker : Node → String
  | .importDeclaration .. => "imports"
  | .functionDeclaration .. => "functions"
  | .variableStatement .. => "variables"
  | .typeAlias .. | .interfaceDeclaration .. | .moduleDeclaration .. => "types"
  | .ifStatement .. | .forStatement .. | .whileStatement .. | .doStatement .. | .forOfStatement ..
  | .forInStatement .. | .switchStatement .. => "control"
  | .expressionStatement .. | .block .. | .empty .. | .returnStatement .. | .labeled ..
  | .breakStatement .. | .continueStatement .. => "statements"
  | _ => ""

/-- Whether a statement has no counterpart. -/
def isErased : Node → Bool
  | .typeAlias .. | .interfaceDeclaration .. => true
  | n => hasModifier n.modifiers "declare"

section
variable {c : Converter} {n : Node}

theorem types_statement_erased (h : isErased n = true) :
    types.statement c n = some <$> (pure [] : ConvertM (List AiScript.Node)) := by
  dsimp only [types]
  split
  · rfl
  · rfl
  · rw [if_pos (by simpa [isErased] using h)]
    rfl

theorem exportDeclared_erased (h : isErased n = true) : exportDeclared c n = pure [] := by
  unfold exportDeclared
  split
  · rfl
  · rename_i hd
    cases n with
    | typeAlias | interfaceDeclaration => rfl
    | _ => exact absurd h hd

theorem exports_statement_erased (h : isErased n = true) : exports.statement c n = pure none ∨
    exports.statement c n = some <$> (pure [] : ConvertM (List AiScript.Node)) := by
  dsimp only [exports]
  split
  iterate 4
    · exact absurd h Bool.false_ne_true
  split
  · rw [exportDeclared_erased h]
    exact .inr rfl
  · exact .inl rfl

theorem functions_statement_erased (h : isErased n = true) : functions.statement c n = pure none ∨
    functions.statement c n = some <$> (pure [] : ConvertM (List AiScript.Node)) := by
  dsimp only [functions]
  split
  · exact .inr (if_pos h)
  · exact .inr rfl
  · exact .inl rfl

variable {cap : Capability} (hcap : cap ∈ defaultCapabilities)
include hcap

theorem expression_declined (h : cap.name ≠ expressionTaker n) :
    cap.expression c n = pure none := by
  simp only [defaultCapabilities, List.mem_cons, List.not_mem_nil, or_false] at hcap
  rcases hcap with rfl | rfl | rfl | rfl | rfl | rfl | rfl | rfl | rfl | rfl | rfl <;>
    first
    | rfl
    | cases n <;> first | rfl | exact absurd rfl h

theorem effects_declined (h : cap.name ≠ expressionTaker n)
    (ho : ∀ m e, n = .parenthesized m e → cap.name ≠ "operators") : cap.effects c n = pure none := by
  simp only [defaultCapabilities, List.mem_cons, List.not_mem_nil, or_false] at hcap
  rcases hcap with rfl | rfl | rfl | rfl | rfl | rfl | rfl | rfl | rfl | rfl | rfl <;>
    first
    | rfl
    | cases n <;> first | rfl | exact absurd rfl h | exact absurd rfl (ho _ _ rfl)

theorem statement_declined (h : cap.name ≠ statementTaker n)
    (he : isExport n = true → cap.name ≠ "exports")
    (hd : hasModifier n.modifiers "declare" = true → cap.name ≠ "types") :
    cap.statement c n = pure none := by
  simp only [defaultCapabilities, List.mem_cons, List.not_mem_nil, or_false] at hcap
  rcases hcap with rfl | rfl | rfl | rfl | rfl | rfl | rfl | rfl | rfl | rfl | rfl
  case inr.inl =>
    have he : isExport n ≠ true := fun hx => he hx rfl
    dsimp only [exports]
    split
    iterate 4
      · exact absurd rfl he
    · exact if_neg fun hm => he (isExport_of_modifier hm)
  case inr.inr.inl =>
    have hd : hasModifier n.modifiers "declare" ≠ true := fun hx => hd hx rfl
    dsimp only [types]
    split
    · exact absurd rfl h
    · exact absurd rfl h
    rw [if_neg hd]
    split
    · exact absurd rfl h
    · rfl
  all_goals first
    | rfl
    | cases n <;> first | rfl | exact absurd rfl h

theorem statement_erased (h : isErased n = true) : cap.statement c n = pure none ∨
    cap.statement c n = some <$> (pure [] : ConvertM (List AiScript.Node)) := by
  simp only [defaultCapabilities, List.mem_cons, List.not_mem_nil, or_false] at hcap
  rcases hcap with rfl | rfl | rfl | rfl | rfl | rfl | rfl | rfl | rfl | rfl | rfl
  all_goals first
    | exact .inl rfl
    | exact .inr (types_statement_erased h)
    | exact exports_statement_erased h
    | exact functions_statement_erased h
    | cases n <;> first
      | exact .inl rfl
      | exact .inr (if_pos h)

end

/-! ## The first that takes it -/

section
variable {c : Converter} {n : Node} {caps : List Capability} (p : Capability → Bool)

theorem firstExpression_filter
    (h : ∀ cap ∈ caps, p cap = false → cap.expression c n = pure none) :
    firstExpression c n caps = firstExpression c n (caps.filter p) := by
  induction caps with
  | nil => rfl
  | cons cap caps ih =>
    obtain ⟨hcap, hcaps⟩ := List.forall_mem_cons.mp h
    cases hp : p cap with
    | true => simp only [List.filter_cons, hp, if_true, firstExpression, ih hcaps]
    | false =>
      simp only [List.filter_cons, hp, Bool.false_eq_true, if_false, firstExpression, hcap hp,
        pure_bind, ih hcaps]

theorem firstEffects_filter
    (h : ∀ cap ∈ caps, p cap = false →
      cap.effects c n = pure none ∧ cap.expression c n = pure none) :
    firstEffects c n caps = firstEffects c n (caps.filter p) := by
  induction caps with
  | nil => rfl
  | cons cap caps ih =>
    obtain ⟨hcap, hcaps⟩ := List.forall_mem_cons.mp h
    cases hp : p cap with
    | true => simp only [List.filter_cons, hp, if_true, firstEffects, ih hcaps]
    | false =>
      simp only [List.filter_cons, hp, Bool.false_eq_true, if_false, firstEffects, (hcap hp).1,
        (hcap hp).2, pure_bind, ih hcaps]

theorem firstStatement_filter (h : ∀ cap ∈ caps, p cap = false → cap.statement c n = pure none) :
    firstStatement c n caps = firstStatement c n (caps.filter p) := by
  induction caps with
  | nil => rfl
  | cons cap caps ih =>
    obtain ⟨hcap, hcaps⟩ := List.forall_mem_cons.mp h
    cases hp : p cap with
    | true => simp only [List.filter_cons, hp, if_true, firstStatement, ih hcaps]
    | false =>
      simp only [List.filter_cons, hp, Bool.false_eq_true, if_false, firstStatement, hcap hp,
        pure_bind, ih hcaps]

end

/-- If all capabilities that take a statement make the same of it, then so does conversion. -/
theorem firstStatement_of_agree {c : Converter} {n : Node} {caps : List Capability}
    {m : ConvertM (List AiScript.Node)}
    (h : ∀ cap ∈ caps, cap.statement c n = pure none ∨ cap.statement c n = some <$> m)
    (hx : ∃ cap ∈ caps, cap.statement c n = some <$> m) :
    firstStatement c n caps = List.map (stamp n) <$> m := by
  induction caps with
  | nil =>
    obtain ⟨_, ⟨⟩, _⟩ := hx
  | cons cap caps ih =>
    obtain ⟨hcap, hcaps⟩ := List.forall_mem_cons.mp h
    by_cases htakes : cap.statement c n = some <$> m
    · simp only [firstStatement, htakes, bind_map_left]
      exact bind_pure_comp _ _
    · have hnone := hcap.resolve_right htakes
      simp only [firstStatement, hnone, pure_bind]
      refine ih hcaps ?_
      obtain ⟨cap', hmem, heq⟩ := hx
      rcases List.mem_cons.mp hmem with rfl | hmem
      · exact absurd heq htakes
      · exact ⟨cap', hmem, heq⟩

/-! ## Orders -/

/-- An order of all capabilities with the exports before what would convert an exported declaration. -/
structure ExportsFirst (caps : List Capability) : Prop where
  perm : caps.Perm defaultCapabilities
  functions : [exports, functions].Sublist caps
  declarations : [exports, declarations].Sublist caps

theorem exportsFirst_default : ExportsFirst defaultCapabilities where
  perm := .refl _
  functions := by
    have : defaultCapabilities.filter (["exports", "functions"].contains ·.name) =
        [exports, functions] := rfl
    exact this ▸ List.filter_sublist
  declarations := by
    have : defaultCapabilities.filter (["exports", "variables"].contains ·.name) =
        [exports, declarations] := rfl
    exact this ▸ List.filter_sublist

namespace ExportsFirst

variable {caps : List Capability} (hP : ExportsFirst caps)
include hP

theorem mem_iff {cap : Capability} : cap ∈ caps ↔ cap ∈ defaultCapabilities :=
  hP.perm.mem_iff

/-- Capabilities that keep their order among themselves are found in that order. -/
theorem filter_eq {p : Capability → Bool} (h : (defaultCapabilities.filter p).Sublist caps) :
    caps.filter p = defaultCapabilities.filter p := by
  have hsub := h.filter p
  simp only [List.filter_filter, Bool.and_self] at hsub
  exact (hsub.eq_of_length (hP.perm.filter p).length_eq.symm).symm

/-- There is one capability of a name. -/
theorem filter_name_eq (name : String) :
    caps.filter (·.name == name) = defaultCapabilities.filter (·.name == name) := by
  refine hP.filter_eq ?_
  by_cases h : ∃ cap ∈ defaultCapabilities, cap.name = name
  · obtain ⟨cap, hcap, rfl⟩ := h
    have : defaultCapabilities.filter (·.name == cap.name) = [cap] := by
      simp only [defaultCapabilities, List.mem_cons, List.not_mem_nil, or_false] at hcap
      rcases hcap with rfl | rfl | rfl | rfl | rfl | rfl | rfl | rfl | rfl | rfl | rfl <;> rfl
    rw [this]
    exact List.singleton_sublist.mpr (hP.mem_iff.mpr hcap)
  · have : defaultCapabilities.filter (·.name == name) = [] :=
      List.filter_eq_nil_iff.mpr fun cap hcap heq => h ⟨cap, hcap, beq_iff_eq.mp heq⟩
    rw [this]
    exact List.nil_sublist _

/-! ### Expressions -/

theorem firstExpression_eq (c : Converter) (n : Node) : firstExpression c n caps =
    firstExpression c n (defaultCapabilities.filter (·.name == expressionTaker n)) := by
  rw [← hP.filter_name_eq]
  refine firstExpression_filter _ fun cap hcap hp => ?_
  exact expression_declined (hP.mem_iff.mp hcap) (beq_eq_false_iff_ne.mp hp)

theorem firstEffects_eq (c : Converter) {n : Node} (h : ∀ m e, n ≠ .parenthesized m e) :
    firstEffects c n caps =
      firstEffects c n (defaultCapabilities.filter (·.name == expressionTaker n)) := by
  rw [← hP.filter_name_eq]
  refine firstEffects_filter _ fun cap hcap hp => ?_
  have hmem := hP.mem_iff.mp hcap
  have hne := beq_eq_false_iff_ne.mp hp
  exact ⟨effects_declined hmem hne fun m e he => absurd he (h m e), expression_declined hmem hne⟩

/-- Where a value is not used, parentheses are taken by two capabilities. -/
theorem firstEffects_parenthesized (c : Converter) (m : Mark) (e : Node) :
    firstEffects c (.parenthesized m e) caps = firstEffects c (.parenthesized m e)
      (caps.filter (["identifiers", "operators"].contains ·.name)) := by
  refine firstEffects_filter _ fun cap hcap hp => ?_
  have hmem := hP.mem_iff.mp hcap
  have hi : cap.name ≠ "identifiers" := fun he => by simp [he] at hp
  have ho : cap.name ≠ "operators" := fun he => by simp [he] at hp
  exact ⟨effects_declined hmem hi fun _ _ _ => ho, expression_declined hmem hi⟩

theorem parentheses_order :
    caps.filter (["identifiers", "operators"].contains ·.name) = [identifiers, operators] ∨
      caps.filter (["identifiers", "operators"].contains ·.name) = [operators, identifiers] :=
  List.perm_pair.mp (hP.perm.filter _)

/-! ### Statements -/

/-- Statements without any counterpart are erased by all that take them. -/
theorem firstStatement_erased (c : Converter) {n : Node} (h : isErased n = true) :
    firstStatement c n caps = pure [] := by
  have hm : List.map (stamp n) <$> (pure [] : ConvertM (List AiScript.Node)) = pure [] := rfl
  rw [← hm]
  refine firstStatement_of_agree (fun cap hcap => ?_) ⟨types, hP.mem_iff.mpr ?_, ?_⟩
  · exact statement_erased (hP.mem_iff.mp hcap) h
  · simp [defaultCapabilities]
  · exact types_statement_erased h

theorem converter_erased (k : Nat) {n : Node} (h : isErased n = true) :
    (converter caps (k + 1)).statement n = pure [] :=
  hP.firstStatement_erased _ h

/-- A namespace is refused by all that take it. -/
theorem firstStatement_namespace {c : Converter} {m : Mark} {modifiers : List Modifier}
    {name : Ident} {inner : List Node} (hd : hasModifier modifiers "declare" = false)
    (hc : hasModifier modifiers "export" = true →
      c.statement (withoutExport (.moduleDeclaration m modifiers name inner)) =
        refuse .space (.moduleDeclaration m modifiers name inner)) :
    firstStatement c (.moduleDeclaration m modifiers name inner) caps =
      refuse .space (.moduleDeclaration m modifiers name inner) := by
  generalize hn : Node.moduleDeclaration m modifiers name inner = n at *
  have htypes : types.statement c n = some <$> (refuse .space n : ConvertM (List AiScript.Node)) := by
    subst hn
    exact if_neg (ne_true_of_eq_false hd)
  have hexports : exports.statement c n = pure none ∨
      exports.statement c n = some <$> (refuse .space n : ConvertM (List AiScript.Node)) := by
    subst hn
    cases he : hasModifier modifiers "export" with
    | false => exact .inl (if_neg (ne_true_of_eq_false he))
    | true =>
      have hdeclared : exportDeclared c (.moduleDeclaration m modifiers name inner) =
          c.statement (withoutExport (.moduleDeclaration m modifiers name inner)) :=
        if_neg (ne_true_of_eq_false hd)
      refine .inr ((if_pos he).trans ?_)
      rw [hdeclared, hc he]
      rfl
  have hm : List.map (stamp n) <$> (refuse .space n : ConvertM (List AiScript.Node)) =
      refuse .space n := rfl
  rw [← hm]
  refine firstStatement_of_agree (fun cap hcap => ?_) ⟨types, hP.mem_iff.mpr ?_, htypes⟩
  · have hcap := hP.mem_iff.mp hcap
    simp only [defaultCapabilities, List.mem_cons, List.not_mem_nil, or_false] at hcap
    rcases hcap with rfl | rfl | rfl | rfl | rfl | rfl | rfl | rfl | rfl | rfl | rfl
    all_goals first
      | exact .inr htypes
      | exact hexports
      | exact .inl (hn ▸ rfl)
  · simp [defaultCapabilities]

theorem converter_namespace {k : Nat} {m : Mark} {modifiers : List Modifier} {name : Ident}
    {inner : List Node} (h : isErased (.moduleDeclaration m modifiers name inner) = false)
    (hk : (Node.moduleDeclaration m modifiers name inner).cost ≤ k) :
    (converter caps (k + 1)).statement (.moduleDeclaration m modifiers name inner) =
      refuse .space (.moduleDeclaration m modifiers name inner) := by
  refine hP.firstStatement_namespace h fun he => ?_
  obtain ⟨k, rfl⟩ : ∃ i, k = i + 1 := by
    refine Nat.exists_eq_succ_of_ne_zero (Nat.ne_of_gt (Nat.lt_of_lt_of_le ?_ hk))
    exact Nat.lt_of_lt_of_le (by rw [Node.height_eq]; omega) (Nat.le_add_right _ _)
  have hunmarked := Node.hasModifier_withoutExport (.moduleDeclaration m modifiers name inner)
  refine hP.firstStatement_namespace ?_ fun he => absurd he (ne_true_of_eq_false hunmarked)
  have hd : ∀ modifier ∈ modifiers, ¬ (modifier.word == "declare") = true :=
    List.any_eq_false.mp h
  exact List.any_eq_false.mpr fun modifier hm => hd modifier (List.mem_filter.mp hm).1

/-- Every other statement is taken by one capability, or by the exports and then by that one. -/
theorem firstStatement_eq (c : Converter) {n : Node} (h : isErased n = false)
    (hn : ∀ m modifiers name inner, n ≠ .moduleDeclaration m modifiers name inner) :
    firstStatement c n caps = firstStatement c n (defaultCapabilities.filter fun cap =>
      cap.name == statementTaker n || (isExport n && cap.name == "exports")) := by
  have hd : hasModifier n.modifiers "declare" ≠ true := by
    intro hd
    unfold isErased at h
    split at h
    · cases h
    · cases h
    · exact absurd hd (ne_true_of_eq_false h)
  have hfilter : firstStatement c n caps = firstStatement c n (caps.filter fun cap =>
      cap.name == statementTaker n || (isExport n && cap.name == "exports")) := by
    refine firstStatement_filter _ fun cap hcap hp => ?_
    rw [Bool.or_eq_false_iff] at hp
    refine statement_declined (hP.mem_iff.mp hcap) (beq_eq_false_iff_ne.mp hp.1) ?_
      fun hd' => absurd hd' hd
    rintro he hx
    rw [he, hx] at hp
    cases hp.2
  rw [hfilter]
  cases he : isExport n with
  | false =>
    simp only [Bool.false_and, Bool.or_false]
    rw [hP.filter_name_eq]
  | true =>
    rw [hP.filter_eq]
    have hone : [exports].Sublist caps :=
      List.singleton_sublist.mpr (hP.mem_iff.mpr (by simp [defaultCapabilities]))
    simp only [Bool.true_and]
    cases n with
    | functionDeclaration => exact hP.functions
    | variableStatement => exact hP.declarations
    | moduleDeclaration => exact absurd rfl (hn _ _ _ _)
    | typeAlias | interfaceDeclaration => cases h
    | exportDeclaration | exportAssignment | classDeclaration | enumDeclaration => exact hone
    | _ => exact absurd he Bool.false_ne_true

end ExportsFirst

/-! ## Parentheses where a value is not used -/

section
variable {c : Converter} {n : Node} {cap : Capability} {caps : List Capability}

theorem firstEffects_of_takes {m : ConvertM (List AiScript.Node)}
    (h : cap.effects c n = some <$> m) :
    firstEffects c n (cap :: caps) = List.map (stamp n) <$> m := by
  simp only [firstEffects, h, bind_map_left]
  exact bind_pure_comp _ _

theorem firstEffects_of_declines (h : cap.effects c n = pure none)
    (h' : cap.expression c n = pure none) :
    firstEffects c n (cap :: caps) = firstEffects c n caps := by
  simp only [firstEffects, h, h', pure_bind]

variable (c)

theorem identifiers_effects (m : Mark) (e : Node) :
    identifiers.effects c (.parenthesized m e) = some <$> c.effects e :=
  bind_pure_comp _ _

/-- The operators open all parentheses around what they take. -/
theorem operators_effects_parenthesized (m : Mark) (e : Node) :
    operators.effects c (.parenthesized m e) = operators.effects c e :=
  rfl

theorem operators_effects_cases (n : Node) : operators.effects c n = pure none ∨
    expressionTaker n.unwrap = "operators" ∧ ∃ m, operators.effects c n = some <$> m := by
  have step (operator : String) (operand : Node) :
      (do return some [stepBy operator (← assignTarget c operand)]) =
        some <$> (fun target => [stepBy operator target]) <$> assignTarget c operand := by
    simp only [bind_pure_comp, Functor.map_map]
  dsimp only [operators]
  split
  · split
    · exact .inr ⟨by simp [*, expressionTaker], _, bind_pure_comp _ _⟩
    · exact .inl rfl
  · split
    · exact .inr ⟨by simp [*, expressionTaker], _, step _ _⟩
    · exact .inl rfl
  · exact .inr ⟨by simp [*, expressionTaker], _, step _ _⟩
  · exact .inl rfl

end

namespace Setting

variable {w : Setting} {n : Node} {c d : Converter}

/-! ## Places do not matter -/

theorem like_stamp {known : String → Prop} {x y : AiScript.Node} (n m : Node)
    (h : Like known x y) : Like known (stamp n x) (stamp m y) := by
  unfold stamp
  split <;> split
  · exact (h.setLoc_left _).setLoc_right _
  · exact h.setLoc_left _
  · exact h.setLoc_right _
  · exact h

theorem likeAll_stamp {known : String → Prop} {xs ys : List AiScript.Node} (n m : Node)
    (h : LikeAll known xs ys) : LikeAll known (xs.map (stamp n)) (ys.map (stamp m)) := by
  induction xs generalizing ys with
  | nil =>
    cases h
    exact .nil
  | cons x xs ih =>
    obtain _ | ⟨h, hs⟩ := h
    exact .cons (like_stamp n m h) (ih hs)

theorem likeAll_of_stamp {known : String → Prop} {xs ys : List AiScript.Node} {n : Node}
    (h : LikeAll known (xs.map (stamp n)) ys) : LikeAll known xs ys := by
  induction xs generalizing ys with
  | nil =>
    cases h
    exact .nil
  | cons x xs ih =>
    obtain _ | ⟨h, hs⟩ := h
    refine .cons ?_ (ih hs)
    unfold stamp at h
    split at h
    · exact h.of_setLoc_left
    · exact h

/-- Results that were given places may be given others. -/
theorem Alike.restamp {m m' : ConvertM (List AiScript.Node)} {n : Node} (k l : Node)
    (h : w.Alike (LikeAll w.known) (List.map (stamp n) <$> m) m') :
    w.Alike (LikeAll w.known) (List.map (stamp k) <$> m) (List.map (stamp l) <$> m') :=
  h.of_map.map fun _ _ hs => likeAll_stamp k l (likeAll_of_stamp hs)

/-! ## The first capability that takes a node -/

section
variable {caps : List Capability} (h : ∀ cap ∈ caps, w.KeepsAt n cap c d)
include h

theorem firstExpression_alike :
    w.Alike (Like w.known) (firstExpression c n caps) (firstExpression d n caps) := by
  induction caps with
  | nil => exact alike_refuse _ _
  | cons cap caps ih =>
    obtain ⟨hcap, hcaps⟩ := List.forall_mem_cons.mp h
    refine hcap.expression.bind fun r r' hr => ?_
    cases hr with
    | none => exact ih hcaps
    | some hr => exact alike_pure (like_stamp n n hr)

theorem firstEffects_alike :
    w.Alike (LikeAll w.known) (firstEffects c n caps) (firstEffects d n caps) := by
  induction caps with
  | nil => exact alike_refuse _ _
  | cons cap caps ih =>
    obtain ⟨hcap, hcaps⟩ := List.forall_mem_cons.mp h
    refine hcap.effects.bind fun r r' hr => ?_
    cases hr with
    | some hr => exact alike_pure (likeAll_stamp n n hr)
    | none =>
      refine hcap.expression.bind fun r r' hr => ?_
      cases hr with
      | none => exact ih hcaps
      | some hr => exact alike_pure (AiScript.likeAll_singleton (like_stamp n n hr))

theorem firstStatement_alike :
    w.Alike (LikeAll w.known) (firstStatement c n caps) (firstStatement d n caps) := by
  induction caps with
  | nil => exact alike_refuse _ _
  | cons cap caps ih =>
    obtain ⟨hcap, hcaps⟩ := List.forall_mem_cons.mp h
    refine hcap.statement.bind fun r r' hr => ?_
    cases hr with
    | none => exact ih hcaps
    | some hr => exact alike_pure (likeAll_stamp n n hr)

end

/-! ## All orders -/

/-- A node that two converters convert alike. -/
structure KeepsNode (w : Setting) (n : Node) (c d : Converter) : Prop where
  expression : w.Alike (Like w.known) (c.expression n) (d.expression n)
  effects : w.Alike (LikeAll w.known) (c.effects n) (d.effects n)
  statement : w.Alike (LikeAll w.known) (c.statement n) (d.statement n)

variable {caps : List Capability}

theorem converter_statement_alike (hP : ExportsFirst caps) {k j : Nat} (hn : w.fits n)
    (hk : n.cost ≤ k) (hj : n.cost ≤ j)
    (hc : (w.below n).Keeps (converter caps k) (converter defaultCapabilities j)) :
    w.Alike (LikeAll w.known) ((converter caps (k + 1)).statement n)
      ((converter defaultCapabilities (j + 1)).statement n) := by
  cases he : isErased n with
  | true =>
    rw [hP.converter_erased k he, exportsFirst_default.converter_erased j he]
    exact alike_pure .nil
  | false =>
    by_cases hspace : ∃ m modifiers name inner, n = .moduleDeclaration m modifiers name inner
    · obtain ⟨m, modifiers, name, inner, rfl⟩ := hspace
      rw [hP.converter_namespace he hk, exportsFirst_default.converter_namespace he hj]
      exact alike_refuse _ _
    · change w.Alike _ (firstStatement (converter caps k) n caps)
        (firstStatement (converter defaultCapabilities j) n defaultCapabilities)
      rw [hP.firstStatement_eq _ he fun _ _ _ _ h => hspace ⟨_, _, _, _, h⟩,
        exportsFirst_default.firstStatement_eq _ he fun _ _ _ _ h => hspace ⟨_, _, _, _, h⟩]
      exact firstStatement_alike fun cap hcap =>
        defaultCapabilities_keepsAt hc hn cap (List.mem_filter.mp hcap).1

/-- Parentheses where a value is not used are opened one by one or all at once. -/
theorem parenthesized_alike (hP : ExportsFirst caps) {k j : Nat} {m : Mark} {e : Node}
    (hone : w.Alike (LikeAll w.known) ((converter caps k).effects e)
      ((converter defaultCapabilities j).effects e))
    (hall : w.Alike (LikeAll w.known) ((converter caps (k + 1)).effects e)
      ((converter defaultCapabilities j).effects e)) :
    w.Alike (LikeAll w.known) ((converter caps (k + 1)).effects (.parenthesized m e))
      ((converter defaultCapabilities (j + 1)).effects (.parenthesized m e)) := by
  have hright : (converter defaultCapabilities (j + 1)).effects (.parenthesized m e) =
      List.map (stamp (.parenthesized m e)) <$> (converter defaultCapabilities j).effects e :=
    (exportsFirst_default.firstEffects_parenthesized _ m e).trans
      (firstEffects_of_takes (identifiers_effects _ m e))
  have hleft := hP.firstEffects_parenthesized (converter caps k) m e
  change w.Alike _ (firstEffects (converter caps k) (.parenthesized m e) caps) _
  rw [hright, hleft]
  have one : w.Alike (LikeAll w.known)
      (List.map (stamp (.parenthesized m e)) <$> (converter caps k).effects e)
      (List.map (stamp (.parenthesized m e)) <$> (converter defaultCapabilities j).effects e) :=
    hone.map fun _ _ => likeAll_stamp _ _
  rcases hP.parentheses_order with hcaps | hcaps
  · rw [hcaps, firstEffects_of_takes (identifiers_effects _ m e)]
    exact one
  rw [hcaps]
  have hsame := operators_effects_parenthesized (converter caps k) m e
  rcases operators_effects_cases (converter caps k) e with hdeclined | ⟨htaker, step, hstep⟩
  · rw [firstEffects_of_declines (hsame.trans hdeclined) rfl,
      firstEffects_of_takes (identifiers_effects _ m e)]
    exact one
  · rw [firstEffects_of_takes (hsame.trans hstep)]
    have heffects : (converter caps (k + 1)).effects e = List.map (stamp e) <$> step := by
      change firstEffects (converter caps k) e caps = _
      by_cases hn : ∃ m' e', e = .parenthesized m' e'
      · obtain ⟨m', e', rfl⟩ := hn
        rw [hP.firstEffects_parenthesized, hcaps]
        exact firstEffects_of_takes hstep
      · have hunwrap : e.unwrap = e := by
          unfold Node.unwrap
          split
          · exact absurd ⟨_, _, rfl⟩ hn
          · rfl
        rw [hunwrap] at htaker
        rw [hP.firstEffects_eq _ fun _ _ h => hn ⟨_, _, h⟩, htaker]
        exact firstEffects_of_takes hstep
    rw [heffects] at hall
    exact hall.restamp _ _

theorem keepsNode_converter (hP : ExportsFirst caps) {k j : Nat} (hn : w.fits n)
    (hk : n.cost < k) (hj : n.cost < j) :
    w.KeepsNode n (converter caps k) (converter defaultCapabilities j) := by
  generalize hcost : n.cost = cost at hk hj
  induction cost using Nat.strongRecOn generalizing n k j with
  | ind cost ih =>
    subst hcost
    obtain ⟨k, rfl⟩ := Nat.exists_eq_succ_of_ne_zero (Nat.ne_zero_of_lt hk)
    obtain ⟨j, rfl⟩ := Nat.exists_eq_succ_of_ne_zero (Nat.ne_zero_of_lt hj)
    have inner {m : Node} {i l : Nat} (h : (w.below n).fits m) (hi : n.cost ≤ i) (hl : n.cost ≤ l) :
        w.KeepsNode m (converter caps i) (converter defaultCapabilities l) :=
      ih _ h.2 h.1 rfl (Nat.lt_of_lt_of_le h.2 hi) (Nat.lt_of_lt_of_le h.2 hl)
    have hk : n.cost ≤ k := Nat.le_of_lt_succ hk
    have hj : n.cost ≤ j := Nat.le_of_lt_succ hj
    have hc : (w.below n).Keeps (converter caps k) (converter defaultCapabilities j) :=
      ⟨fun h => (inner h hk hj).expression, fun h => (inner h hk hj).effects,
        fun h => (inner h hk hj).statement⟩
    have hcaps := defaultCapabilities_keepsAt hc hn
    refine ⟨?_, ?_, converter_statement_alike hP hn hk hj hc⟩
    · change w.Alike _ (firstExpression (converter caps k) n caps)
        (firstExpression (converter defaultCapabilities j) n defaultCapabilities)
      rw [hP.firstExpression_eq, exportsFirst_default.firstExpression_eq]
      exact firstExpression_alike fun cap hcap => hcaps cap (List.mem_filter.mp hcap).1
    · by_cases hn' : ∃ m e, n = .parenthesized m e
      · obtain ⟨m, e, rfl⟩ := hn'
        have he : (w.below (.parenthesized m e)).fits e :=
          allFit_below hn e (by simp [Node.children])
        refine parenthesized_alike hP (inner he hk hj).effects (inner he ?_ hj).effects
        exact Nat.le_succ_of_le hk
      · change w.Alike _ (firstEffects (converter caps k) n caps)
          (firstEffects (converter defaultCapabilities j) n defaultCapabilities)
        rw [hP.firstEffects_eq _ fun _ _ h => hn' ⟨_, _, h⟩,
          exportsFirst_default.firstEffects_eq _ fun _ _ h => hn' ⟨_, _, h⟩]
        exact firstEffects_alike fun cap hcap => hcaps cap (List.mem_filter.mp hcap).1

theorem keeps_converter (hP : ExportsFirst caps) (k : Nat) :
    (w.under k).Keeps (converter caps k) (converter defaultCapabilities k) where
  expression h := (keepsNode_converter hP h.1 h.2 h.2).expression
  effects h := (keepsNode_converter hP h.1 h.2 h.2).effects
  statement h := (keepsNode_converter hP h.1 h.2 h.2).statement

/-- Modules with statements that are alike and one export table. -/
def LikeModule (w : Setting) (m m' : Module) : Prop :=
  LikeAll w.known m.statements m'.statements ∧ m.exports = m'.exports ∧
    ∃ s, w.steady s ∧ s.exports = m.exports

theorem convert_alike (hP : ExportsFirst caps) {source : List Node} (h : w.AllFit source) :
    w.Alike w.LikeModule (Module.convert caps source)
      (Module.convert defaultCapabilities source) := by
  have hcost : (w.under (levels source)).AllFit source := fun n hn =>
    ⟨h n hn, Node.cost_lt_levels hn⟩
  refine ((keeps_converter hP _).statements hcost).bind fun ss ss' hss => alike_get.bind ?_
  rintro s _ ⟨rfl, hs⟩
  exact alike_pure ⟨hss, rfl, s, hs, rfl⟩

/-- The setting in which every node fits and every name is known. -/
def all (context : Context) : Setting where
  context
  steady _ := True
  known _ := True
  fits _ := True
  fits_children _ _ _ := trivial
  fits_withoutExport _ := trivial
  known_ident _ := trivial
  known_host _ _ := trivial
  known_module _ _ := trivial
  known_generated _ := trivial
  steady_generated _ := trivial
  steady_memory _ _ := trivial
  steady_export _ _ _ _ _ _ := trivial

end Setting

/-- The same module without any places. -/
def Module.unplaced (m : Module) : Module :=
  { m with statements := AiScript.unplacedAll m.statements }

/-- A module is converted to the same up to places in all orders, or for the same reason not at all. -/
theorem convert_anyOrder {caps : List Capability} (hP : ExportsFirst caps) (source : List Node) :
    Module.unplaced <$> Module.convert caps source =
      Module.unplaced <$> Module.convert defaultCapabilities source := by
  funext context s
  have h : (Setting.all context).Alike Eq (Module.unplaced <$> Module.convert caps source)
      (Module.unplaced <$> Module.convert defaultCapabilities source) := by
    refine (Setting.convert_alike hP fun _ _ => trivial).map ?_
    rintro ⟨ss, es⟩ ⟨ss', _⟩ ⟨hss, rfl, -⟩
    exact congrArg (Module.mk · es) hss.unplaced_eq
  exact (h s trivial).eq

end ScriptBridge.Conversion

namespace ScriptBridge

open Conversion TypeScript

theorem converting_map {α β : Type} (fileName : String)
    (moduleName : String → Span → Except ModuleFault String) (f : α → β) (action : ConvertM α) :
    f <$> converting fileName moduleName action = converting fileName moduleName (f <$> action) := by
  unfold converting
  rw [map_bind]
  refine congrArg _ (funext fun s => ?_)
  dsimp only
  have haction (context : Context) (progress : Progress) : (f <$> action) context progress =
      EStateM.map f (action context) progress := rfl
  rw [haction, EStateM.map]
  generalize action _ _ = r
  cases r <;> rfl

theorem convertFile_anyOrder {caps : List Capability} (hP : ExportsFirst caps)
    (moduleName : String → Span → Except ModuleFault String) (id : Binding.FileId) :
    Module.unplaced <$> convertFile caps moduleName id =
      Module.unplaced <$> convertFile defaultCapabilities moduleName id := by
  -- What is reported of a module does not depend on places either.
  have hfile (caps : List Capability) : Module.unplaced <$> convertFile caps moduleName id = (do
      let source := ((← get).program.file id).source
      loading (report (.converting source.fileName))
      let module ← converting source.fileName moduleName
        (Module.unplaced <$> Module.convert caps source.statements)
      loading (report (.converted source.fileName module.statements.length module.exports.length))
      return module) := by
    simp only [convertFile, map_bind, ← converting_map, bind_map_left, Module.unplaced,
      AiScript.length_unplacedAll, map_pure]
  rw [hfile, hfile]
  simp only [convert_anyOrder hP]

/-- In every order of the capabilities that has the exports before the functions and the variables, a
text is converted to the same program up to places, or refused for the same reason. -/
theorem convertSource_anyOrder {caps : List Capability} (hP : ExportsFirst caps)
    (fileName text : String) :
    AiScript.unplacedAll <$> convertSource caps fileName text =
      AiScript.unplacedAll <$> convertSource defaultCapabilities fileName text := by
  have htext (caps : List Capability) :
      AiScript.unplacedAll <$> convertSource caps fileName text = (do
        let id ← loading (parseText fileName text)
        let module ← Module.unplaced <$> convertFile caps (noModules fileName) id
        return module.statements ++ AiScript.unplacedAll module.table) := by
    simp only [convertSource, convertText, map_bind, bind_assoc, bind_map_left, map_pure,
      AiScript.unplacedAll_append, Module.unplaced, Module.table]
    rfl
  rw [htext, htext]
  simp only [convertFile_anyOrder hP]

/-- The usual order with the operators first. -/
def operatorsFirst : List Capability :=
  [operators, imports, exports, types, literals, identifiers, access, functions, declarations, control,
    statements]

theorem exportsFirst_operatorsFirst : ExportsFirst operatorsFirst where
  perm := (@List.perm_middle _ operators [imports, exports, types, literals, identifiers]
    [access, functions, declarations, control, statements]).symm
  functions := by
    have : operatorsFirst.filter (["exports", "functions"].contains ·.name) =
        [exports, functions] := rfl
    exact this ▸ List.filter_sublist
  declarations := by
    have : operatorsFirst.filter (["exports", "variables"].contains ·.name) =
        [exports, declarations] := rfl
    exact this ▸ List.filter_sublist

/-- The columns where statements start. -/
def startColumns (nodes : List AiScript.Node) : List Nat :=
  nodes.map (·.loc.col)

/-- An assignment in parentheses: with the operators first it is given the place of the parentheses. -/
theorem convertSource_anyOrder_operatorsFirst :
    ∃ nodes s nodes' s',
      convertSource operatorsFirst "main.ts" "(\"a\".b = 1);" default default = .ok nodes s ∧
      convertSource defaultCapabilities "main.ts" "(\"a\".b = 1);" default default = .ok nodes' s' ∧
      startColumns nodes = [1] ∧ startColumns nodes' = [2] ∧
      AiScript.unplacedAll nodes = AiScript.unplacedAll nodes' := by
  have h : endsWith (convertSource operatorsFirst "main.ts" "(\"a\".b = 1);" default default)
      (fun nodes _ => startColumns nodes == [1]) = true := by
    decide +kernel
  have h' : endsWith (convertSource defaultCapabilities "main.ts" "(\"a\".b = 1);" default default)
      (fun nodes _ => startColumns nodes == [2]) = true := by
    decide +kernel
  obtain ⟨nodes, s, hn, hcols⟩ := endsWith_iff.mp h
  obtain ⟨nodes', s', hn', hcols'⟩ := endsWith_iff.mp h'
  refine ⟨nodes, s, nodes', s', hn, hn', beq_iff_eq.mp hcols, beq_iff_eq.mp hcols', ?_⟩
  have heq := congrFun (congrFun (convertSource_anyOrder exportsFirst_operatorsFirst "main.ts"
    "(\"a\".b = 1);") default) default
  rw [map_of_ok hn, map_of_ok hn'] at heq
  injection heq

end ScriptBridge
