import ScriptBridge.Proofs.AiScript.Everywhere

/-!
# Deciding what stands apart

Whether the parts of a tree run on into each other can be computed, so an output can be checked before
it is printed.

* `decideEverywhere`: a condition that can be checked on one node can be checked on a whole tree.
* `decidePartsStandApart`: the condition on one node.
-/

namespace ScriptBridge.AiScript

/-! ## Conditions on all nodes -/

section
variable {C : Site → Node → Prop} [∀ s n, Decidable (C s n)]

mutual
/-- A condition that can be checked on a node can be checked on all nodes of a tree. -/
def decideEverywhere (s : Site) : (n : Node) → Decidable (Everywhere C s n)
  | .tmpl _ parts =>
    have := decideParts s parts
    inferInstanceAs (Decidable (C s _ ∧ EverywhereParts C s parts))
  | .arr _ items =>
    have := decideAll s.operand items
    inferInstanceAs (Decidable (C s _ ∧ EverywhereAll C s.operand items))
  | .obj _ entries =>
    have := decideEntries s.operand entries
    inferInstanceAs (Decidable (C s _ ∧ EverywhereEntries C s.operand entries))
  | .prop _ target _ =>
    have := decideEverywhere s.operand target
    inferInstanceAs (Decidable (C s _ ∧ Everywhere C s.operand target))
  | .index _ target key =>
    have := decideEverywhere s.operand target
    have := decideEverywhere s.operand key
    inferInstanceAs (Decidable (C s _ ∧ Everywhere C s.operand target ∧ Everywhere C s.operand key))
  | .call _ target args =>
    have := decideEverywhere s.operand target
    have := decideAll s.operand args
    inferInstanceAs (Decidable
      (C s _ ∧ Everywhere C s.operand target ∧ EverywhereAll C s.operand args))
  | .unary _ _ operand =>
    have := decideEverywhere s.operand operand
    inferInstanceAs (Decidable (C s _ ∧ Everywhere C s.operand operand))
  | .binary _ _ left right =>
    have := decideEverywhere s.operand left
    have := decideEverywhere s.operand right
    inferInstanceAs (Decidable (C s _ ∧ Everywhere C s.operand left ∧ Everywhere C s.operand right))
  | .fn _ params body =>
    have := decideParams s.operand params
    have := decideAll s.statement body
    inferInstanceAs (Decidable
      (C s _ ∧ EverywhereParams C s.operand params ∧ EverywhereAll C s.statement body))
  | .block _ statements =>
    have := decideAll s.statement statements
    inferInstanceAs (Decidable (C s _ ∧ EverywhereAll C s.statement statements))
  | .cond _ test body branches otherwise =>
    have := decideEverywhere s.operand test
    have := decideEverywhere s.body body
    have := decideBranches s branches
    have := decideOption s.body otherwise
    inferInstanceAs (Decidable (C s _ ∧ Everywhere C s.operand test ∧ Everywhere C s.body body ∧
      EverywhereBranches C s branches ∧ EverywhereOption C s.body otherwise))
  | .select _ subject arms otherwise =>
    have := decideEverywhere s.operand subject
    have := decideArms s arms
    have := decideOption s.body otherwise
    inferInstanceAs (Decidable (C s _ ∧ Everywhere C s.operand subject ∧ EverywhereArms C s arms ∧
      EverywhereOption C s.body otherwise))
  | .loop _ statements =>
    have := decideAll s.statement statements
    inferInstanceAs (Decidable (C s _ ∧ EverywhereAll C s.statement statements))
  | .each _ _ items body =>
    have := decideEverywhere s.operand items
    have := decideEverywhere s.body body
    inferInstanceAs (Decidable (C s _ ∧ Everywhere C s.operand items ∧ Everywhere C s.body body))
  | .define _ _ value _ | .ret _ value =>
    have := decideEverywhere s.operand value
    inferInstanceAs (Decidable (C s _ ∧ Everywhere C s.operand value))
  | .assign _ target value | .update _ _ target value =>
    have := decideEverywhere s.operand target
    have := decideEverywhere s.operand value
    inferInstanceAs (Decidable
      (C s _ ∧ Everywhere C s.operand target ∧ Everywhere C s.operand value))
  | .num .. | .str .. | .bool .. | .null .. | .ident .. | .exit .. | .next .. | .loneParam ..
  | .loneBranch .. | .loneArm .. | .bare .. => inferInstanceAs (Decidable (C s _))

def decideAll (s : Site) : (ns : List Node) → Decidable (EverywhereAll C s ns)
  | [] => .isTrue trivial
  | n :: ns =>
    have := decideEverywhere s n
    have := decideAll s ns
    inferInstanceAs (Decidable (Everywhere C s n ∧ EverywhereAll C s ns))

def decideParts (s : Site) : (ns : List Node) → Decidable (EverywhereParts C s ns)
  | [] => .isTrue trivial
  | n :: ns =>
    have := decideEverywhere ⟨.expression, true⟩ n
    have := decideParts s ns
    decidable_of_iff _ everywhereParts_cons.symm

def decideOption (s : Site) : (n : Option Node) → Decidable (EverywhereOption C s n)
  | none => .isTrue trivial
  | some n => decideEverywhere s n

def decideEntries (s : Site) : (es : List (String × Node)) → Decidable (EverywhereEntries C s es)
  | [] => .isTrue trivial
  | (_, n) :: es =>
    have := decideEverywhere s n
    have := decideEntries s es
    inferInstanceAs (Decidable (Everywhere C s n ∧ EverywhereEntries C s es))

def decideParams (s : Site) : (ps : List Param) → Decidable (EverywhereParams C s ps)
  | [] => .isTrue trivial
  | .mk _ _ _ fallback :: ps =>
    have := decideOption s fallback
    have := decideParams s ps
    inferInstanceAs (Decidable (EverywhereOption C s fallback ∧ EverywhereParams C s ps))

def decideBranches (s : Site) : (bs : List Branch) → Decidable (EverywhereBranches C s bs)
  | [] => .isTrue trivial
  | .mk _ test body :: bs =>
    have := decideEverywhere s.operand test
    have := decideEverywhere s.body body
    have := decideBranches s bs
    inferInstanceAs (Decidable (Everywhere C s.operand test ∧ Everywhere C s.body body ∧
      EverywhereBranches C s bs))

def decideArms (s : Site) : (as : List Arm) → Decidable (EverywhereArms C s as)
  | [] => .isTrue trivial
  | .mk _ pattern body :: as =>
    have := decideEverywhere s.operand pattern
    have := decideEverywhere s.body body
    have := decideArms s as
    inferInstanceAs (Decidable (Everywhere C s.operand pattern ∧ Everywhere C s.body body ∧
      EverywhereArms C s as))
end

instance (s : Site) (n : Node) : Decidable (Everywhere C s n) :=
  decideEverywhere s n

instance (s : Site) (ns : List Node) : Decidable (EverywhereAll C s ns) :=
  decideAll s ns

instance (s : Site) (ns : List Node) : Decidable (EverywhereParts C s ns) :=
  decideParts s ns

end

/-! ## Parts that stand apart -/

/-- Whether a part of a template is a text without characters. -/
def Node.isNoText : Node → Bool
  | .str _ value => value == ""
  | _ => false

theorem Node.isNoText_iff {n : Node} : n.isNoText = true ↔ ∃ l, n = .str l "" := by
  cases n <;> simp [isNoText]

theorem partsApart_iff {parts : List Node} :
    PartsApart parts ↔ (parts.length = 1 ∧ ∀ n ∈ parts, n.isNoText = true) ∨
      (parts ≠ [] ∧ (∀ n ∈ parts, n.isNoText = false) ∧
        parts.IsChain fun n m => n.isStr = false ∨ m.isStr = false) := by
  refine or_congr ⟨?_, ?_⟩ (and_congr_right fun _ => and_congr_left fun _ => ⟨?_, ?_⟩)
  · rintro ⟨l, rfl⟩
    exact ⟨rfl, List.forall_mem_singleton.mpr rfl⟩
  · rintro ⟨hlength, htext⟩
    obtain ⟨n, rfl⟩ := List.length_eq_one_iff.mp hlength
    obtain ⟨l, rfl⟩ := Node.isNoText_iff.mp (htext n (List.mem_singleton_self n))
    exact ⟨l, rfl⟩
  · intro h n hn
    refine Bool.eq_false_iff.mpr fun htext => ?_
    obtain ⟨l, rfl⟩ := Node.isNoText_iff.mp htext
    exact h l hn
  · intro h l hl
    cases h _ hl

instance (parts : List Node) : Decidable (PartsApart parts) :=
  decidable_of_iff _ partsApart_iff.symm

instance decideBranchesApart (isLast : Bool) :
    (bs : List Branch) → Decidable (BranchesApart isLast bs)
  | [] => .isTrue trivial
  | .mk _ _ body :: rest =>
    have := decideBranchesApart isLast rest
    inferInstanceAs (Decidable
      ((rest ≠ [] ∨ isLast = false → body.isOpen = false) ∧ BranchesApart isLast rest))

instance decideMarkless (s : Site) : (n : Node) → Decidable (Markless s n)
  | .tmpl .. => .isFalse id
  | .str _ value => inferInstanceAs (Decidable ('\x60' ∉ value.toList))
  | .obj _ entries => inferInstanceAs (Decidable (∀ e ∈ entries, '\x60' ∉ e.1.toList))
  | .num .. | .bool .. | .null .. | .ident .. | .arr .. | .prop .. | .index .. | .call .. | .unary ..
  | .binary .. | .fn .. | .block .. | .cond .. | .select .. | .loop .. | .each .. | .define ..
  | .assign .. | .update .. | .ret .. | .exit .. | .next .. | .loneParam .. | .loneBranch ..
  | .loneArm .. | .bare .. => .isTrue trivial

instance decidePartsStandApart (s : Site) : (n : Node) → Decidable (PartsStandApart s n)
  | .tmpl _ parts => inferInstanceAs (Decidable
      (PartsApart parts ∧ (s.interpolated = true → EverywhereParts Markless s parts)))
  | .prop _ target name =>
    inferInstanceAs (Decidable (target.isCond = false ∧ isSegment name.toList = true))
  | .index _ target _ | .call _ target _ | .binary _ _ target _ | .assign _ target _
  | .update _ _ target _ => inferInstanceAs (Decidable (target.isCond = false))
  | .unary _ op operand => inferInstanceAs (Decidable (op ≠ "!" → operand.numeralLed = false))
  | .cond _ _ body branches otherwise => inferInstanceAs (Decidable
      ((branches ≠ [] ∨ otherwise.isSome = true → body.isOpen = false) ∧
        BranchesApart otherwise.isNone branches))
  | .num .. | .str .. | .bool .. | .null .. | .ident .. | .arr .. | .obj .. | .fn .. | .block ..
  | .select .. | .loop .. | .each .. | .define .. | .ret .. | .exit .. | .next .. | .loneParam ..
  | .loneBranch .. | .loneArm .. | .bare .. => .isTrue trivial

instance (s : Site) (n : Node) : Decidable (Apart s n) :=
  inferInstanceAs (Decidable
    (PartsStandApart s n ∧ (s.position ≠ .expression → n.objectLed = true → n.isObj = true)))

end ScriptBridge.AiScript
