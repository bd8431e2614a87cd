import Mathlib.Algebra.Ring.Nat
import ScriptBridge.Proofs.Conversion.Patterns
import ScriptBridge.Proofs.TypeScript.Children

/-!
# Calls of the source and calls of the output

A conversion copies parts of the source: the target of a compound assignment is read and written, and
a value that is taken apart is read once for each name. `stableTarget` and `bindSource` give a name to
what must not be evaluated again, but `stableTarget` does so only below an element access. So a call in
the target of a compound assignment or of a change by one whose value is used is copied if that target
is a property, and no call is copied otherwise.

* `AiScript.Node.callCount`, `TypeScript.Node.callCount`: the number of calls in a tree.
* `TypeScript.Node.steady`: no property that is read and written has a call in it.
* `expandDeclaration_callCount`, `stabilize_callCount`: names take over calls.
-/

namespace ScriptBridge.AiScript

/-! ## Counting -/

mutual
/-- The number of calls in a node. -/
def Node.callCount : Node → Nat
  | .num .. | .str .. | .bool .. | .null .. | .ident .. | .exit .. | .next .. | .bare .. => 0
  | .tmpl _ nodes | .arr _ nodes | .block _ nodes | .loop _ nodes => callCounts nodes
  | .obj _ entries => entryCalls entries
  | .prop _ target _ => target.callCount
  | .index _ target key => target.callCount + key.callCount
  | .call _ target args => target.callCount + callCounts args + 1
  | .unary _ _ operand => operand.callCount
  | .binary _ _ left right => left.callCount + right.callCount
  | .fn _ params body => paramCalls params + callCounts body
  | .cond _ test body branches otherwise =>
    test.callCount + body.callCount + branchCalls branches + optionCalls otherwise
  | .select _ subject arms otherwise =>
    subject.callCount + armCalls arms + optionCalls otherwise
  | .each _ _ items body => items.callCount + body.callCount
  | .define _ _ value _ | .ret _ value => value.callCount
  | .assign _ target value | .update _ _ target value => target.callCount + value.callCount
  | .loneParam (.mk _ _ _ fallback) => optionCalls fallback
  | .loneBranch (.mk _ test body) => test.callCount + body.callCount
  | .loneArm (.mk _ pattern body) => pattern.callCount + body.callCount

/-- The number of calls in nodes. -/
def callCounts : List Node → Nat
  | [] => 0
  | n :: ns => n.callCount + callCounts ns

/-- The number of calls in a node that may be missing. -/
def optionCalls : Option Node → Nat
  | none => 0
  | some n => n.callCount

/-- The number of calls in the entries of an object. -/
def entryCalls : List (String × Node) → Nat
  | [] => 0
  | (_, n) :: rest => n.callCount + entryCalls rest

/-- The number of calls in the defaults of parameters. -/
def paramCalls : List Param → Nat
  | [] => 0
  | .mk _ _ _ fallback :: rest => optionCalls fallback + paramCalls rest

/-- The number of calls in further branches. -/
def branchCalls : List Branch → Nat
  | [] => 0
  | .mk _ test body :: rest => test.callCount + body.callCount + branchCalls rest

/-- The number of calls in the arms of a match. -/
def armCalls : List Arm → Nat
  | [] => 0
  | .mk _ pattern body :: rest => pattern.callCount + body.callCount + armCalls rest
end

attribute [local simp] Node.callCount

@[simp] theorem callCounts_append (xs ys : List Node) :
    callCounts (xs ++ ys) = callCounts xs + callCounts ys := by
  induction xs with
  | nil => simp [callCounts]
  | cons x xs ih => simp [callCounts, ih, Nat.add_assoc]

@[simp] theorem callCount_setLoc (l : Loc) (n : Node) : (n.setLoc l).callCount = n.callCount := by
  cases n <;> simp only [Node.setLoc, Node.callCount]
  all_goals rename_i x; cases x; simp only [Node.callCount]

/-- A value that replaces another brings its calls in and takes those of the other out. -/
theorem entryCalls_set (key : String) (value : Node) (table : List (String × Node)) :
    entryCalls (Assoc.set key value table) ≤ entryCalls table + value.callCount := by
  induction table with
  | nil => simp [Assoc.set, entryCalls]
  | cons entry rest ih =>
    obtain ⟨k, v⟩ := entry
    rw [Assoc.set]
    split
    · simp only [entryCalls]
      omega
    · simp only [entryCalls]
      omega

end ScriptBridge.AiScript

namespace ScriptBridge.TypeScript.Node

attribute [local simp] children

/-- The number of calls in a node. -/
def callCount (n : Node) : Nat :=
  n.fold fun n inside => inside.sum + match n with | .call .. => 1 | _ => 0

/-- The number of calls in nodes. -/
def callCounts (ns : List Node) : Nat :=
  (ns.map callCount).sum

theorem callCount_eq (n : Node) :
    n.callCount = callCounts n.children + match n with | .call .. => 1 | _ => 0 := by
  rw [callCount, fold_eq]
  rfl

@[simp] theorem callCounts_nil : callCounts [] = 0 := rfl

@[simp] theorem callCounts_cons (n : Node) (ns : List Node) :
    callCounts (n :: ns) = n.callCount + callCounts ns := List.sum_cons

@[simp] theorem callCounts_append (ns ms : List Node) :
    callCounts (ns ++ ms) = callCounts ns + callCounts ms := by
  rw [callCounts, List.map_append, List.sum_append]
  rfl

@[simp] theorem callCounts_modifiers (ms : List Modifier) :
    callCounts (ms.map Node.modifier) = 0 := by
  induction ms with
  | nil => rfl
  | cons m ms ih => rw [List.map_cons, callCounts_cons, ih, callCount_eq]; rfl

theorem callCount_unwrap (n : Node) : n.unwrap.callCount = n.callCount :=
  apply_unwrap (fun m e => by rw [callCount_eq]; simp [children]) n

/-! ## Targets that are evaluated twice -/

/-- Whether a target that is read and written has no call that is evaluated twice: an element is taken
apart first, a property is not. -/
def settled (target : Node) : Bool :=
  match target.unwrap with
  | .propertyAccess .. => target.callCount == 0
  | _ => true

/-- Whether the targets in a node are settled, from those of its children; `isUsed` tells whether the
value of the node is used. -/
def steadyNode (n : Node) (inside : List (Bool → Bool)) (isUsed : Bool) : Bool :=
  match n with
  | .parenthesized .. => inside.all (· isUsed)
  | .expressionStatement .. => inside.all (· false)
  | .binary _ left operator _ =>
    inside.all (· true) &&
      (isUsed || (Conversion.expandedAssignments.lookup operator).isNone || settled left)
  | .prefixUnary _ operator operand =>
    inside.all (· true) &&
      (!isUsed || (operator != "++" && operator != "--") || settled operand)
  | .postfixUnary _ operand _ => inside.all (· true) && (!isUsed || settled operand)
  | .forStatement _ start test advance _ =>
    let (starts, rest) := inside.splitAt start.toList.length
    let (tests, rest) := rest.splitAt test.toList.length
    let (advances, bodies) := rest.splitAt advance.toList.length
    starts.all (· false) && tests.all (· true) && advances.all (· false) && bodies.all (· true)
  | _ => inside.all (· true)

/-- Whether no property that is read and written has a call in it. -/
def steady (n : Node) : Bool → Bool :=
  n.fold steadyNode

theorem steady_eq (n : Node) (isUsed : Bool) :
    n.steady isUsed = steadyNode n (n.children.map steady) isUsed := by
  rw [steady, fold_eq]
  rfl

theorem steady_unwrap (n : Node) (isUsed : Bool) : n.unwrap.steady isUsed = n.steady isUsed :=
  congrFun (apply_unwrap (fun m e => by funext b; rw [steady_eq]; simp [steadyNode, children]) n) isUsed

/-- The value of a node that is no operation may be used. -/
theorem steady_used {n : Node} (h : n.steady false = true)
    (hb : ∀ m left operator right, n.unwrap ≠ .binary m left operator right)
    (hp : ∀ m operator operand, n.unwrap ≠ .prefixUnary m operator operand)
    (hq : ∀ m operand operator, n.unwrap ≠ .postfixUnary m operand operator) :
    n.steady true = true := by
  have hw := n.unwrap_ne_parenthesized
  rw [← steady_unwrap] at h ⊢
  generalize n.unwrap = e at *
  rw [steady_eq] at h ⊢
  unfold steadyNode at h ⊢
  split at h
  · exact absurd rfl (hw _ _)
  all_goals simp_all

/-- Nodes whose values are used and all of whose targets are settled. -/
def Steady (ns : List Node) : Prop :=
  ∀ n ∈ ns, n.steady true = true

@[simp] theorem steady_nil : Steady [] :=
  fun _ h => nomatch h

@[simp] theorem steady_cons {n : Node} {ns : List Node} :
    Steady (n :: ns) ↔ n.steady true = true ∧ Steady ns :=
  List.forall_mem_cons

@[simp] theorem steady_append {ns ms : List Node} : Steady (ns ++ ms) ↔ Steady ns ∧ Steady ms :=
  List.forall_mem_append

/-- Where a form has no targets of its own, its children are steady with it. -/
theorem steady_children {n : Node} {isUsed : Bool} (h : n.steady isUsed = true)
    (hn : ∀ inside, steadyNode n inside isUsed = inside.all (· true)) : Steady n.children := by
  rw [steady_eq, hn, List.all_map, List.all_eq_true] at h
  exact h

/-- Where a form has no targets of its own, its children tell all. -/
theorem steady_of_children {n : Node} {isUsed : Bool} (h : Steady n.children)
    (hn : ∀ inside, steadyNode n inside isUsed = inside.all (· true)) : n.steady isUsed = true := by
  rw [steady_eq, hn, List.all_map, List.all_eq_true]
  exact h

@[simp] theorem steady_modifiers (ms : List Modifier) : Steady (ms.map Node.modifier) := by
  intro n hn
  obtain ⟨m, -, rfl⟩ := List.mem_map.mp hn
  exact steady_of_children steady_nil fun _ => rfl

/-- The parts of a `for` statement: the values of its start and of its advance are not used. -/
theorem steady_for {m : Mark} {start test advance : Option Node} {body : Node} {isUsed : Bool}
    (h : (forStatement m start test advance body).steady isUsed = true) :
    (∀ e ∈ start, e.steady false = true) ∧ Steady test.toList ∧
      (∀ e ∈ advance, e.steady false = true) ∧ body.steady true = true := by
  rw [steady_eq] at h
  rcases start with _ | s <;> rcases test with _ | t <;> rcases advance with _ | a <;>
    simpa [steadyNode, children, and_assoc] using h

/-! ## Words before declarations -/

theorem callCount_setModifiers (ms : List Modifier) (n : Node) :
    (n.setModifiers ms).callCount = n.callCount := by
  fun_cases setModifiers ms n
  case case8 => rfl
  all_goals
    rw [callCount_eq, callCount_eq]
    simp only [children, callCounts_append, callCounts_modifiers]

theorem steady_setModifiers (ms : List Modifier) {n : Node} (h : n.steady true = true) :
    (n.setModifiers ms).steady true = true := by
  fun_cases setModifiers ms n
  case case8 => exact h
  all_goals
    refine steady_of_children ?_ fun _ => rfl
    have := steady_children h fun _ => rfl
    simp only [children, steady_append, steady_modifiers, true_and] at this ⊢
    exact this

end ScriptBridge.TypeScript.Node

namespace ScriptBridge.Conversion

open TypeScript
open AiScript (callCounts entryCalls paramCalls branchCalls optionCalls)

/-! ## Patterns

A pattern reads a source that has no calls, so it adds none. -/

/-- Nodes without calls. -/
def CallFree (ns : List AiScript.Node) : Prop :=
  callCounts ns = 0

theorem callCount_member {source : AiScript.Node} (h : source.callCount = 0) (key : String) :
    (member source key).callCount = 0 := by
  unfold member
  split <;> simp [AiScript.Node.callCount, h]

theorem callCount_element {source : AiScript.Node} (h : source.callCount = 0) (i : Nat) :
    (element source i).callCount = 0 := by
  simp [element, AiScript.Node.callCount, h]

theorem ReadsFrom.callCount {source value : AiScript.Node} (h : ReadsFrom source value)
    (h0 : source.callCount = 0) : value.callCount = 0 := by
  induction h with
  | source => exact h0
  | member key _ ih => exact callCount_member ih key
  | element i _ ih => exact callCount_element ih i

theorem ReadOff.callFree {source : AiScript.Node} (h0 : source.callCount = 0)
    {made : List AiScript.Node} (h : ReadOff source made) : CallFree made := by
  induction made with
  | nil => rfl
  | cons r made ih =>
    obtain ⟨hr, hm⟩ := List.forall_mem_cons.mp h
    obtain ⟨name, value, isMutable, rfl, hv⟩ := hr
    simp only [CallFree, callCounts, define, AiScript.Node.callCount, hv.callCount h0,
      Nat.zero_add] at ih ⊢
    exact ih hm

theorem expandBinding_callFree (isMutable : Bool) {source : AiScript.Node}
    (h : source.callCount = 0) (pattern : Node) :
    Yields (expandBinding isMutable source pattern) CallFree :=
  (expandBinding_readOff isMutable .source pattern).mono fun _ hm => hm.callFree h

theorem bindSource_callCount (value : AiScript.Node) :
    Yields (bindSource value) fun r => r.1.callCount = 0 ∧ callCounts r.2 ≤ value.callCount := by
  fun_cases bindSource value with
  | case1 l name => exact yields_pure ⟨rfl, Nat.zero_le _⟩
  | case2 value =>
    refine yields_bind fun temp => yields_pure ⟨rfl, ?_⟩
    simp [callCounts, define, AiScript.Node.callCount]

theorem bindingParameter_callFree (isMutable : Bool) (pattern : Node) :
    Yields (bindingParameter isMutable pattern) fun r => CallFree r.2 :=
  yields_bind fun _ => (expandBinding_callFree isMutable rfl pattern).bind fun _ h => yields_pure h

theorem paramTarget_callFree (target : Node) :
    Yields (paramTarget target) fun r => CallFree r.2 := by
  fun_cases paramTarget target with
  | case1 i => exact yields_bind fun _ => yields_pure rfl
  | case2 => exact bindingParameter_callFree false _

theorem expandDeclaration_callCount (isMutable : Bool) (pattern : Node) (value : AiScript.Node) :
    Yields (expandDeclaration isMutable pattern value) (callCounts · ≤ value.callCount) := by
  refine (bindSource_callCount value).bind ?_
  rintro ⟨source, made⟩ ⟨hs, hm⟩
  refine (expandBinding_callFree isMutable hs pattern).bind fun more h => yields_pure ?_
  simp_all [CallFree]

theorem isStable_callFree {value : AiScript.Node} (h : isStable value = true) :
    value.callCount = 0 := by
  fun_induction isStable value with
  | case1 | case2 | case3 => rfl
  | case4 l target name ih => exact ih h
  | case5 => exact absurd h (by simp)

theorem stabilize_callCount (value : AiScript.Node) :
    Yields (stabilize value) fun r => r.1.callCount = 0 ∧ callCounts r.2 ≤ value.callCount := by
  unfold stabilize
  split
  · rename_i hs
    exact yields_pure ⟨isStable_callFree hs, Nat.zero_le _⟩
  · exact bindSource_callCount value

theorem callCount_asOne (ns : List AiScript.Node) : (asOne ns).callCount = callCounts ns := by
  unfold asOne
  split
  · simp [callCounts]
  · rfl

/-! ## Switches -/

mutual
theorem openLast_calls (n : Node) (h : n.steady true = true) :
    Node.Steady (openLast n) ∧ Node.callCounts (openLast n) ≤ n.callCount := by
  fun_cases openLast n with
  | case1 m statements =>
    have := openTail_calls statements (Node.steady_children h fun _ => rfl)
    rw [Node.callCount_eq]
    exact this
  | case2 n => exact ⟨by simpa using h, by simp⟩
termination_by sizeOf n
decreasing_by all_goals (subst_vars; decreasing_tactic)

theorem openTail_calls (ns : List Node) (h : Node.Steady ns) :
    Node.Steady (openTail ns) ∧ Node.callCounts (openTail ns) ≤ Node.callCounts ns := by
  fun_cases openTail ns with
  | case1 => exact ⟨by simp, Nat.le_refl _⟩
  | case2 n rest ho =>
    have := openLast_calls n (Node.steady_cons.mp h).1
    refine ⟨this.1, ?_⟩
    rw [Node.callCounts_cons]
    omega
  | case3 n rest _ =>
    obtain ⟨hn, hr⟩ := Node.steady_cons.mp h
    have := openTail_calls rest hr
    refine ⟨Node.steady_cons.mpr ⟨hn, this.1⟩, ?_⟩
    simp only [Node.callCounts_cons]
    omega
termination_by sizeOf ns
decreasing_by all_goals (subst_vars; decreasing_tactic)
end

theorem callCount_anyOf (first : AiScript.Node) (rest : List AiScript.Node) :
    (anyOf first rest).callCount = first.callCount + callCounts rest := by
  induction rest generalizing first with
  | nil => rfl
  | cons next rest ih =>
    rw [anyOf, ih]
    simp only [callCounts, AiScript.Node.callCount]
    omega

/-- The number of calls in the cases of a switch so far. -/
def Cases.callCount (cases : Cases) : Nat :=
  (cases.branches.map fun b => b.1.callCount + b.2.callCount).sum + callCounts cases.default +
    callCounts cases.pending

theorem branchCalls_map (bs : List (AiScript.Node × AiScript.Node)) :
    branchCalls (bs.map fun (test, body) => AiScript.Branch.mk {} test body) =
      (bs.map fun b => b.1.callCount + b.2.callCount).sum := by
  induction bs with
  | nil => rfl
  | cons b bs ih => simp only [List.map_cons, branchCalls, ih, List.sum_cons]

theorem Cases.callCounts_statements (cases : Cases) :
    callCounts cases.statements ≤ cases.callCount := by
  unfold Cases.statements Cases.callCount
  split
  · omega
  · rename_i test body rest hb
    rw [hb]
    simp only [callCounts, AiScript.Node.callCount, branchCalls_map, List.map_cons, List.sum_cons]
    split
    · simp only [optionCalls]
      omega
    · simp only [optionCalls, AiScript.Node.callCount]
      omega

end ScriptBridge.Conversion
