import ScriptBridge.Proofs.Conversion.CallCount

/-!
# Constructs that keep the number of calls

`KeepsCalls c`: the converter `c` gives no more calls than a steady source has. Each construct is
converted through such a converter, and then gives no more calls than its parts have together. The one
construct that writes a target twice is `stableTarget`, which gives back a target without calls.
-/

namespace ScriptBridge.Conversion

open TypeScript
open AiScript (callCounts entryCalls paramCalls branchCalls optionCalls)

/-- A converter that gives no more calls than the source has, where the source is steady. An element
stays an element, so that its parts can be given names. -/
structure KeepsCalls (c : Converter) : Prop where
  expression : ∀ n : Node, n.steady true = true →
    Yields (c.expression n) (·.callCount ≤ n.callCount)
  effects : ∀ n : Node, n.steady false = true → Yields (c.effects n) (callCounts · ≤ n.callCount)
  statement : ∀ n : Node, n.steady true = true → Yields (c.statement n) (callCounts · ≤ n.callCount)
  element : ∀ m target key isOptional,
    Yields (c.expression (.elementAccess m target key isOptional)) fun r =>
      ∃ l target key, r = .index l target key

namespace KeepsCalls

open Node (Steady steady_children steady_cons steady_append)

variable {c : Converter}

section
variable (hc : KeepsCalls c)
include hc

theorem statements {ns : List Node} (h : Steady ns) :
    Yields (c.statements ns) (callCounts · ≤ Node.callCounts ns) := by
  induction ns with
  | nil => exact yields_pure (Nat.le_refl _)
  | cons n ns ih =>
    obtain ⟨hn, hs⟩ := steady_cons.mp h
    refine (hc.statement n hn).bind fun first hf => (ih hs).bind fun more hm => yields_pure ?_
    simp only [AiScript.callCounts_append, Node.callCounts_cons]
    omega

/-! ### Functions and literals -/

theorem optional {n : Option Node} (h : Steady n.toList) :
    Yields (expression? c n) (optionCalls · ≤ Node.callCounts n.toList) := by
  cases n with
  | none => exact yields_pure (Nat.le_refl _)
  | some n =>
    refine (hc.expression n (h n (by simp))).bind fun r hr => yields_pure ?_
    simpa [optionCalls] using hr

theorem params {params : List Node} (h : Steady params) :
    Yields (convertParams c params) fun r =>
      paramCalls r.1 ≤ Node.callCounts params ∧ CallFree r.2 := by
  fun_induction convertParams c params with
  | case1 => exact yields_pure ⟨Nat.le_refl _, rfl⟩
  | case2 m target type fallback isOptional isRest rest _ ih =>
    refine (ih (steady_cons.mp h).2).mono fun r hr => ⟨?_, hr.2⟩
    rw [Node.callCounts_cons]
    omega
  | case3 => exact yields_refuse_bind _ _
  | case4 m target type fallback isOptional isRest rest _ _ _ ih =>
    obtain ⟨hp, hr⟩ := steady_cons.mp h
    have hd : Steady fallback.toList := (steady_append.mp (steady_children hp fun _ => rfl)).2
    refine (hc.optional hd).bind fun d hd => ?_
    refine (paramTarget_callFree target).bind ?_
    rintro ⟨name, made⟩ hm
    refine (ih hr).bind ?_
    rintro ⟨ps, more⟩ hr
    refine yields_pure ⟨?_, by simp_all [CallFree]⟩
    rw [Node.callCounts_cons, Node.callCount_eq]
    simp only [paramCalls, Node.children, Node.callCounts_append, Node.callCounts_cons] at hr ⊢
    omega
  | case5 n rest _ ih =>
    refine (ih (steady_cons.mp h).2).mono fun r hr => ⟨?_, hr.2⟩
    rw [Node.callCounts_cons]
    omega

theorem function {n : Node} {isAsync isGenerator : Bool} {params : List Node} {body : Node}
    (hp : Steady params) (hb : body.steady true = true) :
    Yields (convertFunction c n isAsync isGenerator params body)
      (·.callCount ≤ Node.callCounts params + body.callCount) := by
  unfold convertFunction
  refine yields_guard (yields_guard ?_)
  refine (hc.params hp).bind ?_
  rintro ⟨ps, prologue⟩ ⟨hps, hpr⟩
  simp only [CallFree] at hps hpr ⊢
  split
  · rename_i m statements
    refine (hc.statements (steady_children hb fun _ => rfl)).bind fun ss hss => yields_pure ?_
    rw [Node.callCount_eq (.block m statements)]
    simp only [AiScript.Node.callCount, AiScript.callCounts_append, Node.children] at hss ⊢
    omega
  · refine (hc.expression _ hb).bind fun r hr => yields_pure ?_
    simp only [AiScript.Node.callCount, AiScript.callCounts_append, callCounts]
    omega

theorem parts {spans : List Node} (h : Steady spans) :
    Yields (templateParts c spans) (callCounts · ≤ Node.callCounts spans) := by
  fun_induction templateParts c spans with
  | case1 => exact yields_pure (Nat.le_refl _)
  | case2 m e text rest ih =>
    obtain ⟨hs, hr⟩ := steady_cons.mp h
    have he : Steady [e] := steady_children hs fun _ => rfl
    refine (hc.expression e (he e (by simp))).bind fun r hr' => (ih hr).bind fun more hm => ?_
    refine yields_pure ?_
    have ht : callCounts (templateText text) = 0 := by
      unfold templateText
      split <;> rfl
    rw [Node.callCounts_cons, Node.callCount_eq]
    simp only [callCounts, AiScript.callCounts_append, ht, Node.children, Node.callCounts_cons]
    omega
  | case3 n rest _ ih =>
    refine (ih (steady_cons.mp h).2).mono fun r hr => ?_
    rw [Node.callCounts_cons]
    omega

theorem items {elements : List Node} (h : Steady elements) :
    Yields (arrayItems c elements) (callCounts · ≤ Node.callCounts elements) := by
  induction elements with
  | nil => exact yields_pure (Nat.le_refl _)
  | cons n rest ih =>
    obtain ⟨hn, hr⟩ := steady_cons.mp h
    unfold arrayItems
    split
    · exact yields_refuse_bind _ _
    · exact yields_refuse_bind _ _
    · refine (hc.expression n hn).bind fun r hr' => (ih hr).bind fun more hm => yields_pure ?_
      simp only [callCounts, Node.callCounts_cons]
      omega

theorem entry {n : Node} (h : n.steady true = true) :
    Yields (objectEntry c n) (·.2.callCount ≤ n.callCount) := by
  unfold objectEntry
  split
  · exact yields_refuse _ _
  · rename_i m name fallback
    have hn := (steady_cons.mp (steady_children h fun _ => rfl)).1
    refine yields_guard ((hc.expression (.ident name) hn).bind fun r hr => yields_pure ?_)
    rw [Node.callCount_eq (.shorthand m name fallback)]
    simp only [Node.children, Node.callCounts_cons]
    omega
  · rename_i m key value
    have hs : Steady [key, value] := steady_children h fun _ => rfl
    refine yields_bind fun key' => ?_
    refine (hc.expression value (hs value (by simp))).bind fun r hr => yields_pure ?_
    rw [Node.callCount_eq (.property m key value)]
    simp only [Node.children, Node.callCounts_cons]
    omega
  · rename_i m key params body result kind isAsync isGenerator
    have hs : Steady (key :: params ++ body :: result.toList) := steady_children h fun _ => rfl
    obtain ⟨hp, hb⟩ := steady_append.mp hs
    refine yields_bind fun key' => yields_guard ?_
    refine (hc.function (steady_cons.mp hp).2 (steady_cons.mp hb).1).bind fun r hr => yields_pure ?_
    rw [Node.callCount_eq (.method m key params body result kind isAsync isGenerator)]
    simp only [Node.children, Node.callCounts_cons, Node.callCounts_append]
    omega
  · exact yields_refuse _ _

theorem entries (table : List (String × AiScript.Node)) {properties : List Node}
    (h : Steady properties) :
    Yields (objectEntries c table properties)
      (entryCalls · ≤ entryCalls table + Node.callCounts properties) := by
  induction properties generalizing table with
  | nil => exact yields_pure (Nat.le_refl _)
  | cons n rest ih =>
    obtain ⟨hn, hr⟩ := steady_cons.mp h
    refine (hc.entry hn).bind ?_
    rintro ⟨key, value⟩ hv
    refine (ih _ hr).mono fun r hr => ?_
    have := AiScript.entryCalls_set key value table
    simp only [Node.callCounts_cons] at hv hr ⊢
    omega

/-! ### Access and operators -/

theorem args {args : List Node} (h : Steady args) :
    Yields (convertArgs c args) (callCounts · ≤ Node.callCounts args) := by
  induction args with
  | nil => exact yields_pure (Nat.le_refl _)
  | cons n rest ih =>
    obtain ⟨hn, hr⟩ := steady_cons.mp h
    unfold convertArgs
    split
    · exact yields_refuse_bind _ _
    · refine (hc.expression n hn).bind fun r hr' => (ih hr).bind fun more hm => yields_pure ?_
      simp only [callCounts, Node.callCounts_cons]
      omega

theorem property {target : Node} (h : target.steady true = true) (name : String) :
    Yields (convertProperty c target name) (·.callCount ≤ target.callCount) := by
  unfold convertProperty
  have hu := hc.expression target.unwrap (by rwa [target.steady_unwrap])
  rw [Node.callCount_unwrap] at hu
  refine hu.bind fun value hv => ?_
  split
  · refine yields_bind fun isHost => ?_
    split
    · exact yields_pure (Nat.zero_le _)
    · exact yields_pure hv
  · exact yields_pure hv

theorem assignTarget {n : Node} (h : n.steady true = true) :
    Yields (assignTarget c n) (·.callCount ≤ n.callCount) := by
  have hu := (n.steady_unwrap true).trans h
  have hn := n.callCount_unwrap
  unfold Conversion.assignTarget
  split
  · exact yields_bind fun _ => yields_pure (Nat.zero_le _)
  · rename_i he
    rw [← he, ← hn]
    exact hc.expression _ hu
  · rename_i he
    rw [← he, ← hn]
    exact hc.expression _ hu
  · exact yields_refuse _ _

/-- A stable target has no calls, and the names given to its parts take over those of the source. -/
theorem stableTarget {n : Node} (h : n.steady true = true) (hs : n.settled = true) :
    Yields (stableTarget c n) fun r => r.1.callCount = 0 ∧ callCounts r.2 ≤ n.callCount := by
  have hsplit : Yields (Conversion.assignTarget c n) fun r => r.callCount ≤ n.callCount ∧
      ((∃ l t k, r = .index l t k) ∨ r.callCount = 0) := by
    refine (hc.assignTarget h).and ?_
    have hu := (n.steady_unwrap true).trans h
    unfold Conversion.assignTarget
    split
    · exact yields_bind fun _ => yields_pure (.inr rfl)
    · rename_i he
      have h0 : n.callCount = 0 := by simpa [Node.settled, he] using hs
      rw [← n.callCount_unwrap, he] at h0
      rw [he] at hu
      exact (hc.expression _ hu).mono fun r hr => .inr (Nat.le_zero.mp (h0 ▸ hr))
    · exact (hc.element _ _ _ _).mono fun r hr => .inl hr
    · exact yields_refuse _ _
  unfold Conversion.stableTarget
  refine hsplit.bind ?_
  rintro r ⟨hr, hi⟩
  split
  · rename_i l target key
    refine (stabilize_callCount target).bind ?_
    rintro ⟨t, first⟩ ht
    refine (stabilize_callCount key).bind ?_
    rintro ⟨k, second⟩ hk
    refine yields_pure ?_
    simp only [AiScript.Node.callCount, AiScript.callCounts_append] at hr ht hk ⊢
    omega
  · rename_i hne
    refine yields_pure ⟨?_, Nat.zero_le _⟩
    obtain ⟨l, t, k, rfl⟩ | h0 := hi
    · exact absurd rfl (hne l t k)
    · exact h0

end

mutual
theorem expandAssignment (hc : KeepsCalls c) {source : AiScript.Node} (h0 : source.callCount = 0) (target : Node)
    (h : target.steady true = true) :
    Yields (expandAssignment c source target) (callCounts · ≤ target.callCount) := by
  fun_cases Conversion.expandAssignment c source target with
  | case1 m e =>
    have he : Steady [e] := by
      rw [Node.steady_eq] at h
      simpa [Node.steadyNode, Node.children] using h
    refine (expandAssignment hc h0 e (he e (by simp))).mono fun r hr => ?_
    rw [Node.callCount_eq]
    simpa [Node.children] using hr
  | case2 m elements =>
    rw [Node.callCount_eq]
    exact assignElements hc h0 0 elements (steady_children h fun _ => rfl)
  | case3 m properties =>
    rw [Node.callCount_eq]
    exact assignProperties hc h0 properties (steady_children h fun _ => rfl)
  | case4 i => exact yields_bind fun _ => yields_pure (by simp [callCounts, AiScript.Node.callCount, h0])
  | case5 | case6 =>
    refine (hc.expression _ h).bind fun r hr => yields_pure ?_
    simpa [callCounts, AiScript.Node.callCount, h0] using hr
  | case7 | case8 | case9 => exact yields_refuse _ _
termination_by sizeOf target
decreasing_by all_goals (subst_vars; decreasing_tactic)

theorem assignElements (hc : KeepsCalls c) {source : AiScript.Node} (h0 : source.callCount = 0)
    (i : Nat) (elements : List Node) (h : Steady elements) :
    Yields (assignElements c source i elements) (callCounts · ≤ Node.callCounts elements) := by
  fun_cases Conversion.assignElements c source i elements with
  | case1 => exact yields_pure (Nat.le_refl _)
  | case2 m rest =>
    refine (assignElements hc h0 (i + 1) rest (steady_cons.mp h).2).mono fun r hr => ?_
    rw [Node.callCounts_cons]
    omega
  | case3 target rest =>
    obtain ⟨ht, hr⟩ := steady_cons.mp h
    refine (expandAssignment hc (callCount_element h0 i) target ht).bind fun first hf => ?_
    refine (assignElements hc h0 (i + 1) rest hr).bind fun more hm => yields_pure ?_
    simp only [AiScript.callCounts_append, Node.callCounts_cons]
    omega
termination_by sizeOf elements
decreasing_by all_goals (subst_vars; decreasing_tactic)

theorem assignProperties (hc : KeepsCalls c) {source : AiScript.Node}
    (h0 : source.callCount = 0) (properties : List Node) (h : Steady properties) :
    Yields (assignProperties c source properties) (callCounts · ≤ Node.callCounts properties) := by
  fun_cases Conversion.assignProperties c source properties with
  | case1 => exact yields_pure (Nat.le_refl _)
  | case2 => exact yields_refuse_bind _ _
  | case3 m name fallback rest =>
    refine yields_bind fun _ => ?_
    refine (assignProperties hc h0 rest (steady_cons.mp h).2).bind fun more hm => yields_pure ?_
    simp only [callCounts, AiScript.Node.callCount, callCount_member h0, Node.callCounts_cons]
    omega
  | case4 m key target rest =>
    obtain ⟨hp, hr⟩ := steady_cons.mp h
    have hs : Steady [key, target] := steady_children hp fun _ => rfl
    refine yields_bind fun name => ?_
    refine (expandAssignment hc (callCount_member h0 name) target (hs target (by simp))).bind
      fun first hf => ?_
    refine (assignProperties hc h0 rest hr).bind fun more hm => yields_pure ?_
    rw [Node.callCounts_cons, Node.callCount_eq]
    simp only [AiScript.callCounts_append, Node.children, Node.callCounts_cons]
    omega
  | case5 => exact yields_refuse _ _
termination_by sizeOf properties
decreasing_by all_goals (subst_vars; decreasing_tactic)
end

section
variable (hc : KeepsCalls c)
include hc

/-- The targets of an assignment in the place of a statement. -/
theorem assignment {m : Mark} {n left right : Node} {operator : String}
    (h : (Node.binary m left operator right).steady false = true) :
    Yields (convertAssignment c n left operator right)
      (callCounts · ≤ left.callCount + right.callCount) := by
  rw [Node.steady_eq] at h
  simp only [Node.steadyNode, Node.children, List.map_cons, List.map_nil, List.all_cons,
    List.all_nil, Bool.and_true, Bool.false_or, Bool.and_eq_true, Bool.or_eq_true] at h
  obtain ⟨⟨hl, hr⟩, ht⟩ := h
  have hu := (left.steady_unwrap true).trans hl
  have hn := left.callCount_unwrap
  unfold convertAssignment
  dsimp only
  split
  · refine (hc.expression right hr).bind fun value hv => ?_
    refine (bindSource_callCount value).bind ?_
    rintro ⟨source, made⟩ ⟨h0, hm⟩
    refine (expandAssignment hc h0 _ hu).bind fun more hmore => yields_pure ?_
    simp only [AiScript.callCounts_append] at hm ⊢
    omega
  split
  · rename_i op hop
    have hset : left.unwrap.settled = true := by
      simp only [hop, Option.isNone_some, Bool.false_eq_true, false_or] at ht
      unfold Node.settled at ht ⊢
      rwa [left.unwrap_unwrap, hn]
    refine (hc.stableTarget hu hset).bind ?_
    rintro ⟨target, made⟩ ⟨h0, hm⟩
    refine (hc.expression right hr).bind fun value hv => yields_pure ?_
    simp only [AiScript.callCounts_append, callCounts, AiScript.Node.callCount] at h0 hm ⊢
    omega
  · refine (hc.assignTarget hu).bind fun target htarget => ?_
    refine (hc.expression right hr).bind fun value hv => ?_
    have : target.callCount + value.callCount ≤ left.callCount + right.callCount := by omega
    split
    · exact yields_pure (by simpa [callCounts, AiScript.Node.callCount] using this)
    split
    · exact yields_pure (by simpa [callCounts, AiScript.Node.callCount] using this)
    · exact yields_refuse _ _

theorem stepValue {operator : String} {operand : Node} {isAfter : Bool}
    (h : operand.steady true = true) (hs : operand.settled = true) :
    Yields (stepValue c operator operand isAfter) (·.callCount ≤ operand.callCount) := by
  unfold Conversion.stepValue
  refine (hc.stableTarget h hs).bind ?_
  rintro ⟨target, made⟩ ⟨h0, hm⟩
  refine yields_bind fun temp => ?_
  refine yields_pure ?_
  have hsteps : callCounts (if isAfter then [stepBy operator target, define temp target false]
      else [define temp target false, stepBy operator target]) = 0 := by
    split <;> simp_all [callCounts, stepBy, define, AiScript.Node.callCount]
  simp only [AiScript.Node.callCount, AiScript.callCounts_append, hsteps, callCounts] at hm ⊢
  omega

theorem prefixOperation {m : Mark} {n operand : Node} {operator : String}
    (h : (Node.prefixUnary m operator operand).steady true = true) :
    Yields (convertPrefix c n operator operand) (·.callCount ≤ operand.callCount) := by
  rw [Node.steady_eq] at h
  simp only [Node.steadyNode, Node.children, List.map_cons, List.map_nil, List.all_cons,
    List.all_nil, Bool.and_true, Bool.and_eq_true, Bool.not_true, Bool.false_or,
    Bool.or_eq_true] at h
  obtain ⟨ho, hs⟩ := h
  have he := hc.expression operand ho
  unfold convertPrefix
  split
  · exact hc.stepValue ho (by simpa using hs)
  · exact hc.stepValue ho (by simpa using hs)
  · refine he.bind fun r hr => ?_
    split
    · exact yields_pure (Nat.zero_le _)
    · exact yields_pure hr
  · refine he.bind fun r hr => ?_
    split
    · exact yields_pure (Nat.zero_le _)
    · exact yields_pure hr
  · refine he.bind fun r hr => ?_
    split
    · exact yields_pure (Nat.zero_le _)
    · exact yields_pure hr
  · exact yields_refuse _ _

theorem binaryOperation {n left right : Node} {operator : String}
    (hl : left.steady true = true) (hr : right.steady true = true) :
    Yields (convertBinary c n left operator right)
      (·.callCount ≤ left.callCount + right.callCount) := by
  unfold convertBinary
  refine yields_guard ?_
  split
  · exact yields_refuse _ _
  · refine (hc.expression left hl).bind fun l hl' => (hc.expression right hr).bind fun r hr' => ?_
    exact yields_pure (Nat.add_le_add hl' hr')

/-! ### Variables, choices and loops -/

theorem declaration {n : Node} {isMutable : Bool} (h : n.steady true = true) :
    Yields (convertVariable c isMutable n) (callCounts · ≤ n.callCount) := by
  unfold convertVariable
  split
  · rename_i m target type value
    have hs : Steady (target :: type.toList ++ [value]) := steady_children h fun _ => rfl
    have hv : value.steady true = true := hs value (by simp)
    have hle : value.callCount ≤ (Node.variableDeclaration m target type (some value)).callCount := by
      rw [Node.callCount_eq (.variableDeclaration m target type (some value))]
      simp only [Node.children, Node.callCounts_append, Node.callCounts_cons, Option.toList_some,
        Node.callCounts_nil]
      omega
    split
    · refine yields_bind fun _ => (hc.expression value hv).bind fun r hr => yields_pure ?_
      exact Nat.le_trans hr hle
    · refine (hc.expression value hv).bind fun r hr => ?_
      exact (expandDeclaration_callCount isMutable _ r).mono fun rs hrs =>
        Nat.le_trans hrs (Nat.le_trans hr hle)
  · exact yields_refuse _ _

theorem variableDeclarations {ns : List Node} {isMutable : Bool} (h : Steady ns) :
    Yields (convertVariables c isMutable ns) (callCounts · ≤ Node.callCounts ns) := by
  induction ns with
  | nil => exact yields_pure (Nat.le_refl _)
  | cons n ns ih =>
    obtain ⟨hn, hs⟩ := steady_cons.mp h
    refine (hc.declaration hn).bind fun first hf => (ih hs).bind fun more hm => yields_pure ?_
    simp only [AiScript.callCounts_append, Node.callCounts_cons]
    omega

theorem variableList {n : Node} {isUsed : Bool} (h : n.steady isUsed = true) :
    Yields (convertVariableList c n) (callCounts · ≤ n.callCount) := by
  unfold convertVariableList
  split
  · rw [Node.callCount_eq]
    exact hc.variableDeclarations (steady_children h fun _ => rfl)
  · exact yields_pure (Nat.zero_le _)

theorem condition {e : Node} (h : e.steady true = true) :
    Yields (convertCondition c e) (·.callCount ≤ e.callCount) :=
  yields_bind fun _ => hc.expression e h

theorem branch {s : Node} (h : s.steady true = true) :
    Yields (convertBranch c s) (·.callCount ≤ s.callCount) := by
  refine (hc.statement s h).bind fun ns hns => ?_
  split
  · exact yields_pure (Nat.zero_le _)
  · exact yields_pure (by rwa [callCount_asOne])

end

mutual
theorem elseBranches (hc : KeepsCalls c) (n : Node) (h : n.steady true = true) :
    Yields (elseBranches c n) fun r => branchCalls r.1 + optionCalls r.2 ≤ n.callCount := by
  fun_cases Conversion.elseBranches c n with
  | case1 m test body otherwise =>
    have hs : Steady (test :: body :: otherwise.toList) := steady_children h fun _ => rfl
    simp only [steady_cons] at hs
    refine (hc.condition hs.1).bind fun t ht => (hc.branch hs.2.1).bind fun b hb => ?_
    refine (elseBranches? hc otherwise hs.2.2).bind ?_
    rintro ⟨branches, last⟩ hr
    refine yields_pure ?_
    rw [Node.callCount_eq]
    simp only [branchCalls, Node.children, Node.callCounts_cons] at hr ⊢
    omega
  | case2 n =>
    refine (hc.branch h).bind fun r hr => yields_pure ?_
    simpa [branchCalls, optionCalls] using hr
termination_by sizeOf n
decreasing_by all_goals (subst_vars; decreasing_tactic)

theorem elseBranches? (hc : KeepsCalls c) (n : Option Node) (h : Steady n.toList) :
    Yields (elseBranches? c n) fun r =>
      branchCalls r.1 + optionCalls r.2 ≤ Node.callCounts n.toList := by
  fun_cases Conversion.elseBranches? c n with
  | case1 => exact yields_pure (Nat.le_refl _)
  | case2 n =>
    have := elseBranches hc n (h n (by simp))
    simpa using this
termination_by sizeOf n
decreasing_by all_goals (subst_vars; decreasing_tactic)
end

section
variable (hc : KeepsCalls c)
include hc

theorem elseValues {n : Node} (h : n.steady true = true) :
    Yields (elseValues c n) fun r => branchCalls r.1 + r.2.callCount ≤ n.callCount := by
  fun_induction Conversion.elseValues c n with
  | case1 m test whenTrue whenFalse ih =>
    have hs : Steady [test, whenTrue, whenFalse] := steady_children h fun _ => rfl
    simp only [steady_cons] at hs
    refine (hc.condition hs.1).bind fun t ht => (hc.expression _ hs.2.1).bind fun v hv => ?_
    refine (ih hs.2.2.1).bind ?_
    rintro ⟨branches, last⟩ hr
    refine yields_pure ?_
    rw [Node.callCount_eq]
    simp only [branchCalls, Node.children, Node.callCounts_cons] at hr ⊢
    omega
  | case2 n =>
    refine (hc.expression n h).bind fun r hr => yields_pure ?_
    simpa [branchCalls] using hr

/-! ### Switches -/

theorem caseStatements {clause : Node} {ns : List Node} (h : Steady ns) :
    Yields (caseStatements c clause ns) (callCounts · ≤ Node.callCounts ns) := by
  induction ns with
  | nil => exact yields_refuse _ _
  | cons n ns ih =>
    obtain ⟨hn, hs⟩ := steady_cons.mp h
    unfold Conversion.caseStatements
    split
    · exact yields_pure (Nat.zero_le _)
    · exact yields_refuse _ _
    · refine (hc.statement _ hn).mono fun r hr => ?_
      rw [Node.callCounts_cons]
      omega
    · refine yields_guard ((hc.statement _ hn).bind fun first hf => (ih hs).bind fun more hm => ?_)
      refine yields_pure ?_
      simp only [AiScript.callCounts_append, Node.callCounts_cons]
      omega

theorem caseBody {clause : Node} {ns : List Node} (h : Steady ns) :
    Yields (caseBody c clause ns) (callCounts · ≤ Node.callCounts ns) := by
  have ho := openTail_calls ns h
  exact (hc.caseStatements ho.1).mono fun r hr => Nat.le_trans hr ho.2

theorem addCase {subject : String} {cases : Cases} {clause test : Node} {ns : List Node}
    (ht : test.steady true = true) (h : Steady ns) :
    Yields (addCase c subject cases clause test ns)
      (·.callCount ≤ cases.callCount + test.callCount + Node.callCounts ns) := by
  unfold Conversion.addCase
  refine (hc.expression test ht).bind fun t ht => ?_
  dsimp only
  split
  · refine yields_pure ?_
    simp only [Cases.callCount, AiScript.callCounts_append, callCounts, AiScript.Node.callCount]
    omega
  · refine yields_pure ?_
    omega
  · rename_i first more hp _
    refine (hc.caseBody h).bind fun body hb => yields_pure ?_
    have hpending := congrArg callCounts hp
    simp only [AiScript.callCounts_append, callCounts, AiScript.Node.callCount] at hpending
    simp only [Cases.callCount, List.map_append, List.sum_append, List.map_cons, List.map_nil,
      List.sum_cons, List.sum_nil, callCount_anyOf, callCounts, AiScript.Node.callCount]
    omega

theorem addDefault {cases : Cases} {clause : Node} {ns : List Node} {isLast : Bool}
    (h : Steady ns) :
    Yields (addDefault c cases clause ns isLast)
      (·.callCount ≤ cases.callCount + Node.callCounts ns) := by
  unfold Conversion.addDefault
  split
  · refine yields_guard (yields_pure ?_)
    simp only [Cases.callCount, callCounts]
    omega
  · refine (hc.caseBody h).bind fun body hb => yields_pure ?_
    simp only [Cases.callCount, callCounts]
    omega

theorem convertCases {subject : String} {cases : Cases} {ns : List Node} (h : Steady ns) :
    Yields (convertCases c subject cases ns) (·.callCount ≤ cases.callCount + Node.callCounts ns) := by
  induction ns generalizing cases with
  | nil => exact yields_pure (Nat.le_refl _)
  | cons n ns ih =>
    obtain ⟨hn, hs⟩ := steady_cons.mp h
    unfold Conversion.convertCases
    split
    · rename_i m test statements
      have hk : Steady (test :: statements) := steady_children hn fun _ => rfl
      refine (hc.addCase (hk test (by simp)) (steady_cons.mp hk).2).bind fun cases' h' => ?_
      refine (ih hs).mono fun r hr => ?_
      rw [Node.callCounts_cons, Node.callCount_eq]
      simp only [Node.children, Node.callCounts_cons]
      omega
    · rename_i m statements
      have hk : Steady statements := steady_children hn fun _ => rfl
      refine (hc.addDefault hk).bind fun cases' h' => (ih hs).mono fun r hr => ?_
      rw [Node.callCounts_cons, Node.callCount_eq]
      simp only [Node.children]
      omega
    · refine (ih hs).mono fun r hr => ?_
      rw [Node.callCounts_cons]
      omega

theorem switch {subject : Node} {clauses : List Node} (hsub : subject.steady true = true)
    (h : Steady clauses) :
    Yields (convertSwitch c subject clauses)
      (callCounts · ≤ subject.callCount + Node.callCounts clauses) := by
  unfold convertSwitch
  refine (hc.expression subject hsub).bind fun value hv => yields_bind fun temp => ?_
  refine (hc.convertCases h).bind fun cases hcases => yields_pure ?_
  have := cases.callCounts_statements
  simp only [Cases.callCount, callCounts, define, AiScript.Node.callCount, List.map_nil,
    List.sum_nil] at hcases this ⊢
  omega

/-! ### Loops -/

theorem guard {test : Node} (h : test.steady true = true) :
    Yields (convertGuard c test) (callCounts · ≤ test.callCount) := by
  unfold convertGuard
  refine (hc.condition h).bind fun t ht => ?_
  split
  · exact yields_pure (Nat.zero_le _)
  · exact yields_pure (by simpa [callCounts, AiScript.Node.callCount, branchCalls, optionCalls] using ht)

theorem guard? {test : Option Node} (h : Steady test.toList) :
    Yields (convertGuard? c test) (callCounts · ≤ Node.callCounts test.toList) := by
  cases test with
  | none => exact yields_pure (Nat.le_refl _)
  | some test => simpa [convertGuard?] using hc.guard (h test (by simp))

theorem loopBody {body : Node} (h : body.steady true = true) :
    Yields (loopBody c body) (callCounts · ≤ body.callCount) := by
  unfold Conversion.loopBody
  split
  · rename_i m statements
    rw [Node.callCount_eq (.block m statements)]
    exact hc.statements (steady_children h fun _ => rfl)
  · exact hc.statement _ h

theorem loopStart {start : Option Node} (h : ∀ e ∈ start, e.steady false = true) :
    Yields (loopStart c start) (callCounts · ≤ Node.callCounts start.toList) := by
  unfold Conversion.loopStart
  split
  · exact yields_pure (Nat.le_refl _)
  · simpa using hc.variableList (h _ rfl)
  · simpa using hc.effects _ (h _ rfl)

theorem loopAdvance {advance : Option Node} (h : ∀ e ∈ advance, e.steady false = true) :
    Yields (loopAdvance c advance) (callCounts · ≤ Node.callCounts advance.toList) := by
  unfold Conversion.loopAdvance
  split
  · exact yields_pure (Nat.le_refl _)
  · simpa using hc.effects _ (h _ rfl)

omit hc in
theorem callCount_afterFirst (flag : String) (later : List AiScript.Node) :
    (afterFirst flag later).callCount = callCounts later := by
  simp [afterFirst, AiScript.Node.callCount, callCounts, branchCalls, optionCalls]

theorem forLoop {m : Mark} {start test advance : Option Node} {body : Node}
    (h : (Node.forStatement m start test advance body).steady true = true) :
    Yields (convertFor c start test advance body)
      (callCounts · ≤ (Node.forStatement m start test advance body).callCount) := by
  obtain ⟨hs, ht, ha, hb⟩ := Node.steady_for h
  rw [Node.callCount_eq]
  simp only [Node.children, Node.callCounts_append, Node.callCounts_cons, Node.callCounts_nil]
  unfold convertFor
  refine (hc.loopStart hs).bind fun prologue hs => (hc.guard? ht).bind fun check ht => ?_
  refine (hc.loopBody hb).bind fun round hb => (hc.loopAdvance ha).bind fun later ha => ?_
  dsimp only
  split
  · refine yields_bind fun flag => yields_pure ?_
    simp only [callCounts, AiScript.Node.callCount, AiScript.callCounts_append, define,
      callCount_afterFirst]
    omega
  · refine yields_pure ?_
    split
    · simp only [callCounts, AiScript.Node.callCount, AiScript.callCounts_append]
      omega
    · simp only [callCounts, AiScript.Node.callCount, AiScript.callCounts_append]
      omega

theorem whileLoop {test body : Node} (ht : test.steady true = true) (hb : body.steady true = true) :
    Yields (convertWhile c test body) (callCounts · ≤ test.callCount + body.callCount) := by
  unfold convertWhile
  refine (hc.guard ht).bind fun check ht => (hc.loopBody hb).bind fun round hb => yields_pure ?_
  simp only [callCounts, AiScript.Node.callCount, AiScript.callCounts_append]
  omega

theorem doLoop {body test : Node} (hb : body.steady true = true) (ht : test.steady true = true) :
    Yields (convertDo c body test) (callCounts · ≤ body.callCount + test.callCount) := by
  unfold convertDo
  refine (hc.loopBody hb).bind fun round hb => (hc.guard ht).bind fun check ht => ?_
  split
  · refine yields_bind fun flag => yields_pure ?_
    simp only [callCounts, AiScript.Node.callCount, define, callCount_afterFirst]
    omega
  · refine yields_pure ?_
    simp only [callCounts, AiScript.Node.callCount, AiScript.callCounts_append]
    omega

omit hc in
theorem loopVariable (target : Node) :
    Yields (loopVariable target) fun r => CallFree r.2 := by
  unfold Conversion.loopVariable
  split
  · split
    · exact yields_bind fun _ => yields_pure rfl
    · exact bindingParameter_callFree _ _
  · exact yields_refuse _ _

theorem forOfLoop {target items body : Node} (hi : items.steady true = true)
    (hb : body.steady true = true) :
    Yields (convertForOf c target items body) (callCounts · ≤ items.callCount + body.callCount) := by
  unfold convertForOf
  refine yields_guard (yields_bind fun _ => ?_)
  refine (hc.expression items hi).bind fun items hi => ?_
  refine (loopVariable target).bind ?_
  rintro ⟨name, made⟩ hm
  refine (hc.loopBody hb).bind fun round hb => yields_pure ?_
  simp only [CallFree] at hm
  simp only [callCounts, AiScript.Node.callCount, callCount_asOne, AiScript.callCounts_append, hm]
  omega

end

end KeepsCalls

end ScriptBridge.Conversion
