import ScriptBridge.Proofs.Conversion.KeepsCalls
import ScriptBridge.Proofs.Project.Sources

/-!
# No call of the source is made twice

Every capability keeps the number of calls if the converter it works with does, so the converter of
the usual capabilities does so at every depth, and with it the conversion of a text.

* `Capability.KeepsCalls`: what a capability has to do.
* `callCount_convertSource_le`: a steady source has no more calls in its output than in itself.
-/

namespace ScriptBridge.Conversion

open TypeScript
open TypeScript.Node (Steady steady_children steady_cons steady_append)
open AiScript (callCounts entryCalls paramCalls branchCalls optionCalls)

/-- The number of calls in the nodes that a capability gives, if it does. -/
def resultCalls (result : Option (List AiScript.Node)) : Nat :=
  (result.map callCounts).getD 0

/-- A capability that gives no more calls than the source has, where the source is steady. Where it
has no effects for a node, its expression for that node stands in for them. -/
structure Capability.KeepsCalls (cap : Capability) (c : Converter) : Prop where
  expression : ∀ n : Node, n.steady true = true →
    Yields (cap.expression c n) (optionCalls · ≤ n.callCount)
  effects : ∀ n : Node, n.steady false = true → Yields (cap.effects c n) fun r =>
    resultCalls r ≤ n.callCount ∧
      (r = none → Yields (cap.expression c n) (optionCalls · ≤ n.callCount))
  statement : ∀ n : Node, n.steady true = true →
    Yields (cap.statement c n) (resultCalls · ≤ n.callCount)
  element : ∀ m target key isOptional,
    Yields (cap.expression c (.elementAccess m target key isOptional)) fun r =>
      ∀ v ∈ r, ∃ l target key, v = .index l target key

theorem yields_none {α : Type} {P : Option α → Prop} (h : P none) :
    Yields (pure none : ConvertM (Option α)) P :=
  yields_pure h

/-- A capability without effects of its own keeps the number of calls if its expressions do so whether
their values are used or not. -/
theorem Capability.KeepsCalls.of_expression {cap : Capability} {c : Converter}
    (effects : ∀ n, cap.effects c n = pure none)
    (expression : ∀ {n : Node} {isUsed : Bool}, n.steady isUsed = true →
      Yields (cap.expression c n) (optionCalls · ≤ n.callCount))
    (statement : ∀ {n : Node}, n.steady true = true →
      Yields (cap.statement c n) (resultCalls · ≤ n.callCount))
    (element : ∀ m target key isOptional,
      Yields (cap.expression c (.elementAccess m target key isOptional)) fun r =>
        ∀ v ∈ r, ∃ l target key, v = .index l target key) : cap.KeepsCalls c where
  expression _ h := expression h
  effects n h := by
    rw [effects]
    exact yields_none ⟨Nat.zero_le _, fun _ => expression h⟩
  statement _ h := statement h
  element := element

section
variable {c : Converter} (hc : KeepsCalls c)
include hc

/-! ## Literals and names -/

theorem literals_expression {n : Node} {isUsed : Bool} (h : n.steady isUsed = true) :
    Yields (literals.expression c n) (optionCalls · ≤ n.callCount) := by
  dsimp only [literals]
  split
  · exact yields_bind fun _ => yields_pure (Nat.zero_le _)
  · exact yields_pure (Nat.zero_le _)
  · exact yields_pure (Nat.zero_le _)
  · exact yields_refuse _ _
  · exact yields_pure (Nat.zero_le _)
  · rename_i m head spans
    refine (hc.parts (steady_children h fun _ => rfl)).bind fun parts hp => yields_pure ?_
    have ht : callCounts (templateText head) = 0 := by
      unfold templateText
      split <;> rfl
    rw [Node.callCount_eq (.template m head spans)]
    simp only [optionCalls, AiScript.Node.callCount, AiScript.callCounts_append, ht] at hp ⊢
    omega
  · rename_i m elements
    refine (hc.items (steady_children h fun _ => rfl)).bind fun items hi => yields_pure ?_
    rw [Node.callCount_eq (.array m elements)]
    exact hi
  · rename_i m properties
    refine (hc.entries [] (steady_children h fun _ => rfl)).bind fun es he =>
      yields_pure ?_
    rw [Node.callCount_eq (.object m properties)]
    simpa [entryCalls, optionCalls, AiScript.Node.callCount] using he
  · exact yields_none (Nat.zero_le _)

theorem types_expression {n : Node} {isUsed : Bool} (h : n.steady isUsed = true) :
    Yields (types.expression c n) (optionCalls · ≤ n.callCount) := by
  dsimp only [types]
  have part {e : Node} {more : List Node} (hs : Steady (e :: more))
      (hn : n.callCount = Node.callCounts (e :: more)) :
      Yields (do return some (← c.expression e)) (optionCalls · ≤ n.callCount) := by
    refine (hc.expression e (hs e (by simp))).bind fun r hr => yields_pure ?_
    rw [hn, Node.callCounts_cons]
    simp only [optionCalls]
    omega
  split
  · exact part (steady_children h fun _ => rfl) (Node.callCount_eq _)
  · exact part (steady_children h fun _ => rfl) (Node.callCount_eq _)
  · exact part (steady_children h fun _ => rfl) (Node.callCount_eq _)
  · exact yields_none (Nat.zero_le _)

theorem access_expression {n : Node} {isUsed : Bool} (h : n.steady isUsed = true) :
    Yields (access.expression c n) (optionCalls · ≤ n.callCount) := by
  dsimp only [access]
  split
  · rename_i m callee args isOptional
    have hs : Steady (callee :: args) := steady_children h fun _ => rfl
    refine yields_guard ((hc.args (steady_cons.mp hs).2).bind fun as ha => ?_)
    refine (hc.expression callee (steady_cons.mp hs).1).bind fun f hf => yields_pure ?_
    rw [Node.callCount_eq (.call m callee args isOptional)]
    simp only [optionCalls, AiScript.Node.callCount, Node.children, Node.callCounts_cons]
    omega
  · rename_i m target name isOptional
    have hs : Steady [target, .ident name] := steady_children h fun _ => rfl
    refine yields_guard ((hc.property (steady_cons.mp hs).1 _).bind fun r hr => yields_pure ?_)
    rw [Node.callCount_eq (.propertyAccess m target name isOptional)]
    simp only [optionCalls, Node.children, Node.callCounts_cons]
    omega
  · rename_i m target key isOptional
    have hs : Steady [target, key] := steady_children h fun _ => rfl
    simp only [steady_cons] at hs
    refine yields_guard (yields_bind fun _ => (hc.expression target hs.1).bind fun t ht => ?_)
    refine (hc.expression key hs.2.1).bind fun k hk => yields_pure ?_
    rw [Node.callCount_eq (.elementAccess m target key isOptional)]
    simp only [optionCalls, AiScript.Node.callCount, Node.children, Node.callCounts_cons]
    omega
  · exact yields_refuse _ _
  · exact yields_none (Nat.zero_le _)

omit hc in
theorem access_element (m : Mark) (target key : Node) (isOptional : Bool) :
    Yields (access.expression c (.elementAccess m target key isOptional)) fun r =>
      ∀ v ∈ r, ∃ l target key, v = .index l target key := by
  dsimp only [access]
  refine yields_guard (yields_bind fun _ => yields_bind fun t => yields_bind fun k => ?_)
  refine yields_pure ?_
  rintro v ⟨⟩
  exact ⟨_, _, _, rfl⟩

/-! ## Functions, choices and loops -/

theorem functions_expression {n : Node} {isUsed : Bool} (h : n.steady isUsed = true) :
    Yields (functions.expression c n) (optionCalls · ≤ n.callCount) := by
  dsimp only [functions]
  split
  · rename_i m params body result typeParams isAsync
    have hs : Steady (params ++ body :: result.toList ++ typeParams) :=
      steady_children h fun _ => rfl
    simp only [steady_append, steady_cons] at hs
    refine (hc.function hs.1.1 hs.1.2.1).bind fun r hr => yields_pure ?_
    rw [Node.callCount_eq (.arrow m params body result typeParams isAsync)]
    simp only [optionCalls, Node.children, Node.callCounts_append, Node.callCounts_cons]
    omega
  · rename_i m name params body result typeParams isAsync isGenerator
    have hs : Steady (name.toList.map Node.ident ++ params ++ body :: result.toList ++ typeParams) :=
      steady_children h fun _ => rfl
    simp only [steady_append, steady_cons] at hs
    refine (hc.function hs.1.1.2 hs.1.2.1).bind fun r hr => yields_pure ?_
    rw [Node.callCount_eq (.function m name params body result typeParams isAsync isGenerator)]
    simp only [optionCalls, Node.children, Node.callCounts_append, Node.callCounts_cons]
    omega
  · exact yields_none (Nat.zero_le _)

/-- The function value of a declared function. -/
theorem declaredFunction {m : Mark} {modifiers : List Modifier} {name : Option Ident}
    {params typeParams : List Node} {body : Node} {result : Option Node} {isAsync isGenerator : Bool}
    {n : Node} (h : (Node.functionDeclaration m modifiers name params (some body) result typeParams
      isAsync isGenerator).steady true = true) :
    Yields (convertFunction c n isAsync isGenerator params body) (·.callCount ≤
      (Node.functionDeclaration m modifiers name params (some body) result typeParams isAsync
        isGenerator).callCount) := by
  have hs : Steady (modifiers.map Node.modifier ++ name.toList.map Node.ident ++ params ++ [body] ++
      result.toList ++ typeParams) := steady_children h fun _ => rfl
  simp only [steady_append, steady_cons] at hs
  refine (hc.function hs.1.1.1.2 hs.1.1.2.1).mono fun r hr => ?_
  rw [Node.callCount_eq (.functionDeclaration m modifiers name params (some body) result typeParams
    isAsync isGenerator)]
  simp only [Node.children, Node.callCounts_append, Option.toList_some, Node.callCounts_cons]
  omega

theorem functions_statement {n : Node} (h : n.steady true = true) :
    Yields (functions.statement c n) (resultCalls · ≤ n.callCount) := by
  dsimp only [functions]
  split
  · split
    · exact yields_pure (Nat.zero_le _)
    split
    · exact yields_refuse _ _
    · refine yields_bind fun _ => (declaredFunction hc h).bind fun r hr => yields_pure ?_
      simpa [resultCalls, callCounts, define, AiScript.Node.callCount] using hr
  · exact yields_pure (Nat.zero_le _)
  · exact yields_none (Nat.zero_le _)

theorem declarations_statement {n : Node} (h : n.steady true = true) :
    Yields (declarations.statement c n) (resultCalls · ≤ n.callCount) := by
  dsimp only [declarations]
  split
  · rename_i m modifiers list
    have hs : Steady (modifiers.map Node.modifier ++ [list]) := steady_children h fun _ => rfl
    split
    · exact yields_pure (Nat.zero_le _)
    · refine (hc.variableList (hs list (by simp))).bind fun r hr => yields_pure ?_
      rw [Node.callCount_eq (.variableStatement m modifiers list)]
      simp only [resultCalls, Option.map_some, Option.getD_some, Node.children,
        Node.callCounts_append, Node.callCounts_cons]
      omega
  · exact yields_none (Nat.zero_le _)

theorem control_expression {n : Node} {isUsed : Bool} (h : n.steady isUsed = true) :
    Yields (control.expression c n) (optionCalls · ≤ n.callCount) := by
  dsimp only [control]
  split
  · rename_i m test whenTrue whenFalse
    have hs : Steady [test, whenTrue, whenFalse] := steady_children h fun _ => rfl
    simp only [steady_cons] at hs
    refine (hc.condition hs.1).bind fun t ht => (hc.expression _ hs.2.1).bind fun v hv => ?_
    refine (hc.elseValues hs.2.2.1).bind ?_
    rintro ⟨branches, last⟩ hr
    refine yields_pure ?_
    rw [Node.callCount_eq (.conditional m test whenTrue whenFalse)]
    simp only [optionCalls, AiScript.Node.callCount, Node.children, Node.callCounts_cons] at hr ⊢
    omega
  · exact yields_none (Nat.zero_le _)

theorem control_statement {n : Node} (h : n.steady true = true) :
    Yields (control.statement c n) (resultCalls · ≤ n.callCount) := by
  dsimp only [control]
  split
  · rename_i m test body otherwise
    have hs : Steady (test :: body :: otherwise.toList) := steady_children h fun _ => rfl
    simp only [steady_cons] at hs
    refine (hc.condition hs.1).bind fun t ht => (hc.branch hs.2.1).bind fun b hb => ?_
    refine (hc.elseBranches? otherwise hs.2.2).bind ?_
    rintro ⟨branches, last⟩ hr
    refine yields_pure ?_
    rw [Node.callCount_eq (.ifStatement m test body otherwise)]
    simp only [resultCalls, Option.map_some, Option.getD_some, callCounts, AiScript.Node.callCount,
      Node.children, Node.callCounts_cons] at hr ⊢
    omega
  · exact (hc.forLoop h).bind fun r hr => yields_pure hr
  · rename_i m test body
    have hs : Steady [test, body] := steady_children h fun _ => rfl
    refine (hc.whileLoop (hs test (by simp)) (hs body (by simp))).bind fun r hr => yields_pure ?_
    rw [Node.callCount_eq (.whileStatement m test body)]
    simpa [Node.children, resultCalls] using hr
  · rename_i m body test
    have hs : Steady [body, test] := steady_children h fun _ => rfl
    refine (hc.doLoop (hs body (by simp)) (hs test (by simp))).bind fun r hr => yields_pure ?_
    rw [Node.callCount_eq (.doStatement m body test)]
    simpa [Node.children, resultCalls] using hr
  · rename_i m target items body isAwait
    have hs : Steady [target, items, body] := steady_children h fun _ => rfl
    refine yields_guard ((hc.forOfLoop (hs items (by simp)) (hs body (by simp))).bind fun r hr => ?_)
    refine yields_pure ?_
    rw [Node.callCount_eq (.forOfStatement m target items body isAwait)]
    simp only [resultCalls, Option.map_some, Option.getD_some, Node.children, Node.callCounts_cons]
    omega
  · exact yields_refuse _ _
  · rename_i m subject clauses
    have hs : Steady (subject :: clauses) := steady_children h fun _ => rfl
    refine (hc.switch (steady_cons.mp hs).1 (steady_cons.mp hs).2).bind fun r hr => yields_pure ?_
    rw [Node.callCount_eq (.switchStatement m subject clauses)]
    simpa [Node.children, resultCalls] using hr
  · exact yields_none (Nat.zero_le _)

theorem statements_statement {n : Node} (h : n.steady true = true) :
    Yields (statements.statement c n) (resultCalls · ≤ n.callCount) := by
  dsimp only [statements]
  split
  · rename_i m e
    have he : e.steady false = true := by
      rw [Node.steady_eq] at h
      simpa [Node.steadyNode, Node.children] using h
    refine (hc.effects e he).bind fun r hr => yields_pure ?_
    rw [Node.callCount_eq (.expressionStatement m e)]
    simpa [Node.children, resultCalls] using hr
  · rename_i m inner
    refine (hc.statements (steady_children h fun _ => rfl)).bind fun r hr => yields_pure ?_
    rw [Node.callCount_eq (.block m inner)]
    simpa [Node.children, resultCalls, callCounts, AiScript.Node.callCount] using hr
  · exact yields_pure (Nat.zero_le _)
  · exact yields_pure (Nat.zero_le _)
  · rename_i m e
    have hs : Steady [e] := steady_children h fun _ => rfl
    refine (hc.expression e (hs e (by simp))).bind fun r hr => yields_pure ?_
    rw [Node.callCount_eq (.returnStatement m (some e))]
    simpa [Node.children, resultCalls, callCounts, AiScript.Node.callCount] using hr
  · exact yields_refuse _ _
  · exact yields_refuse _ _
  · exact yields_refuse _ _
  · exact yields_pure (Nat.zero_le _)
  · exact yields_pure (Nat.zero_le _)
  · exact yields_none (Nat.zero_le _)

omit hc in
theorem types_statement (n : Node) : Yields (types.statement c n) (resultCalls · ≤ n.callCount) := by
  dsimp only [types]
  split
  · exact yields_pure (Nat.zero_le _)
  · exact yields_pure (Nat.zero_le _)
  split
  · exact yields_pure (Nat.zero_le _)
  split
  · exact yields_refuse _ _
  · exact yields_none (Nat.zero_le _)

/-! ## Parentheses and operators

These two have effects of their own, so whether a value is used matters to them. -/

theorem identifiers_keepsCalls : identifiers.KeepsCalls c where
  expression := by
    intro n h
    dsimp only [identifiers]
    split
    · refine yields_pure ?_
      split <;> exact Nat.zero_le _
    · rename_i m e
      rw [Node.steady_eq] at h
      simp only [Node.steadyNode, Node.children, List.map_cons, List.map_nil, List.all_cons,
        List.all_nil, Bool.and_true] at h
      refine (hc.expression e h).bind fun r hr => yields_pure ?_
      rw [Node.callCount_eq (.parenthesized m e)]
      simpa [Node.children, optionCalls] using hr
    · exact yields_none (Nat.zero_le _)
  effects := by
    intro n h
    dsimp only [identifiers]
    split
    · rename_i m e
      rw [Node.steady_eq] at h
      simp only [Node.steadyNode, Node.children, List.map_cons, List.map_nil, List.all_cons,
        List.all_nil, Bool.and_true] at h
      refine (hc.effects e h).bind fun r hr => yields_pure ⟨?_, nofun⟩
      rw [Node.callCount_eq (.parenthesized m e)]
      simpa [Node.children, resultCalls] using hr
    · rename_i hne
      refine yields_none ⟨Nat.zero_le _, fun _ => ?_⟩
      split
      · refine yields_pure ?_
        split <;> exact Nat.zero_le _
      · exact absurd rfl (hne _ _)
      · exact yields_none (Nat.zero_le _)
  statement _ _ := yields_none (Nat.zero_le _)
  element _ _ _ _ := yields_none nofun

theorem operators_expression {n : Node} (h : n.steady true = true) :
    Yields (operators.expression c n) (optionCalls · ≤ n.callCount) := by
  dsimp only [operators]
  split
  · rename_i m left operator right
    rw [Node.steady_eq] at h
    simp only [Node.steadyNode, Node.children, List.map_cons, List.map_nil, List.all_cons,
      List.all_nil, Bool.and_true, Bool.true_or, Bool.and_eq_true] at h
    refine (hc.binaryOperation h.1 h.2).bind fun r hr => yields_pure ?_
    rw [Node.callCount_eq (.binary m left operator right)]
    simpa [Node.children, optionCalls] using hr
  · rename_i m operator operand
    refine (hc.prefixOperation h).bind fun r hr => yields_pure ?_
    rw [Node.callCount_eq (.prefixUnary m operator operand)]
    simpa [Node.children, optionCalls] using hr
  · rename_i m operand operator
    rw [Node.steady_eq] at h
    simp only [Node.steadyNode, Node.children, List.map_cons, List.map_nil, List.all_cons,
      List.all_nil, Bool.and_true, Bool.not_true, Bool.false_or, Bool.and_eq_true] at h
    refine (hc.stepValue h.1 h.2).bind fun r hr => yields_pure ?_
    rw [Node.callCount_eq (.postfixUnary m operand operator)]
    simpa [Node.children, optionCalls] using hr
  · exact yields_refuse _ _
  · exact yields_refuse _ _
  · exact yields_refuse _ _
  · exact yields_refuse _ _
  · exact yields_none (Nat.zero_le _)

/-- A change by one whose value is not used writes its target once. -/
theorem stepEffect {operator : String} {operand : Node} (h : operand.steady true = true) :
    Yields (do return some [stepBy operator (← assignTarget c operand)]) fun r =>
      resultCalls r ≤ operand.callCount ∧ r ≠ none := by
  refine (hc.assignTarget h).bind fun r hr => yields_pure ⟨?_, nofun⟩
  simpa [resultCalls, callCounts, stepBy, AiScript.Node.callCount] using hr

omit hc in
/-- Every operator of an assignment that is written out is one that assigns. -/
theorem expanded_none {operator : String} (h : assignmentOperators.contains operator = false) :
    expandedAssignments.lookup operator = none := by
  rw [List.lookup_eq_none_iff]
  intro p hp
  simp only [assignmentOperators, List.contains_eq_mem, decide_eq_false_iff_not, List.mem_cons,
    not_or] at h
  simp only [expandedAssignments, List.mem_cons, List.not_mem_nil, or_false] at hp
  rcases hp with rfl | rfl | rfl | rfl | rfl | rfl <;> simp_all

theorem operators_effects {n : Node} (h : n.steady false = true) :
    Yields (operators.effects c n) fun r =>
      resultCalls r ≤ n.callCount ∧ (r = none → n.steady true = true) := by
  have hu := (n.steady_unwrap false).trans h
  have hn := n.callCount_unwrap
  dsimp only [operators]
  split
  · rename_i m left operator right he
    rw [he] at hu hn
    split
    · refine (hc.assignment hu).bind fun r hr => yields_pure ⟨?_, nofun⟩
      rw [Node.callCount_eq (.binary m left operator right)] at hn
      simp only [Node.children, Node.callCounts_cons, Node.callCounts_nil] at hn
      simp only [resultCalls, Option.map_some, Option.getD_some]
      omega
    · rename_i ha
      refine yields_none ⟨Nat.zero_le _, fun _ => ?_⟩
      rw [← Node.steady_unwrap, he]
      rw [Node.steady_eq] at hu ⊢
      simpa [Node.steadyNode, expanded_none (by simpa using ha)] using hu
  · rename_i m operator operand he
    rw [he] at hu hn
    rw [Node.steady_eq] at hu
    simp only [Node.steadyNode, Node.children, List.map_cons, List.map_nil, List.all_cons,
      List.all_nil, Bool.and_true, Bool.not_false, Bool.true_or] at hu
    split
    · refine (stepEffect hc hu).mono fun r hr => ⟨?_, fun h0 => absurd h0 hr.2⟩
      rw [Node.callCount_eq (.prefixUnary m operator operand)] at hn
      simp only [Node.children, Node.callCounts_cons, Node.callCounts_nil] at hn
      omega
    · rename_i ho
      refine yields_none ⟨Nat.zero_le _, fun _ => ?_⟩
      rw [← Node.steady_unwrap, he, Node.steady_eq]
      simp_all [Node.steadyNode, Node.children]
  · rename_i m operand operator he
    rw [he] at hu hn
    rw [Node.steady_eq] at hu
    simp only [Node.steadyNode, Node.children, List.map_cons, List.map_nil, List.all_cons,
      List.all_nil, Bool.and_true, Bool.not_false, Bool.true_or] at hu
    refine (stepEffect hc hu).mono fun r hr => ⟨?_, fun h0 => absurd h0 hr.2⟩
    rw [Node.callCount_eq (.postfixUnary m operand operator)] at hn
    simp only [Node.children, Node.callCounts_cons, Node.callCounts_nil] at hn
    omega
  · rename_i hb hp hq
    exact yields_none ⟨Nat.zero_le _, fun _ => Node.steady_used h hb hp hq⟩

theorem operators_keepsCalls : operators.KeepsCalls c where
  expression _ h := operators_expression hc h
  effects _ h := (operators_effects hc h).mono fun _ hr =>
    ⟨hr.1, fun h0 => operators_expression hc (hr.2 h0)⟩
  statement _ _ := yields_none (Nat.zero_le _)
  element _ _ _ _ := yields_none nofun

/-! ## Imports and exports -/

omit hc in
theorem importNames_callFree (module : ConvertM String) (elements : List Node) :
    Yields (importNames module elements) CallFree := by
  fun_induction importNames module elements with
  | case1 => exact yields_pure rfl
  | case2 m imported i isTypeOnly rest ih =>
    refine yields_bind fun isType => ?_
    have after {first : List AiScript.Node} (h : CallFree first) :
        Yields (do return first ++ (← importNames module rest)) CallFree :=
      ih.bind fun more hm => yields_pure (by simp_all [CallFree])
    dsimp only
    split
    · exact Yields.bind (P := CallFree) (yields_pure rfl) fun _ h => after h
    · refine yields_bind fun _ => yields_bind fun _ => ?_
      exact Yields.bind (P := CallFree) (yields_pure rfl) fun _ h => after h
  | case3 n rest _ ih => exact ih

omit hc in
theorem imports_statement (n : Node) :
    Yields (imports.statement c n) (resultCalls · ≤ n.callCount) := by
  dsimp only [imports]
  split
  · rename_i m _ name allAs elements _ specifier
    have hd : Yields (importDefault (moduleName specifier m.span) name) CallFree := by
      unfold importDefault
      split
      · exact yields_pure rfl
      · refine yields_bind fun isType => ?_
        split
        · exact yields_pure rfl
        · exact yields_bind fun _ => yields_bind fun _ => yields_pure rfl
    have ha : Yields (importAll (moduleName specifier m.span) allAs) CallFree := by
      unfold importAll
      split
      · exact yields_pure rfl
      · exact yields_bind fun _ => yields_bind fun _ => yields_pure rfl
    refine hd.bind fun first hf => ha.bind fun second hs => ?_
    refine (importNames_callFree _ _).bind fun more hm => yields_pure ?_
    simp_all [CallFree, resultCalls]
  · exact yields_pure (Nat.zero_le _)
  · exact yields_none (Nat.zero_le _)

theorem exportDefault_calls {e : Node} (h : e.steady true = true) :
    Yields (exportDefault c e) (callCounts · ≤ e.callCount) := by
  unfold exportDefault
  dsimp only
  split
  · refine yields_bind fun isType => ?_
    split
    · exact yields_bind fun _ => yields_pure (Nat.zero_le _)
    · exact yields_pure (Nat.zero_le _)
  · refine yields_bind fun temp => yields_bind fun _ => ?_
    refine (hc.expression e h).bind fun r hr => yields_pure ?_
    simpa [callCounts, define, AiScript.Node.callCount] using hr

theorem withoutExport_calls {n : Node} (h : n.steady true = true) :
    Yields (c.statement (withoutExport n)) (callCounts · ≤ n.callCount) := by
  have := hc.statement (withoutExport n) (Node.steady_setModifiers _ h)
  rwa [withoutExport, Node.callCount_setModifiers] at this

theorem exportDeclared_calls {n : Node} (h : n.steady true = true) :
    Yields (exportDeclared c n) (callCounts · ≤ n.callCount) := by
  unfold exportDeclared
  dsimp only
  split
  · exact yields_pure (Nat.zero_le _)
  split
  · exact yields_pure (Nat.zero_le _)
  · exact yields_pure (Nat.zero_le _)
  · exact yields_pure (Nat.zero_le _)
  · refine yields_bind fun temp => yields_bind fun _ => ?_
    refine (declaredFunction hc h).bind fun r hr => yields_pure ?_
    simpa [callCounts, define, AiScript.Node.callCount] using hr
  · exact yields_bind fun _ => withoutExport_calls hc h
  · exact yields_bind fun _ => withoutExport_calls hc h
  · exact withoutExport_calls hc h

theorem exports_statement {n : Node} (h : n.steady true = true) :
    Yields (exports.statement c n) (resultCalls · ≤ n.callCount) := by
  dsimp only [exports]
  split
  · split
    · exact yields_bind fun _ => yields_pure (Nat.zero_le _)
    · exact yields_pure (Nat.zero_le _)
  · exact yields_refuse _ _
  · rename_i m e
    have hs : Steady [e] := steady_children h fun _ => rfl
    refine (exportDefault_calls hc (hs e (by simp))).bind fun r hr => yields_pure ?_
    rw [Node.callCount_eq (.exportAssignment m e true)]
    simpa [Node.children, resultCalls] using hr
  · exact yields_refuse _ _
  · split
    · exact (exportDeclared_calls hc h).bind fun r hr => yields_pure hr
    · exact yields_none (Nat.zero_le _)

/-! ## All capabilities -/

theorem defaultCapabilities_keepsCalls : ∀ cap ∈ defaultCapabilities, cap.KeepsCalls c := by
  have noExpression {n : Node} {isUsed : Bool} (_ : n.steady isUsed = true) :
      Yields (pure none : ConvertM (Option AiScript.Node)) (optionCalls · ≤ n.callCount) :=
    yields_none (Nat.zero_le _)
  have noStatement {n : Node} (_ : n.steady true = true) :
      Yields (pure none : ConvertM (Option (List AiScript.Node))) (resultCalls · ≤ n.callCount) :=
    yields_none (Nat.zero_le _)
  intro cap hcap
  simp only [defaultCapabilities, List.mem_cons, List.not_mem_nil, or_false] at hcap
  rcases hcap with rfl | rfl | rfl | rfl | rfl | rfl | rfl | rfl | rfl | rfl | rfl
  · exact .of_expression (fun _ => rfl) noExpression (fun _ => imports_statement _)
      fun _ _ _ _ => yields_none nofun
  · exact .of_expression (fun _ => rfl) noExpression (exports_statement hc)
      fun _ _ _ _ => yields_none nofun
  · exact .of_expression (fun _ => rfl) (types_expression hc) (fun _ => types_statement _)
      fun _ _ _ _ => yields_none nofun
  · exact .of_expression (fun _ => rfl) (literals_expression hc) noStatement
      fun _ _ _ _ => yields_none nofun
  · exact identifiers_keepsCalls hc
  · exact operators_keepsCalls hc
  · exact .of_expression (fun _ => rfl) (access_expression hc) noStatement access_element
  · exact .of_expression (fun _ => rfl) (functions_expression hc) (functions_statement hc)
      fun _ _ _ _ => yields_none nofun
  · exact .of_expression (fun _ => rfl) noExpression (declarations_statement hc)
      fun _ _ _ _ => yields_none nofun
  · exact .of_expression (fun _ => rfl) (control_expression hc) (control_statement hc)
      fun _ _ _ _ => yields_none nofun
  · exact .of_expression (fun _ => rfl) noExpression (statements_statement hc)
      fun _ _ _ _ => yields_none nofun

end

@[simp] theorem callCount_stamp (n : Node) (r : AiScript.Node) :
    (stamp n r).callCount = r.callCount := by
  unfold stamp
  split
  · exact AiScript.callCount_setLoc _ _
  · rfl

@[simp] theorem callCounts_stamp (n : Node) (rs : List AiScript.Node) :
    callCounts (rs.map (stamp n)) = callCounts rs := by
  induction rs with
  | nil => rfl
  | cons r rs ih => rw [List.map_cons, callCounts, callCounts, ih, callCount_stamp]

/-- The first of several capabilities that keep the number of calls keeps it. -/
theorem keepsCalls_first {c : Converter} {caps : List Capability}
    (h : ∀ cap ∈ caps, cap.KeepsCalls c) :
    KeepsCalls
      { expression := fun n => firstExpression c n caps
        effects := fun n => firstEffects c n caps
        statement := fun n => firstStatement c n caps } where
  expression n hn := by
    dsimp only
    induction caps with
    | nil => exact yields_refuse _ _
    | cons cap caps ih =>
      refine ((h cap (by simp)).expression n hn).bind fun r hr => ?_
      cases r with
      | none => exact ih fun cap hcap => h cap (List.mem_cons_of_mem _ hcap)
      | some r => exact yields_pure (by simpa [optionCalls] using hr)
  effects n hn := by
    dsimp only
    induction caps with
    | nil => exact yields_refuse _ _
    | cons cap caps ih =>
      refine ((h cap (by simp)).effects n hn).bind ?_
      rintro r ⟨hr, hx⟩
      cases r with
      | none =>
        refine (hx rfl).bind fun r hr => ?_
        cases r with
        | none => exact ih fun cap hcap => h cap (List.mem_cons_of_mem _ hcap)
        | some r => exact yields_pure (by simpa [optionCalls, callCounts] using hr)
      | some r => exact yields_pure (by simpa [resultCalls] using hr)
  statement n hn := by
    dsimp only
    induction caps with
    | nil => exact yields_refuse _ _
    | cons cap caps ih =>
      refine ((h cap (by simp)).statement n hn).bind fun r hr => ?_
      cases r with
      | none => exact ih fun cap hcap => h cap (List.mem_cons_of_mem _ hcap)
      | some r => exact yields_pure (by simpa [resultCalls] using hr)
  element m target key isOptional := by
    dsimp only
    induction caps with
    | nil => exact yields_refuse _ _
    | cons cap caps ih =>
      refine ((h cap (by simp)).element m target key isOptional).bind fun r hr => ?_
      cases r with
      | none => exact ih fun cap hcap => h cap (List.mem_cons_of_mem _ hcap)
      | some r =>
        obtain ⟨l, t, k, rfl⟩ := hr r rfl
        refine yields_pure ?_
        unfold stamp
        split <;> exact ⟨_, _, _, rfl⟩

/-- Conversion keeps the number of calls at every depth. -/
theorem keepsCalls_converter (k : Nat) : KeepsCalls (converter defaultCapabilities k) := by
  induction k with
  | zero => exact ⟨fun _ _ => yields_throw _, fun _ _ => yields_throw _, fun _ _ => yields_throw _,
      fun _ _ _ _ => yields_throw _⟩
  | succ k ih => exact keepsCalls_first (defaultCapabilities_keepsCalls ih)

theorem module_calls {source : List Node} (h : Steady source) :
    Yields (Module.convert defaultCapabilities source)
      (callCounts ·.statements ≤ Node.callCounts source) :=
  ((keepsCalls_converter _).statements h).bind fun _ hs => yields_bind fun _ => yields_pure hs

/-- An export table only has names. -/
theorem Module.callCounts_table (m : Module) : callCounts m.table = 0 := by
  unfold Module.table
  split
  · rfl
  · simp only [callCounts, exportTable, AiScript.Node.callCount]
    induction m.exports with
    | nil => rfl
    | cons e es ih => simpa [entryCalls, AiScript.Node.callCount] using ih

end ScriptBridge.Conversion

namespace ScriptBridge

open Conversion TypeScript

/-- If no property of a text that is read and written has a call in it, then its conversion makes no
call of the text twice. -/
theorem callCount_convertSource_le {fileName text : String} {place : Place} {s s' : Session}
    {nodes : List AiScript.Node}
    (h : convertSource defaultCapabilities fileName text place s = .ok nodes s') :
    ∃ file nextId, parseFrom s.program.nextId fileName text = .ok (file, nextId) ∧
      (Node.Steady file.statements →
        AiScript.callCounts nodes ≤ Node.callCounts file.statements) := by
  unfold convertSource at h
  obtain ⟨m, s₁, hm, h⟩ := bind_ok h
  obtain ⟨file, nextId, hp, _, _, _, -, hc⟩ := convertText_ok hm
  refine ⟨file, nextId, hp, fun hs => ?_⟩
  cases h
  have := module_calls hs _ _ _ _ hc
  simpa [Module.callCounts_table] using this

/-- A steady text with calls in the target and the value of an assignment. -/
theorem callCount_convertSource_assignment :
    ∃ nodes s' file nextId,
      convertSource defaultCapabilities "main.ts" "\"a\"(\"b\"()).x -= \"c\"();" default default =
        .ok nodes s' ∧
      parseFrom 0 "main.ts" "\"a\"(\"b\"()).x -= \"c\"();" = .ok (file, nextId) ∧
      Node.Steady file.statements ∧
      AiScript.callCounts nodes ≤ Node.callCounts file.statements := by
  have hc : endsWith (convertSource defaultCapabilities "main.ts"
      "\"a\"(\"b\"()).x -= \"c\"();" default default) (fun _ _ => true) = true := by
    decide +kernel
  have hs : succeedsWith (parseFrom 0 "main.ts" "\"a\"(\"b\"()).x -= \"c\"();")
      (fun r => r.1.statements.all (Node.steady · true)) = true := by
    decide +kernel
  obtain ⟨nodes, s', hn, -⟩ := endsWith_iff.mp hc
  obtain ⟨file, nextId, hp, h⟩ := callCount_convertSource_le hn
  have hp : parseFrom 0 "main.ts" _ = .ok (file, nextId) := hp
  rw [hp] at hs
  have hs : Node.Steady file.statements := List.all_eq_true.mp hs
  exact ⟨nodes, s', file, nextId, hn, hp, hs, h hs⟩

end ScriptBridge
