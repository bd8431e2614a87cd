import ScriptBridge.Proofs.Conversion.JumpTree
import ScriptBridge.Proofs.Conversion.KeepsCalls

/-!
# Constructs that keep jumps

`KeepsJumps c`: what the converter `c` gives for a node stands for jump trees of that node; for an
expression, these are functions. Each construct is converted through such a converter, and then stands
for trees of its parts. Loops are where more happens: the test of a loop is a jump of its own, and a
`switch` lets no `break` of its own through.
-/

namespace ScriptBridge.Conversion

open TypeScript
open TypeScript.Node (FunctionsIn JumpsIn StaysIn functionsIn_children jumpsIn_children)
open AiScript (jumpsOf jumpsOf_append entryJumps paramJumps branchJumps optionJumps)

/-- A converter whose results stand for jump trees of the source. -/
structure KeepsJumps (c : Converter) : Prop where
  expression : ∀ {n : Node} {us : SourceJumps}, n.functions ⊆ us →
    Yields (c.expression n) fun r => Realized (r.jumps {}) us
  effects : ∀ {n : Node} {us : SourceJumps}, n.functions ⊆ us →
    Yields (c.effects n) fun rs => Realized (jumpsOf {} rs) us
  statement : ∀ {n : Node} {us : SourceJumps}, n.jumps ⊆ us →
    Yields (c.statement n) fun rs => Realized (jumpsOf {} rs) us

theorem jumps_asOne (ns : List AiScript.Node) : (asOne ns).jumps {} = jumpsOf {} ns := by
  unfold asOne
  split
  · simp only [jumpsOf, List.append_nil]
  · rfl

/-! ## Patterns -/

section
variable {source value : AiScript.Node} {us : SourceJumps}

theorem realized_member (h : Realized (source.jumps {}) us) (key : String) :
    Realized ((member source key).jumps {}) us := by
  unfold member
  split <;> simpa [AiScript.Node.jumps] using h

theorem realized_element (h : Realized (source.jumps {}) us) (i : Nat) :
    Realized ((element source i).jumps {}) us := by
  simpa [element, AiScript.Node.jumps] using h

theorem ReadsFrom.realized (h : ReadsFrom source value) (hs : Realized (source.jumps {}) us) :
    Realized (value.jumps {}) us := by
  induction h with
  | source => exact hs
  | member key _ ih => exact realized_member ih key
  | element i _ ih => exact realized_element ih i

theorem ReadOff.realized {made : List AiScript.Node} (h : ReadOff source made)
    (hs : Realized (source.jumps {}) us) : Realized (jumpsOf {} made) us := by
  induction made with
  | nil => exact realized_nil
  | cons r made ih =>
    obtain ⟨⟨name, value, isMutable, rfl, hv⟩, hm⟩ := List.forall_mem_cons.mp h
    simp only [jumpsOf, realized_append]
    exact ⟨hv.realized hs, ih hm⟩

theorem bindSource_realized (h : Realized (value.jumps {}) us) :
    Yields (bindSource value) fun r =>
      Realized (r.1.jumps {}) us ∧ Realized (jumpsOf {} r.2) us := by
  fun_cases bindSource value with
  | case1 l name => exact yields_pure ⟨h, realized_nil⟩
  | case2 value =>
    refine yields_bind fun temp => yields_pure ⟨realized_nil, ?_⟩
    simpa [jumpsOf, define, AiScript.Node.jumps] using h

theorem bindingParameter_realized (isMutable : Bool) (pattern : Node) :
    Yields (bindingParameter isMutable pattern) fun r => Realized (jumpsOf {} r.2) us :=
  yields_bind fun _ => (expandBinding_readOff isMutable .source pattern).bind fun _ h =>
    yields_pure (h.realized realized_nil)

theorem paramTarget_realized (target : Node) :
    Yields (paramTarget target) fun r => Realized (jumpsOf {} r.2) us := by
  fun_cases paramTarget target with
  | case1 i => exact yields_bind fun _ => yields_pure realized_nil
  | case2 => exact bindingParameter_realized false _

theorem expandDeclaration_realized (isMutable : Bool) (pattern : Node)
    (h : Realized (value.jumps {}) us) :
    Yields (expandDeclaration isMutable pattern value) fun rs => Realized (jumpsOf {} rs) us := by
  refine (bindSource_realized h).bind ?_
  rintro ⟨source, made⟩ ⟨hs, hm⟩
  refine (expandBinding_readOff isMutable .source pattern).bind fun more h => yields_pure ?_
  rw [jumpsOf_append]
  exact realized_append.mpr ⟨hm, h.realized hs⟩

theorem stabilize_realized (h : Realized (value.jumps {}) us) :
    Yields (stabilize value) fun r =>
      Realized (r.1.jumps {}) us ∧ Realized (jumpsOf {} r.2) us := by
  unfold stabilize
  split
  · exact yields_pure ⟨h, realized_nil⟩
  · exact bindSource_realized h

/-- An entry that is set comes in, and the one that it replaces goes. -/
theorem realized_set {key : String} {table : List (String × AiScript.Node)}
    (h : Realized (value.jumps {}) us) (ht : Realized (entryJumps table) us) :
    Realized (entryJumps (Assoc.set key value table)) us := by
  induction table with
  | nil => simpa [Assoc.set, entryJumps] using h
  | cons e rest ih =>
    obtain ⟨k, v⟩ := e
    obtain ⟨hv, hrest⟩ := realized_append.mp ht
    rw [Assoc.set]
    split
    · exact realized_append.mpr ⟨h, hrest⟩
    · exact realized_append.mpr ⟨hv, ih hrest⟩

end

/-! ## Loops -/

section
variable {n : Node} {us inner : SourceJumps} {hasTest : Bool}

/-- A loop that stands for a loop of the source, where what is in it does. -/
theorem realized_loop {place : AiScript.Loc} {ts : OutputJumps} (h : Rounds hasTest ts inner)
    (hu : .loop n.span hasTest inner ∈ us) (hp : place = locOf n) :
    Realized [.loop place false ts] us := by
  refine realized_cons.mpr ⟨⟨_, hu, ?_⟩, realized_nil⟩
  simp only [JumpTree.Realizes]
  exact ⟨hp, h⟩

theorem loop_realized {ss : List AiScript.Node} (h : Rounds hasTest (jumpsOf {} ss) inner)
    (hu : .loop n.span hasTest inner ∈ us) :
    Realized (jumpsOf {} ([AiScript.Node.loop {} ss].map (stamp n))) us :=
  realized_loop h hu (if_neg n.span.loc_line)

/-- A loop in a block of its own has the place of the block. -/
theorem block_realized {pre ss : List AiScript.Node} (hpre : Realized (jumpsOf {} pre) us)
    (h : Rounds hasTest (jumpsOf {} ss) inner) (hu : .loop n.span hasTest inner ∈ us) :
    Realized (jumpsOf {} ([AiScript.Node.block {} (pre ++ [.loop {} ss])].map (stamp n))) us := by
  have hblock : jumpsOf {} ([AiScript.Node.block {} (pre ++ [.loop {} ss])].map (stamp n)) =
      jumpsOf (locOf n) pre ++ [.loop (locOf n) false (jumpsOf {} ss)] := by
    show jumpsOf (locOf n) (pre ++ [.loop {} ss]) ++ [] = _
    rw [jumpsOf_append, List.append_nil]
    rfl
  rw [hblock]
  exact realized_append.mpr ⟨AiScript.realized_around rfl hpre, realized_loop h hu rfl⟩

theorem each_realized {name : AiScript.Name} {items body : AiScript.Node}
    (hitems : Realized (items.jumps {}) us) (h : Rounds hasTest (body.jumps {}) inner)
    (hu : .loop n.span hasTest inner ∈ us) :
    Realized (jumpsOf {} ([AiScript.Node.each {} name items body].map (stamp n))) us := by
  have heach : jumpsOf {} ([AiScript.Node.each {} name items body].map (stamp n)) =
      items.jumps {} ++ [.loop (AiScript.loopPlace {} (locOf n)) false (body.jumps {})] :=
    List.append_nil _
  rw [heach]
  exact realized_append.mpr ⟨hitems, realized_loop h hu (if_neg n.span.loc_line)⟩

end

/-! ## Switches -/

section
variable {us : SourceJumps}

mutual
theorem openLast_staysIn (n : Node) (h : StaysIn us [n]) : StaysIn us (openLast n) := by
  fun_cases openLast n with
  | case1 m statements => exact openTail_staysIn statements (Node.staysIn_children h fun _ => rfl)
  | case2 n => exact h
termination_by sizeOf n
decreasing_by all_goals (subst_vars; decreasing_tactic)

theorem openTail_staysIn (ns : List Node) (h : StaysIn us ns) : StaysIn us (openTail ns) := by
  fun_cases openTail ns with
  | case1 => exact h
  | case2 n rest ho =>
    exact openLast_staysIn n (Node.staysIn_cons.mpr ⟨(Node.staysIn_cons.mp h).1, nofun⟩)
  | case3 n rest _ =>
    obtain ⟨hn, hr⟩ := Node.staysIn_cons.mp h
    exact Node.staysIn_cons.mpr ⟨hn, openTail_staysIn rest hr⟩
termination_by sizeOf ns
decreasing_by all_goals (subst_vars; decreasing_tactic)
end

theorem anyOf_realized {first : AiScript.Node} {rest : List AiScript.Node}
    (h : Realized (jumpsOf {} (first :: rest)) us) : Realized ((anyOf first rest).jumps {}) us := by
  induction rest generalizing first with
  | nil => simpa [anyOf, jumpsOf] using h
  | cons next rest ih =>
    refine ih ?_
    simpa [jumpsOf, AiScript.Node.jumps, and_assoc] using h

/-- The jump trees of the cases of a switch so far. -/
def Cases.jumps (cases : Cases) : OutputJumps :=
  cases.branches.flatMap (fun b => b.1.jumps {} ++ b.2.jumps {}) ++ jumpsOf {} cases.default ++
    jumpsOf {} cases.pending

theorem Cases.realized_iff {cases : Cases} : Realized cases.jumps us ↔
    (∀ b ∈ cases.branches, Realized (b.1.jumps {}) us ∧ Realized (b.2.jumps {}) us) ∧
      Realized (jumpsOf {} cases.default) us ∧ Realized (jumpsOf {} cases.pending) us := by
  rw [Cases.jumps, realized_append, realized_append, and_assoc]
  refine and_congr_left fun _ => ?_
  induction cases.branches with
  | nil => simp
  | cons b bs ih => rw [List.flatMap_cons, realized_append, ih, realized_append, List.forall_mem_cons]

theorem branches_realized {bs : List (AiScript.Node × AiScript.Node)}
    (h : ∀ b ∈ bs, Realized (b.1.jumps {}) us ∧ Realized (b.2.jumps {}) us) :
    Realized (branchJumps (bs.map fun (test, body) => AiScript.Branch.mk {} test body)) us := by
  induction bs with
  | nil => exact realized_nil
  | cons b bs ih =>
    obtain ⟨hb, hbs⟩ := List.forall_mem_cons.mp h
    exact realized_append.mpr ⟨realized_append.mpr hb, ih hbs⟩

theorem Cases.statements_realized (cases : Cases) (h : Realized cases.jumps us) :
    Realized (jumpsOf {} cases.statements) us := by
  obtain ⟨hb, hd, -⟩ := Cases.realized_iff.mp h
  unfold Cases.statements
  split
  · exact hd
  · rename_i test body rest heq
    rw [heq] at hb
    obtain ⟨⟨ht, hbody⟩, hrest⟩ := List.forall_mem_cons.mp hb
    dsimp only
    simp only [jumpsOf, AiScript.Node.jumps, realized_append]
    refine ⟨⟨⟨⟨ht, hbody⟩, branches_realized hrest⟩, ?_⟩, realized_nil⟩
    split
    · exact realized_nil
    · exact hd

end

namespace KeepsJumps

variable {c : Converter} {us : SourceJumps}

section
variable (hc : KeepsJumps c)
include hc

theorem statements {ns : List Node} (h : JumpsIn us ns) :
    Yields (c.statements ns) fun rs => Realized (jumpsOf {} rs) us := by
  induction ns with
  | nil => exact yields_pure realized_nil
  | cons n ns ih =>
    obtain ⟨hn, hs⟩ := Node.jumpsIn_cons.mp h
    refine (hc.statement hn).bind fun first hf => (ih hs).bind fun more hm => yields_pure ?_
    rw [jumpsOf_append]
    exact realized_append.mpr ⟨hf, hm⟩

/-! ### Functions and literals -/

theorem optional {n : Option Node} (h : FunctionsIn us n.toList) :
    Yields (expression? c n) fun r => Realized (optionJumps r) us := by
  cases n with
  | none => exact yields_pure realized_nil
  | some n => exact (hc.expression (h n (by simp))).bind fun r hr => yields_pure hr

theorem params {params : List Node} (h : FunctionsIn us params) :
    Yields (convertParams c params) fun r =>
      Realized (paramJumps r.1) us ∧ Realized (jumpsOf {} r.2) us := by
  fun_induction convertParams c params with
  | case1 => exact yields_pure ⟨realized_nil, realized_nil⟩
  | case2 m target type fallback isOptional isRest rest _ ih =>
    exact ih (Node.functionsIn_cons.mp h).2
  | case3 => exact yields_refuse_bind _ _
  | case4 m target type fallback isOptional isRest rest _ _ _ ih =>
    obtain ⟨hp, hr⟩ := Node.functionsIn_cons.mp h
    have hd : FunctionsIn us fallback.toList :=
      (Node.functionsIn_append.mp (functionsIn_children hp fun _ => rfl)).2
    refine (hc.optional hd).bind fun d hd => ?_
    refine Yields.bind (P := fun made => Realized (jumpsOf {} made.2) us)
      (paramTarget_realized target) ?_
    rintro ⟨name, made⟩ hm
    refine (ih hr).bind ?_
    rintro ⟨ps, more⟩ ⟨hps, hmore⟩
    refine yields_pure ⟨?_, ?_⟩
    · exact realized_append.mpr ⟨hd, hps⟩
    · rw [jumpsOf_append]
      exact realized_append.mpr ⟨hm, hmore⟩
  | case5 n rest _ ih => exact ih (Node.functionsIn_cons.mp h).2

/-- A function stands for a function of the source with the trees of its parameters and its body. -/
theorem function {inner : SourceJumps} {n : Node} {isAsync isGenerator : Bool}
    {params : List Node} {body : Node} (hp : FunctionsIn inner params) (hb : body.jumps ⊆ inner)
    (hu : .function inner ∈ us) :
    Yields (convertFunction c n isAsync isGenerator params body) fun r =>
      Realized (r.jumps {}) us := by
  have made {ps : List AiScript.Param} {prologue rest : List AiScript.Node}
      (hps : Realized (paramJumps ps) inner) (hpr : Realized (jumpsOf {} prologue) inner)
      (hr : Realized (jumpsOf {} rest) inner) :
      Realized ((AiScript.Node.fn {} ps (prologue ++ rest)).jumps {}) us := by
    refine realized_cons.mpr ⟨⟨_, hu, ?_⟩, realized_nil⟩
    simp only [JumpTree.Realizes, jumpsOf_append]
    exact realized_append.mpr ⟨hps, realized_append.mpr ⟨hpr, hr⟩⟩
  unfold convertFunction
  refine yields_guard (yields_guard ?_)
  refine (hc.params hp).bind ?_
  rintro ⟨ps, prologue⟩ ⟨hps, hpr⟩
  dsimp only
  split
  · refine (hc.statements (jumpsIn_children hb fun _ => rfl)).bind fun ss hss => yields_pure ?_
    exact made hps hpr hss
  · refine (hc.expression (Node.functions_subset hb)).bind fun r hr => yields_pure ?_
    exact made hps hpr (by simpa [jumpsOf, AiScript.Node.jumps] using hr)

theorem parts {spans : List Node} (h : FunctionsIn us spans) :
    Yields (templateParts c spans) fun rs => Realized (jumpsOf {} rs) us := by
  fun_induction templateParts c spans with
  | case1 => exact yields_pure realized_nil
  | case2 m e text rest ih =>
    obtain ⟨hs, hr⟩ := Node.functionsIn_cons.mp h
    have he : FunctionsIn us [e] := functionsIn_children hs fun _ => rfl
    refine (hc.expression (he e (by simp))).bind fun r hr' => (ih hr).bind fun more hm => ?_
    refine yields_pure ?_
    have ht : jumpsOf {} (templateText text) = [] := by
      unfold templateText
      split <;> rfl
    simp only [jumpsOf, jumpsOf_append, ht, List.cons_append, realized_append]
    exact ⟨hr', realized_nil, hm⟩
  | case3 n rest _ ih => exact ih (Node.functionsIn_cons.mp h).2

theorem items {elements : List Node} (h : FunctionsIn us elements) :
    Yields (arrayItems c elements) fun rs => Realized (jumpsOf {} rs) us := by
  induction elements with
  | nil => exact yields_pure realized_nil
  | cons n rest ih =>
    obtain ⟨hn, hr⟩ := Node.functionsIn_cons.mp h
    unfold arrayItems
    split
    · exact yields_refuse_bind _ _
    · exact yields_refuse_bind _ _
    · refine (hc.expression hn).bind fun r hr' => (ih hr).bind fun more hm => yields_pure ?_
      exact realized_append.mpr ⟨hr', hm⟩

theorem entry {n : Node} (h : n.functions ⊆ us) :
    Yields (objectEntry c n) fun r => Realized (r.2.jumps {}) us := by
  unfold objectEntry
  split
  · exact yields_refuse _ _
  · rename_i m name fallback
    have hn := (Node.functionsIn_cons.mp (functionsIn_children h fun _ => rfl)).1
    exact yields_guard ((hc.expression hn).bind fun r hr => yields_pure hr)
  · rename_i m key value
    have hs : FunctionsIn us [key, value] := functionsIn_children h fun _ => rfl
    refine yields_bind fun key' => ?_
    exact (hc.expression (hs value (by simp))).bind fun r hr => yields_pure hr
  · rename_i m key params body result kind isAsync isGenerator
    have hs := Node.jumpsIn_flatten (key :: params ++ body :: result.toList)
    obtain ⟨hp, hb⟩ := Node.jumpsIn_append.mp hs
    have hu : .function _ ∈ us := h (Node.mem_functions fun _ => rfl)
    refine yields_bind fun key' => yields_guard ?_
    refine (hc.function (Node.jumpsIn_cons.mp hp).2.functionsIn (Node.jumpsIn_cons.mp hb).1 hu).bind
      fun r hr => yields_pure hr
  · exact yields_refuse _ _

theorem entries {table : List (String × AiScript.Node)} (ht : Realized (entryJumps table) us)
    {properties : List Node} (h : FunctionsIn us properties) :
    Yields (objectEntries c table properties) fun r => Realized (entryJumps r) us := by
  induction properties generalizing table with
  | nil => exact yields_pure ht
  | cons n rest ih =>
    obtain ⟨hn, hr⟩ := Node.functionsIn_cons.mp h
    refine (hc.entry hn).bind ?_
    rintro ⟨key, value⟩ hv
    exact ih (realized_set hv ht) hr

/-! ### Access and operators -/

theorem args {args : List Node} (h : FunctionsIn us args) :
    Yields (convertArgs c args) fun rs => Realized (jumpsOf {} rs) us := by
  induction args with
  | nil => exact yields_pure realized_nil
  | cons n rest ih =>
    obtain ⟨hn, hr⟩ := Node.functionsIn_cons.mp h
    unfold convertArgs
    split
    · exact yields_refuse_bind _ _
    · refine (hc.expression hn).bind fun r hr' => (ih hr).bind fun more hm => yields_pure ?_
      exact realized_append.mpr ⟨hr', hm⟩

theorem property {target : Node} (h : target.functions ⊆ us) (name : String) :
    Yields (convertProperty c target name) fun r => Realized (r.jumps {}) us := by
  unfold convertProperty
  have hu : target.unwrap.functions ⊆ us := by rwa [target.functions_unwrap]
  refine (hc.expression hu).bind fun value hv => ?_
  split
  · refine yields_bind fun isHost => ?_
    split
    · exact yields_pure realized_nil
    · exact yields_pure hv
  · exact yields_pure hv

theorem assignTarget {n : Node} (h : n.functions ⊆ us) :
    Yields (assignTarget c n) fun r => Realized (r.jumps {}) us := by
  have hu : n.unwrap.functions ⊆ us := by rwa [n.functions_unwrap]
  unfold Conversion.assignTarget
  split
  · exact yields_bind fun _ => yields_pure realized_nil
  · rename_i he
    exact hc.expression (he ▸ hu)
  · rename_i he
    exact hc.expression (he ▸ hu)
  · exact yields_refuse _ _

theorem stableTarget {n : Node} (h : n.functions ⊆ us) :
    Yields (stableTarget c n) fun r =>
      Realized (r.1.jumps {}) us ∧ Realized (jumpsOf {} r.2) us := by
  unfold Conversion.stableTarget
  refine (hc.assignTarget h).bind fun r hr => ?_
  split
  · rename_i l target key
    obtain ⟨htarget, hkey⟩ := realized_append.mp hr
    refine (stabilize_realized htarget).bind ?_
    rintro ⟨t, first⟩ ⟨ht, hf⟩
    refine (stabilize_realized hkey).bind ?_
    rintro ⟨k, second⟩ ⟨hk, hs⟩
    refine yields_pure ⟨?_, ?_⟩
    · exact realized_append.mpr ⟨ht, hk⟩
    · rw [jumpsOf_append]
      exact realized_append.mpr ⟨hf, hs⟩
  · exact yields_pure ⟨hr, realized_nil⟩

end

mutual
theorem expandAssignment (hc : KeepsJumps c) {source : AiScript.Node}
    (hs : Realized (source.jumps {}) us) (target : Node) (h : target.functions ⊆ us) :
    Yields (expandAssignment c source target) fun rs => Realized (jumpsOf {} rs) us := by
  fun_cases Conversion.expandAssignment c source target with
  | case1 m e =>
    have he : FunctionsIn us [e] := functionsIn_children h fun _ => rfl
    exact expandAssignment hc hs e (he e (by simp))
  | case2 m elements => exact assignElements hc hs 0 elements (functionsIn_children h fun _ => rfl)
  | case3 m properties =>
    exact assignProperties hc hs properties (functionsIn_children h fun _ => rfl)
  | case4 i =>
    refine yields_bind fun _ => yields_pure ?_
    simpa [jumpsOf, AiScript.Node.jumps] using hs
  | case5 | case6 =>
    refine (hc.expression h).bind fun r hr => yields_pure ?_
    simpa [jumpsOf, AiScript.Node.jumps] using ⟨hr, hs⟩
  | case7 | case8 | case9 => exact yields_refuse _ _
termination_by sizeOf target
decreasing_by all_goals (subst_vars; decreasing_tactic)

theorem assignElements (hc : KeepsJumps c) {source : AiScript.Node}
    (hs : Realized (source.jumps {}) us) (i : Nat) (elements : List Node)
    (h : FunctionsIn us elements) :
    Yields (assignElements c source i elements) fun rs => Realized (jumpsOf {} rs) us := by
  fun_cases Conversion.assignElements c source i elements with
  | case1 => exact yields_pure realized_nil
  | case2 m rest => exact assignElements hc hs (i + 1) rest (Node.functionsIn_cons.mp h).2
  | case3 target rest =>
    obtain ⟨ht, hr⟩ := Node.functionsIn_cons.mp h
    refine (expandAssignment hc (realized_element hs i) target ht).bind fun first hf => ?_
    refine (assignElements hc hs (i + 1) rest hr).bind fun more hm => yields_pure ?_
    rw [jumpsOf_append]
    exact realized_append.mpr ⟨hf, hm⟩
termination_by sizeOf elements
decreasing_by all_goals (subst_vars; decreasing_tactic)

theorem assignProperties (hc : KeepsJumps c) {source : AiScript.Node}
    (hs : Realized (source.jumps {}) us) (properties : List Node)
    (h : FunctionsIn us properties) :
    Yields (assignProperties c source properties) fun rs => Realized (jumpsOf {} rs) us := by
  fun_cases Conversion.assignProperties c source properties with
  | case1 => exact yields_pure realized_nil
  | case2 => exact yields_refuse_bind _ _
  | case3 m name fallback rest =>
    refine yields_bind fun _ => ?_
    refine (assignProperties hc hs rest (Node.functionsIn_cons.mp h).2).bind fun more hm => ?_
    exact yields_pure (realized_append.mpr ⟨realized_member hs name.name, hm⟩)
  | case4 m key target rest =>
    obtain ⟨hp, hr⟩ := Node.functionsIn_cons.mp h
    have ht : FunctionsIn us [key, target] := functionsIn_children hp fun _ => rfl
    refine yields_bind fun name => ?_
    refine (expandAssignment hc (realized_member hs name) target (ht target (by simp))).bind
      fun first hf => ?_
    refine (assignProperties hc hs rest hr).bind fun more hm => yields_pure ?_
    rw [jumpsOf_append]
    exact realized_append.mpr ⟨hf, hm⟩
  | case5 => exact yields_refuse _ _
termination_by sizeOf properties
decreasing_by all_goals (subst_vars; decreasing_tactic)
end

section
variable (hc : KeepsJumps c)
include hc

theorem assignment {n left right : Node} {operator : String} (hl : left.functions ⊆ us)
    (hr : right.functions ⊆ us) :
    Yields (convertAssignment c n left operator right) fun rs => Realized (jumpsOf {} rs) us := by
  have hu : left.unwrap.functions ⊆ us := by rwa [left.functions_unwrap]
  unfold convertAssignment
  dsimp only
  split
  · refine (hc.expression hr).bind fun value hv => ?_
    refine (bindSource_realized hv).bind ?_
    rintro ⟨source, made⟩ ⟨hs, hm⟩
    refine (expandAssignment hc hs _ hu).bind fun more hmore => yields_pure ?_
    rw [jumpsOf_append]
    exact realized_append.mpr ⟨hm, hmore⟩
  split
  · refine (hc.stableTarget hu).bind ?_
    rintro ⟨target, made⟩ ⟨ht, hm⟩
    refine (hc.expression hr).bind fun value hv => yields_pure ?_
    simp only [jumpsOf, jumpsOf_append, AiScript.Node.jumps, realized_append]
    exact ⟨hm, ⟨ht, ht, hv⟩, realized_nil⟩
  · refine (hc.assignTarget hu).bind fun target ht => (hc.expression hr).bind fun value hv => ?_
    have hboth := realized_append.mpr ⟨ht, hv⟩
    split
    · exact yields_pure (by simpa [jumpsOf, AiScript.Node.jumps] using hboth)
    split
    · exact yields_pure (by simpa [jumpsOf, AiScript.Node.jumps] using hboth)
    · exact yields_refuse _ _

omit hc in
theorem stepBy_realized {target : AiScript.Node} (h : Realized (target.jumps {}) us)
    (operator : String) : Realized ((stepBy operator target).jumps {}) us := by
  simpa [stepBy, AiScript.Node.jumps] using h

theorem stepValue {operator : String} {operand : Node} {isAfter : Bool}
    (h : operand.functions ⊆ us) :
    Yields (stepValue c operator operand isAfter) fun r => Realized (r.jumps {}) us := by
  unfold Conversion.stepValue
  refine (hc.stableTarget h).bind ?_
  rintro ⟨target, made⟩ ⟨ht, hm⟩
  refine yields_bind fun temp => ?_
  refine yields_pure ?_
  have hchange := stepBy_realized ht operator
  have hcapture : Realized ((define temp target false).jumps {}) us := by
    simpa [define, AiScript.Node.jumps] using ht
  have hsteps : Realized (jumpsOf {} (if isAfter then [stepBy operator target, define temp target false]
      else [define temp target false, stepBy operator target])) us := by
    split <;> simp only [jumpsOf, realized_append, realized_nil, and_true]
    · exact ⟨hchange, hcapture⟩
    · exact ⟨hcapture, hchange⟩
  simp only [AiScript.Node.jumps, jumpsOf_append, realized_append]
  exact ⟨⟨hm, hsteps⟩, realized_nil⟩

theorem prefixOperation {n operand : Node} {operator : String} (h : operand.functions ⊆ us) :
    Yields (convertPrefix c n operator operand) fun r => Realized (r.jumps {}) us := by
  have he := hc.expression h
  unfold convertPrefix
  split
  · exact hc.stepValue h
  · exact hc.stepValue h
  iterate 3
    · refine he.bind fun r hr => ?_
      split
      · exact yields_pure realized_nil
      · exact yields_pure hr
  · exact yields_refuse _ _

theorem binaryOperation {n left right : Node} {operator : String} (hl : left.functions ⊆ us)
    (hr : right.functions ⊆ us) :
    Yields (convertBinary c n left operator right) fun r => Realized (r.jumps {}) us := by
  unfold convertBinary
  refine yields_guard ?_
  split
  · exact yields_refuse _ _
  · refine (hc.expression hl).bind fun l hl' => (hc.expression hr).bind fun r hr' => ?_
    exact yields_pure (realized_append.mpr ⟨hl', hr'⟩)

/-! ### Variables and choices -/

theorem declaration {n : Node} {isMutable : Bool} (h : n.functions ⊆ us) :
    Yields (convertVariable c isMutable n) fun rs => Realized (jumpsOf {} rs) us := by
  unfold convertVariable
  split
  · rename_i m target type value
    have hs : FunctionsIn us (target :: type.toList ++ [value]) :=
      functionsIn_children h fun _ => rfl
    have hv := hs value (by simp)
    split
    · refine yields_bind fun _ => (hc.expression hv).bind fun r hr => yields_pure ?_
      simpa [jumpsOf, define, AiScript.Node.jumps] using hr
    · exact (hc.expression hv).bind fun r hr => expandDeclaration_realized isMutable _ hr
  · exact yields_refuse _ _

theorem variableDeclarations {ns : List Node} {isMutable : Bool} (h : FunctionsIn us ns) :
    Yields (convertVariables c isMutable ns) fun rs => Realized (jumpsOf {} rs) us := by
  induction ns with
  | nil => exact yields_pure realized_nil
  | cons n ns ih =>
    obtain ⟨hn, hs⟩ := Node.functionsIn_cons.mp h
    refine (hc.declaration hn).bind fun first hf => (ih hs).bind fun more hm => yields_pure ?_
    rw [jumpsOf_append]
    exact realized_append.mpr ⟨hf, hm⟩

theorem variableList {n : Node} (h : n.functions ⊆ us) :
    Yields (convertVariableList c n) fun rs => Realized (jumpsOf {} rs) us := by
  unfold convertVariableList
  split
  · exact hc.variableDeclarations (functionsIn_children h fun _ => rfl)
  · exact yields_pure realized_nil

theorem condition {e : Node} (h : e.functions ⊆ us) :
    Yields (convertCondition c e) fun r => Realized (r.jumps {}) us :=
  yields_bind fun _ => hc.expression h

theorem branch {s : Node} (h : s.jumps ⊆ us) :
    Yields (convertBranch c s) fun r => Realized (r.jumps {}) us := by
  refine (hc.statement h).bind fun ns hns => ?_
  split
  · exact yields_pure realized_nil
  · exact yields_pure (by rwa [jumps_asOne])

end

mutual
theorem elseBranches (hc : KeepsJumps c) (n : Node) (h : n.jumps ⊆ us) :
    Yields (elseBranches c n) fun r =>
      Realized (branchJumps r.1) us ∧ Realized (optionJumps r.2) us := by
  fun_cases Conversion.elseBranches c n with
  | case1 m test body otherwise =>
    have hs : JumpsIn us (test :: body :: otherwise.toList) := jumpsIn_children h fun _ => rfl
    simp only [Node.jumpsIn_cons] at hs
    have ht := Node.functions_subset hs.1
    refine (hc.condition ht).bind fun t ht => (hc.branch hs.2.1).bind fun b hb => ?_
    refine (elseBranches? hc otherwise hs.2.2).bind ?_
    rintro ⟨branches, last⟩ ⟨hbs, hl⟩
    refine yields_pure ⟨?_, hl⟩
    simp only [branchJumps, realized_append]
    exact ⟨⟨ht, hb⟩, hbs⟩
  | case2 n => exact (hc.branch h).bind fun r hr => yields_pure ⟨realized_nil, hr⟩
termination_by sizeOf n
decreasing_by all_goals (subst_vars; decreasing_tactic)

theorem elseBranches? (hc : KeepsJumps c) (n : Option Node) (h : JumpsIn us n.toList) :
    Yields (elseBranches? c n) fun r =>
      Realized (branchJumps r.1) us ∧ Realized (optionJumps r.2) us := by
  fun_cases Conversion.elseBranches? c n with
  | case1 => exact yields_pure ⟨realized_nil, realized_nil⟩
  | case2 n => exact elseBranches hc n (h n (by simp))
termination_by sizeOf n
decreasing_by all_goals (subst_vars; decreasing_tactic)
end

section
variable (hc : KeepsJumps c)
include hc

theorem elseValues {n : Node} (h : n.functions ⊆ us) :
    Yields (elseValues c n) fun r =>
      Realized (branchJumps r.1) us ∧ Realized (r.2.jumps {}) us := by
  fun_induction Conversion.elseValues c n with
  | case1 m test whenTrue whenFalse ih =>
    have hs : FunctionsIn us [test, whenTrue, whenFalse] := functionsIn_children h fun _ => rfl
    simp only [Node.functionsIn_cons] at hs
    refine (hc.condition hs.1).bind fun t ht => (hc.expression hs.2.1).bind fun v hv => ?_
    refine (ih hs.2.2.1).bind ?_
    rintro ⟨branches, last⟩ ⟨hb, hl⟩
    refine yields_pure ⟨?_, hl⟩
    simp only [branchJumps, realized_append]
    exact ⟨⟨ht, hv⟩, hb⟩
  | case2 n => exact (hc.expression h).bind fun r hr => yields_pure ⟨realized_nil, hr⟩

/-! ### Switches -/

theorem caseStatements {clause : Node} {ns : List Node} (h : StaysIn us ns) :
    Yields (caseStatements c clause ns) fun rs => Realized (jumpsOf {} rs) us := by
  induction ns with
  | nil => exact yields_refuse _ _
  | cons n ns ih =>
    obtain ⟨hfirst, hs⟩ := Node.staysIn_cons.mp h
    have hn : StaysIn us [n] := Node.staysIn_cons.mpr ⟨hfirst, nofun⟩
    unfold Conversion.caseStatements
    split
    · exact yields_pure realized_nil
    · exact yields_refuse _ _
    · exact hc.statement (hn.jumps_subset fun _ => rfl)
    · refine yields_guard_of fun hb => ?_
      have hsub := Node.jumps_subset_of_hasBreak hn (Bool.eq_false_iff.mpr hb)
      refine (hc.statement hsub).bind fun first hf => (ih hs).bind fun more hm => yields_pure ?_
      rw [jumpsOf_append]
      exact realized_append.mpr ⟨hf, hm⟩

theorem caseBody {clause : Node} {ns : List Node} (h : StaysIn us ns) :
    Yields (caseBody c clause ns) fun rs => Realized (jumpsOf {} rs) us :=
  hc.caseStatements (openTail_staysIn ns h)

theorem addCase {subject : String} {cases : Cases} {clause test : Node} {ns : List Node}
    (hcases : Realized cases.jumps us) (ht : test.functions ⊆ us) (h : StaysIn us ns) :
    Yields (addCase c subject cases clause test ns) fun r => Realized r.jumps us := by
  unfold Conversion.addCase
  refine (hc.expression ht).bind fun t ht => ?_
  obtain ⟨hb, hd, hp⟩ := Cases.realized_iff.mp hcases
  have hcondition : Realized (jumpsOf {} (cases.pending ++
      [.binary {} "==" (.ident {} subject) t])) us := by
    simp only [jumpsOf_append, jumpsOf, AiScript.Node.jumps, realized_append]
    exact ⟨hp, ⟨realized_nil, ht⟩, realized_nil⟩
  dsimp only
  split
  · exact yields_pure (Cases.realized_iff.mpr ⟨hb, hd, hcondition⟩)
  · exact yields_pure hcases
  · rename_i first more heq _
    rw [heq] at hcondition
    refine (hc.caseBody h).bind fun body hbody => yields_pure ?_
    refine Cases.realized_iff.mpr ⟨?_, hd, realized_nil⟩
    refine List.forall_mem_append.mpr ⟨hb, List.forall_mem_singleton.mpr ⟨?_, hbody⟩⟩
    exact anyOf_realized hcondition

theorem addDefault {cases : Cases} {clause : Node} {ns : List Node} {isLast : Bool}
    (hcases : Realized cases.jumps us) (h : StaysIn us ns) :
    Yields (addDefault c cases clause ns isLast) fun r => Realized r.jumps us := by
  obtain ⟨hb, hd, hp⟩ := Cases.realized_iff.mp hcases
  unfold Conversion.addDefault
  split
  · exact yields_guard (yields_pure (Cases.realized_iff.mpr ⟨hb, realized_nil, realized_nil⟩))
  · exact (hc.caseBody h).bind fun body hbody =>
      yields_pure (Cases.realized_iff.mpr ⟨hb, hbody, realized_nil⟩)

theorem convertCases {subject : String} {cases : Cases} {ns : List Node}
    (hcases : Realized cases.jumps us) (h : StaysIn us ns) :
    Yields (convertCases c subject cases ns) fun r => Realized r.jumps us := by
  induction ns generalizing cases with
  | nil => exact yields_pure hcases
  | cons n ns ih =>
    obtain ⟨hfirst, hs⟩ := Node.staysIn_cons.mp h
    have hn : StaysIn us [n] := Node.staysIn_cons.mpr ⟨hfirst, nofun⟩
    unfold Conversion.convertCases
    split
    · rename_i m test statements
      have hk : StaysIn us (test :: statements) := Node.staysIn_children hn fun _ => rfl
      have ht := (Node.functionsIn_cons.mp hk.functionsIn).1
      exact (hc.addCase hcases ht (Node.staysIn_cons.mp hk).2).bind fun _ h' => ih h' hs
    · rename_i m statements
      have hk : StaysIn us statements := Node.staysIn_children hn fun _ => rfl
      exact (hc.addDefault hcases hk).bind fun _ h' => ih h' hs
    · exact ih hcases hs

/-- A switch lets no `break` of its own through. -/
theorem switch {m : Mark} {subject : Node} {clauses : List Node}
    (h : (Node.switchStatement m subject clauses).jumps ⊆ us) :
    Yields (convertSwitch c subject clauses) fun rs => Realized (jumpsOf {} rs) us := by
  have hs := Node.staysIn_switch h
  have hsubject := (Node.functionsIn_cons.mp hs.functionsIn).1
  unfold convertSwitch
  refine (hc.expression hsubject).bind fun value hv => yields_bind fun temp => ?_
  have hnone : Realized (Cases.jumps {}) us :=
    Cases.realized_iff.mpr ⟨nofun, realized_nil, realized_nil⟩
  refine (hc.convertCases hnone (Node.staysIn_cons.mp hs).2).bind fun cases hcases => ?_
  refine yields_pure (realized_append.mpr ⟨?_, cases.statements_realized hcases⟩)
  simpa [define, AiScript.Node.jumps] using hv

/-! ### Loops -/

theorem guard {test : Node} (h : test.functions ⊆ us) :
    Yields (convertGuard c test) fun rs => Rounds true (jumpsOf {} rs) us := by
  unfold convertGuard
  refine (hc.condition h).bind fun t ht => ?_
  split
  · exact yields_pure nofun
  · refine yields_pure ?_
    simp only [jumpsOf, AiScript.Node.jumps, branchJumps, optionJumps, List.append_nil,
      rounds_append]
    exact ⟨ht.rounds, fun t hm => .inl ⟨rfl, {}, List.mem_singleton.mp hm, rfl⟩⟩

theorem guard? {test : Option Node} (h : FunctionsIn us test.toList) :
    Yields (convertGuard? c test) fun rs => Rounds test.isSome (jumpsOf {} rs) us := by
  cases test with
  | none => exact yields_pure nofun
  | some test => exact hc.guard (h test (by simp))

theorem loopBody {body : Node} (h : body.jumps ⊆ us) :
    Yields (loopBody c body) fun rs => Realized (jumpsOf {} rs) us := by
  unfold Conversion.loopBody
  split
  · exact hc.statements (jumpsIn_children h fun _ => rfl)
  · exact hc.statement h

theorem loopStart {start : Option Node} (h : FunctionsIn us start.toList) :
    Yields (loopStart c start) fun rs => Realized (jumpsOf {} rs) us := by
  unfold Conversion.loopStart
  split
  · exact yields_pure realized_nil
  · exact hc.variableList (h _ (by simp))
  · exact hc.effects (h _ (by simp))

theorem loopAdvance {advance : Option Node} (h : FunctionsIn us advance.toList) :
    Yields (loopAdvance c advance) fun rs => Realized (jumpsOf {} rs) us := by
  unfold Conversion.loopAdvance
  split
  · exact yields_pure realized_nil
  · exact hc.effects (h _ (by simp))

omit hc in
theorem jumps_afterFirst (flag : String) (later : List AiScript.Node) :
    (afterFirst flag later).jumps {} = jumpsOf {} later := by
  simp [afterFirst, AiScript.Node.jumps, jumpsOf, branchJumps, optionJumps]

theorem forLoop {m : Mark} {start test advance : Option Node} {body n : Node}
    (hn : n = .forStatement m start test advance body) (h : n.jumps ⊆ us) :
    Yields (convertFor c start test advance body) fun rs =>
      Realized (jumpsOf {} (rs.map (stamp n))) us := by
  have hs := Node.jumpsIn_flatten (test.toList ++ advance.toList ++ [body])
  simp only [Node.jumpsIn_append, Node.jumpsIn_cons] at hs
  obtain ⟨⟨htest, hadvance⟩, hbody, -⟩ := hs
  have hstart : FunctionsIn us start.toList := by
    intro e he t ht
    obtain ⟨ht, hf⟩ := List.mem_filter.mp ht
    rw [hn, Node.jumps_forStatement] at h
    exact h (List.mem_append_left _ (List.mem_filter.mpr ⟨Node.jumpsIn_flatten _ e he ht, hf⟩))
  have hu : .loop n.span test.isSome
      ((test.toList ++ advance.toList ++ [body]).map Node.jumps).flatten ∈ us := by
    refine h ?_
    rw [hn, Node.jumps_forStatement]
    exact List.mem_append_right _ (List.mem_singleton_self _)
  unfold convertFor
  refine (hc.loopStart hstart).bind fun prologue hp => (hc.guard? htest.functionsIn).bind
    fun check hcheck => ?_
  refine (hc.loopBody hbody).bind fun round hround => (hc.loopAdvance hadvance.functionsIn).bind
    fun later hlater => ?_
  dsimp only
  split
  · refine yields_bind fun flag => yields_pure ?_
    rw [List.append_cons]
    refine block_realized ?_ ?_ hu
    · rw [jumpsOf_append]
      exact realized_append.mpr ⟨hp, realized_nil⟩
    · simp only [jumpsOf_append, jumpsOf, jumps_afterFirst, rounds_append]
      exact ⟨⟨hlater.rounds, hcheck⟩, hround.rounds⟩
  · have hround : Rounds test.isSome (jumpsOf {} (check ++ round ++ later))
        ((test.toList ++ advance.toList ++ [body]).map Node.jumps).flatten := by
      simp only [jumpsOf_append, rounds_append]
      exact ⟨⟨hcheck, hround.rounds⟩, hlater.rounds⟩
    refine yields_pure ?_
    split
    · exact loop_realized hround hu
    · exact block_realized hp hround hu

theorem whileLoop {m : Mark} {test body n : Node} (hn : n = .whileStatement m test body)
    (h : n.jumps ⊆ us) :
    Yields (convertWhile c test body) fun rs =>
      Realized (jumpsOf {} (rs.map (stamp n))) us := by
  have hs := Node.jumpsIn_flatten [test, body]
  simp only [Node.jumpsIn_cons] at hs
  obtain ⟨htest, hbody, -⟩ := hs
  have hu : .loop n.span true ([test, body].map Node.jumps).flatten ∈ us := by
    rw [hn, Node.jumps_eq] at h
    exact hn ▸ h (List.mem_singleton_self _)
  unfold convertWhile
  refine (hc.guard (Node.functions_subset htest)).bind fun check hcheck => ?_
  refine (hc.loopBody hbody).bind fun round hround => yields_pure ?_
  refine loop_realized ?_ hu
  rw [jumpsOf_append]
  exact rounds_append.mpr ⟨hcheck, hround.rounds⟩

theorem doLoop {m : Mark} {body test n : Node} (hn : n = .doStatement m body test)
    (h : n.jumps ⊆ us) :
    Yields (convertDo c body test) fun rs => Realized (jumpsOf {} (rs.map (stamp n))) us := by
  have hs := Node.jumpsIn_flatten [body, test]
  simp only [Node.jumpsIn_cons] at hs
  obtain ⟨hbody, htest, -⟩ := hs
  have hu : .loop n.span true ([body, test].map Node.jumps).flatten ∈ us := by
    rw [hn, Node.jumps_eq] at h
    exact hn ▸ h (List.mem_singleton_self _)
  unfold convertDo
  refine (hc.loopBody hbody).bind fun round hround => ?_
  refine (hc.guard (Node.functions_subset htest)).bind fun check hcheck => ?_
  split
  · refine yields_bind fun flag => yields_pure ?_
    have hflag : Realized (jumpsOf {} [define flag (.bool {} true) true]) us := realized_nil
    refine block_realized hflag ?_ hu
    rw [jumpsOf, jumps_afterFirst]
    exact rounds_append.mpr ⟨hcheck, hround.rounds⟩
  · refine yields_pure (loop_realized ?_ hu)
    rw [jumpsOf_append]
    exact rounds_append.mpr ⟨hround.rounds, hcheck⟩

omit hc in
theorem loopVariable (target : Node) :
    Yields (loopVariable target) fun r => Realized (jumpsOf {} r.2) us := by
  unfold Conversion.loopVariable
  split
  · split
    · exact yields_bind fun _ => yields_pure realized_nil
    · exact bindingParameter_realized _ _
  · exact yields_refuse _ _

theorem forOfLoop {m : Mark} {target items body n : Node} {isAwait : Bool}
    (hn : n = .forOfStatement m target items body isAwait) (h : n.jumps ⊆ us) :
    Yields (convertForOf c target items body) fun rs =>
      Realized (jumpsOf {} (rs.map (stamp n))) us := by
  have hitems : items.functions ⊆ us := by
    intro t ht
    obtain ⟨ht, hf⟩ := List.mem_filter.mp ht
    rw [hn, Node.jumps_forOfStatement] at h
    exact h (List.mem_append_left _ (List.mem_filter.mpr ⟨List.mem_append_right _ ht, hf⟩))
  have hu : .loop n.span false body.jumps ∈ us := by
    refine h ?_
    rw [hn, Node.jumps_forOfStatement]
    exact List.mem_append_right _ (List.mem_singleton_self _)
  unfold convertForOf
  refine yields_guard (yields_bind fun _ => ?_)
  refine (hc.expression hitems).bind fun items hi => ?_
  refine Yields.bind (P := fun made => Realized (jumpsOf {} made.2) body.jumps)
    (loopVariable target) ?_
  rintro ⟨name, made⟩ hm
  refine (hc.loopBody (List.Subset.refl _)).bind fun round hround => yields_pure ?_
  refine each_realized hi ?_ hu
  rw [jumps_asOne, jumpsOf_append]
  exact rounds_append.mpr ⟨hm.rounds, hround.rounds⟩

end

end KeepsJumps

end ScriptBridge.Conversion
