import ScriptBridge.Proofs.Conversion.Alike
import ScriptBridge.Proofs.TypeScript.Children

/-!
# Constructs that are converted alike

`w.Keeps c d`: the converters `c` and `d` convert every node that fits alike. Then each construct whose
parts fit is converted alike through them: a conversion looks at the form of what its parts become, but
never at a place.

* `Setting.AllFit`: nodes that all fit.
* `Setting.Keeps`: two converters, with one lemma for each construct.
-/

namespace ScriptBridge.AiScript

variable {known : String → Prop} {x y : Node}

theorem LikeEntries.set {key : String} (h : Like known x y) {xs ys : List (String × Node)}
    (hs : LikeEntries known xs ys) :
    LikeEntries known (Assoc.set key x xs) (Assoc.set key y ys) := by
  induction xs generalizing ys with
  | nil =>
    cases hs
    exact .cons h .nil
  | cons _ _ ih =>
    obtain _ | ⟨h', hs⟩ := hs
    simp only [Assoc.set]
    split
    · exact .cons h hs
    · exact .cons h' (ih hs)

theorem Like.anyOf (h : Like known x y) {xs ys : List Node} (hs : LikeAll known xs ys) :
    Like known (Conversion.anyOf x xs) (Conversion.anyOf y ys) := by
  induction xs generalizing x y ys with
  | nil =>
    cases hs
    exact h
  | cons _ _ ih =>
    obtain _ | ⟨h', hs⟩ := hs
    exact ih (.binary h h') hs

theorem LikeAll.asOne {xs ys : List Node} (h : LikeAll known xs ys) :
    Like known (Conversion.asOne xs) (Conversion.asOne ys) := by
  obtain _ | ⟨h, _ | ⟨h', hs⟩⟩ := h
  · exact .block .nil
  · exact h
  · exact .block (.cons h (.cons h' hs))

theorem Like.isStable_eq {x y : Node} (h : Like known x y) :
    Conversion.isStable x = Conversion.isStable y := by
  cases h with
  | prop h =>
    have heq := Like.isStable_eq h
    exact heq
  | _ => rfl
termination_by sizeOf x
decreasing_by all_goals (subst_vars; decreasing_tactic)

theorem Like.member (h : Like known x y) (key : String) :
    Like known (Conversion.member x key) (Conversion.member y key) := by
  unfold Conversion.member
  split
  · exact .prop h
  · exact .index h .str

theorem Like.element (h : Like known x y) (i : Nat) :
    Like known (Conversion.element x i) (Conversion.element y i) :=
  .index h .num

theorem likeAll_templateText (text : String) :
    LikeAll known (Conversion.templateText text) (Conversion.templateText text) := by
  unfold Conversion.templateText
  split
  · exact .nil
  · exact likeAll_singleton .str

end ScriptBridge.AiScript

namespace ScriptBridge.Conversion

open TypeScript
open AiScript (Like LikeAll LikeOption LikeEntries LikeParams LikeBranches)

namespace Setting

variable {w : Setting}

/-! ## Nodes that fit -/

/-- Nodes that all fit. -/
def AllFit (w : Setting) (ns : List Node) : Prop :=
  ∀ n ∈ ns, w.fits n

@[simp] theorem allFit_cons {n : Node} {ns : List Node} :
    w.AllFit (n :: ns) ↔ w.fits n ∧ w.AllFit ns :=
  List.forall_mem_cons

@[simp] theorem allFit_append {ns ms : List Node} :
    w.AllFit (ns ++ ms) ↔ w.AllFit ns ∧ w.AllFit ms :=
  List.forall_mem_append

theorem allFit_children {n : Node} (h : w.fits n) : w.AllFit n.children :=
  w.fits_children h

theorem fits_unwrap {n : Node} (h : w.fits n) : w.fits n.unwrap := by
  fun_induction Node.unwrap n with
  | case1 m e ih => exact ih (allFit_children h e (by simp [Node.children]))
  | case2 => exact h

mutual
theorem allFit_openLast (n : Node) (h : w.fits n) : w.AllFit (openLast n) := by
  cases n with
  | block m statements => exact allFit_openTail statements (allFit_children h)
  | _ => exact List.forall_mem_singleton.mpr h
termination_by sizeOf n
decreasing_by all_goals (subst_vars; decreasing_tactic)

theorem allFit_openTail (ns : List Node) (h : w.AllFit ns) : w.AllFit (openTail ns) := by
  cases ns with
  | nil => exact h
  | cons s rest =>
    obtain ⟨hs, hr⟩ := allFit_cons.mp h
    unfold openTail
    split
    · exact allFit_openLast s hs
    · exact allFit_cons.mpr ⟨hs, allFit_openTail rest hr⟩
termination_by sizeOf ns
decreasing_by all_goals (subst_vars; decreasing_tactic)
end

/-! ## Patterns -/

/-- Two results of taking a source: alike, with definitions that are alike. -/
abbrev LikeSource (w : Setting) (r r' : AiScript.Node × List AiScript.Node) : Prop :=
  Like w.known r.1 r'.1 ∧ LikeAll w.known r.2 r'.2

/-- Two names with definitions that are alike. -/
abbrev LikeBound (w : Setting) (r r' : String × List AiScript.Node) : Prop :=
  r.1 = r'.1 ∧ LikeAll w.known r.2 r'.2

theorem bindSource_alike {value value' : AiScript.Node} (h : Like w.known value value') :
    w.Alike w.LikeSource (bindSource value) (bindSource value') := by
  have fresh : w.Alike w.LikeSource
      (do let temp ← freshName; return (.ident {} temp, [define temp value false]))
      (do let temp ← freshName; return (.ident {} temp, [define temp value' false])) := by
    refine freshName_alike.bind ?_
    rintro temp _ ⟨rfl, ht⟩
    exact alike_pure ⟨.ident ht, .cons (.define h) .nil⟩
  cases h with
  | ident hk => exact alike_pure ⟨.ident hk, .nil⟩
  | _ => exact fresh

section
variable (isMutable : Bool)

mutual
theorem expandBinding_alike {source source' : AiScript.Node} (h : Like w.known source source')
    (pattern : Node) :
    w.Alike (LikeAll w.known) (expandBinding isMutable source pattern)
      (expandBinding isMutable source' pattern) := by
  cases pattern with
  | ident i =>
    exact (checkName_alike i).next fun _ => alike_pure (.cons (.define h) .nil)
  | arrayPattern m elements => exact expandElements_alike h 0 elements
  | objectPattern m elements => exact expandProperties_alike h elements
  | _ => exact alike_refuse _ _
termination_by sizeOf pattern
decreasing_by all_goals (subst_vars; decreasing_tactic)

theorem expandElements_alike {source source' : AiScript.Node} (h : Like w.known source source')
    (i : Nat) (elements : List Node) :
    w.Alike (LikeAll w.known) (expandElements isMutable source i elements)
      (expandElements isMutable source' i elements) := by
  cases elements with
  | nil => exact alike_pure .nil
  | cons n rest =>
    by_cases hn : ∃ m key target fallback isRest, n = .bindingElement m key target fallback isRest
    · obtain ⟨m, key, target, fallback, isRest, rfl⟩ := hn
      refine (checkElement_alike _ _ _).next fun _ => ?_
      refine (expandBinding_alike (h.element i) target).bind fun first first' hf => ?_
      refine (expandElements_alike h (i + 1) rest).bind fun more more' hm => ?_
      exact alike_pure (hf.append hm)
    · have hn m key target fallback isRest he := hn ⟨m, key, target, fallback, isRest, he⟩
      rw [expandElements.eq_3 _ _ _ _ _ hn, expandElements.eq_3 _ _ _ _ _ hn]
      exact expandElements_alike h (i + 1) rest
termination_by sizeOf elements
decreasing_by all_goals (subst_vars; decreasing_tactic)

theorem expandProperties_alike {source source' : AiScript.Node} (h : Like w.known source source')
    (elements : List Node) :
    w.Alike (LikeAll w.known) (expandProperties isMutable source elements)
      (expandProperties isMutable source' elements) := by
  cases elements with
  | nil => exact alike_pure .nil
  | cons n rest =>
    by_cases hn : ∃ m key target fallback isRest, n = .bindingElement m key target fallback isRest
    · obtain ⟨m, key, target, fallback, isRest, rfl⟩ := hn
      refine (checkElement_alike _ _ _).next fun _ => (patternKey_alike _).next fun name => ?_
      refine (expandBinding_alike (h.member name) target).bind fun first first' hf => ?_
      refine (expandProperties_alike h rest).bind fun more more' hm => ?_
      exact alike_pure (hf.append hm)
    · have hn m key target fallback isRest he := hn ⟨m, key, target, fallback, isRest, he⟩
      rw [expandProperties.eq_3 _ _ _ _ hn, expandProperties.eq_3 _ _ _ _ hn]
      exact expandProperties_alike h rest
termination_by sizeOf elements
decreasing_by all_goals (subst_vars; decreasing_tactic)
end

theorem bindingParameter_alike (pattern : Node) :
    w.Alike w.LikeBound (bindingParameter isMutable pattern)
      (bindingParameter isMutable pattern) := by
  refine freshName_alike.bind ?_
  rintro temp _ ⟨rfl, ht⟩
  refine (expandBinding_alike isMutable (.ident ht) pattern).bind fun made made' hm => ?_
  exact alike_pure ⟨rfl, hm⟩

theorem expandDeclaration_alike (pattern : Node) {value value' : AiScript.Node}
    (h : Like w.known value value') :
    w.Alike (LikeAll w.known) (expandDeclaration isMutable pattern value)
      (expandDeclaration isMutable pattern value') := by
  refine (bindSource_alike h).bind ?_
  rintro ⟨source, made⟩ ⟨source', made'⟩ ⟨hs, hm⟩
  refine (expandBinding_alike isMutable hs pattern).bind fun more more' hmore => ?_
  exact alike_pure (hm.append hmore)

end

theorem paramTarget_alike (target : Node) :
    w.Alike w.LikeBound (paramTarget target) (paramTarget target) := by
  unfold paramTarget
  split
  · exact (checkName_alike _).next fun _ => alike_pure ⟨rfl, .nil⟩
  · exact bindingParameter_alike false _

theorem stabilize_alike {value value' : AiScript.Node} (h : Like w.known value value') :
    w.Alike w.LikeSource (stabilize value) (stabilize value') := by
  unfold stabilize
  rw [h.isStable_eq]
  split
  · exact alike_pure ⟨h, .nil⟩
  · exact bindSource_alike h

theorem loopVariable_alike (target : Node) :
    w.Alike w.LikeBound (loopVariable target) (loopVariable target) := by
  unfold loopVariable
  split
  · split
    · exact (checkName_alike _).next fun _ => alike_pure ⟨rfl, .nil⟩
    · exact bindingParameter_alike _ _
  · exact alike_refuse _ _

theorem like_afterFirst {flag : String} {later later' : List AiScript.Node} (hf : w.known flag)
    (h : LikeAll w.known later later') :
    Like w.known (afterFirst flag later) (afterFirst flag later') := by
  refine .cond (.ident hf) (.block ?_) .nil (.some (.block h))
  exact AiScript.likeAll_singleton (.assign (.ident hf) .bool)

/-! ## Converters -/

/-- Converters that convert alike what fits. -/
structure Keeps (w : Setting) (c d : Converter) : Prop where
  expression : ∀ {n}, w.fits n → w.Alike (Like w.known) (c.expression n) (d.expression n)
  effects : ∀ {n}, w.fits n → w.Alike (LikeAll w.known) (c.effects n) (d.effects n)
  statement : ∀ {n}, w.fits n → w.Alike (LikeAll w.known) (c.statement n) (d.statement n)

namespace Keeps

variable {c d : Converter}

section
variable (hc : w.Keeps c d)
include hc

theorem statements {ns : List Node} (h : w.AllFit ns) :
    w.Alike (LikeAll w.known) (c.statements ns) (d.statements ns) := by
  induction ns with
  | nil => exact alike_pure .nil
  | cons n ns ih =>
    obtain ⟨hn, hs⟩ := allFit_cons.mp h
    refine (hc.statement hn).bind fun first first' hf => (ih hs).bind fun more more' hm => ?_
    exact alike_pure (hf.append hm)

/-! ### Functions and literals -/

theorem optional {n : Option Node} (h : w.AllFit n.toList) :
    w.Alike (LikeOption w.known) (expression? c n) (expression? d n) := by
  cases n with
  | none => exact alike_pure .none
  | some n => exact (hc.expression (h n (by simp))).bind fun r r' hr => alike_pure (.some hr)

theorem params {params : List Node} (h : w.AllFit params) :
    w.Alike (fun r r' => LikeParams w.known r.1 r'.1 ∧ LikeAll w.known r.2 r'.2)
      (convertParams c params) (convertParams d params) := by
  induction params with
  | nil => exact alike_pure ⟨.nil, .nil⟩
  | cons n rest ih =>
    obtain ⟨hp, hr⟩ := allFit_cons.mp h
    by_cases hn : ∃ m target type fallback isOptional isRest,
        n = .parameter m target type fallback isOptional isRest
    · obtain ⟨m, target, type, fallback, isOptional, isRest, rfl⟩ := hn
      have hs : w.AllFit (target :: type.toList ++ fallback.toList) := allFit_children hp
      simp only [allFit_append, allFit_cons] at hs
      unfold convertParams
      split
      · exact ih hr
      refine alike_guard ?_
      refine (hc.optional hs.2).bind fun value value' hv => (paramTarget_alike target).bind ?_
      rintro ⟨name, made⟩ ⟨_, made'⟩ ⟨rfl, hm⟩
      refine (ih hr).bind ?_
      rintro ⟨ps, more⟩ ⟨ps', more'⟩ ⟨hps, hmore⟩
      have hnone : value.isNone = value'.isNone := by cases hv <;> rfl
      refine alike_pure ⟨?_, hm.append hmore⟩
      dsimp only
      rw [hnone]
      exact .cons hv hps
    · have hn m target type fallback isOptional isRest he :=
        hn ⟨m, target, type, fallback, isOptional, isRest, he⟩
      rw [convertParams.eq_3 _ _ _ hn, convertParams.eq_3 _ _ _ hn]
      exact ih hr

theorem function {n : Node} {isAsync isGenerator : Bool} {params : List Node} {body : Node}
    (hp : w.AllFit params) (hb : w.fits body) :
    w.Alike (Like w.known) (convertFunction c n isAsync isGenerator params body)
      (convertFunction d n isAsync isGenerator params body) := by
  unfold convertFunction
  refine alike_guard (alike_guard ?_)
  refine (hc.params hp).bind ?_
  rintro ⟨ps, prologue⟩ ⟨ps', prologue'⟩ ⟨hps, hpr⟩
  dsimp only
  split
  · refine (hc.statements (allFit_children hb)).bind fun ss ss' hss => ?_
    exact alike_pure (.fn hps (hpr.append hss))
  · refine (hc.expression hb).bind fun r r' hr => ?_
    exact alike_pure (.fn hps (hpr.append (AiScript.likeAll_singleton (.ret hr))))

theorem parts {spans : List Node} (h : w.AllFit spans) :
    w.Alike (LikeAll w.known) (templateParts c spans) (templateParts d spans) := by
  induction spans with
  | nil => exact alike_pure .nil
  | cons n rest ih =>
    obtain ⟨hs, hr⟩ := allFit_cons.mp h
    by_cases hn : ∃ m e text, n = .templateSpan m e text
    · obtain ⟨m, e, text, rfl⟩ := hn
      have he : w.AllFit [e] := allFit_children hs
      refine (hc.expression (he e (by simp))).bind fun r r' hr' => ?_
      refine (ih hr).bind fun more more' hm => alike_pure (.cons hr' ?_)
      exact (AiScript.likeAll_templateText text).append hm
    · have hn m e text he := hn ⟨m, e, text, he⟩
      rw [templateParts.eq_3 _ _ _ hn, templateParts.eq_3 _ _ _ hn]
      exact ih hr

theorem items {elements : List Node} (h : w.AllFit elements) :
    w.Alike (LikeAll w.known) (arrayItems c elements) (arrayItems d elements) := by
  induction elements with
  | nil => exact alike_pure .nil
  | cons n rest ih =>
    obtain ⟨hn, hr⟩ := allFit_cons.mp h
    have item : w.Alike (LikeAll w.known)
        (do let item ← c.expression n; return item :: (← arrayItems c rest))
        (do let item ← d.expression n; return item :: (← arrayItems d rest)) :=
      (hc.expression hn).bind fun r r' hr' => (ih hr).bind fun more more' hm =>
        alike_pure (.cons hr' hm)
    cases n with
    | spread | omitted => exact alike_refuse_bind _ _
    | _ => exact item

theorem entry {n : Node} (h : w.fits n) :
    w.Alike (fun r r' => r.1 = r'.1 ∧ Like w.known r.2 r'.2) (objectEntry c n)
      (objectEntry d n) := by
  unfold objectEntry
  split
  · exact alike_refuse _ _
  · rename_i m name fallback
    have hn := (allFit_cons.mp (allFit_children h)).1
    exact alike_guard ((hc.expression hn).bind fun r r' hr => alike_pure ⟨rfl, hr⟩)
  · rename_i m key value
    have hs : w.AllFit [key, value] := allFit_children h
    refine (literalKey_alike _ _).next fun key' => ?_
    exact (hc.expression (hs value (by simp))).bind fun r r' hr => alike_pure ⟨rfl, hr⟩
  · rename_i m key params body result kind isAsync isGenerator
    have hs : w.AllFit (key :: params ++ body :: result.toList) := allFit_children h
    simp only [allFit_append, allFit_cons] at hs
    refine (literalKey_alike _ _).next fun key' => alike_guard ?_
    exact (hc.function hs.1.2 hs.2.1).bind fun r r' hr => alike_pure ⟨rfl, hr⟩
  · exact alike_refuse _ _

theorem entries {table table' : List (String × AiScript.Node)} {properties : List Node}
    (ht : LikeEntries w.known table table') (h : w.AllFit properties) :
    w.Alike (LikeEntries w.known) (objectEntries c table properties)
      (objectEntries d table' properties) := by
  induction properties generalizing table table' with
  | nil => exact alike_pure ht
  | cons n rest ih =>
    obtain ⟨hn, hr⟩ := allFit_cons.mp h
    refine (hc.entry hn).bind ?_
    rintro ⟨key, value⟩ ⟨_, value'⟩ ⟨rfl, hv⟩
    exact ih (.set hv ht) hr

/-! ### Access and operators -/

theorem args {args : List Node} (h : w.AllFit args) :
    w.Alike (LikeAll w.known) (convertArgs c args) (convertArgs d args) := by
  induction args with
  | nil => exact alike_pure .nil
  | cons n rest ih =>
    obtain ⟨hn, hr⟩ := allFit_cons.mp h
    have arg : w.Alike (LikeAll w.known)
        (do let arg ← c.expression n; return arg :: (← convertArgs c rest))
        (do let arg ← d.expression n; return arg :: (← convertArgs d rest)) :=
      (hc.expression hn).bind fun r r' hr' => (ih hr).bind fun more more' hm =>
        alike_pure (.cons hr' hm)
    cases n with
    | spread => exact alike_refuse_bind _ _
    | _ => exact arg

theorem property {target : Node} (h : w.fits target) (name : String) :
    w.Alike (Like w.known) (convertProperty c target name) (convertProperty d target name) := by
  unfold convertProperty
  refine (hc.expression (fits_unwrap h)).bind fun value value' hv => ?_
  cases hv with
  | ident hk =>
    dsimp only
    refine (startsFromHost_alike _).next fun isHost => ?_
    split
    · rename_i hspace
      exact alike_pure (.ident (w.known_host name (Bool.and_eq_true_iff.mp hspace).1))
    · exact alike_pure (.prop (.ident hk))
  | _ => exact alike_pure (.prop (by constructor <;> assumption))

theorem assignTarget {n : Node} (h : w.fits n) :
    w.Alike (Like w.known) (assignTarget c n) (assignTarget d n) := by
  have hu := fits_unwrap h
  unfold Conversion.assignTarget
  split
  · rename_i i he
    rw [he] at hu
    exact (checkName_alike i).next fun _ => alike_pure (.ident (w.known_ident hu))
  · rename_i he
    exact hc.expression (he ▸ hu)
  · rename_i he
    exact hc.expression (he ▸ hu)
  · exact alike_refuse _ _

theorem stableTarget {n : Node} (h : w.fits n) :
    w.Alike w.LikeSource (stableTarget c n) (stableTarget d n) := by
  unfold Conversion.stableTarget
  refine (hc.assignTarget h).bind fun r r' hr => ?_
  cases hr with
  | index ht hk =>
    refine (stabilize_alike ht).bind ?_
    rintro ⟨t, first⟩ ⟨t', first'⟩ ⟨ht, hf⟩
    refine (stabilize_alike hk).bind ?_
    rintro ⟨k, second⟩ ⟨k', second'⟩ ⟨hk, hs⟩
    exact alike_pure ⟨.index ht hk, hf.append hs⟩
  | _ => exact alike_pure ⟨by constructor <;> assumption, .nil⟩

end

mutual
theorem expandAssignment (hc : w.Keeps c d) {source source' : AiScript.Node}
    (hv : Like w.known source source') (target : Node) (h : w.fits target) :
    w.Alike (LikeAll w.known) (expandAssignment c source target)
      (expandAssignment d source' target) := by
  cases target with
  | parenthesized m e => exact expandAssignment hc hv e (allFit_children h e (by simp [Node.children]))
  | array m elements => exact assignElements hc hv 0 elements (allFit_children h)
  | object m properties => exact assignProperties hc hv properties (allFit_children h)
  | ident i =>
    refine (checkName_alike i).next fun _ => alike_pure ?_
    exact AiScript.likeAll_singleton (.assign (.ident (w.known_ident h)) hv)
  | propertyAccess | elementAccess =>
    refine (hc.expression h).bind fun r r' hr => alike_pure ?_
    exact AiScript.likeAll_singleton (.assign hr hv)
  | binary m left operator right =>
    simp only [Conversion.expandAssignment]
    split <;> exact alike_refuse _ _
  | _ => exact alike_refuse _ _
termination_by sizeOf target
decreasing_by all_goals (subst_vars; decreasing_tactic)

theorem assignElements (hc : w.Keeps c d) {source source' : AiScript.Node}
    (hv : Like w.known source source') (i : Nat) (elements : List Node) (h : w.AllFit elements) :
    w.Alike (LikeAll w.known) (assignElements c source i elements)
      (assignElements d source' i elements) := by
  cases elements with
  | nil => exact alike_pure .nil
  | cons target rest =>
    obtain ⟨ht, hr⟩ := allFit_cons.mp h
    by_cases ho : ∃ m, target = .omitted m
    · obtain ⟨m, rfl⟩ := ho
      exact assignElements hc hv (i + 1) rest hr
    · have ho m he := ho ⟨m, he⟩
      rw [Conversion.assignElements.eq_3 _ _ _ _ _ ho, Conversion.assignElements.eq_3 _ _ _ _ _ ho]
      refine (expandAssignment hc (hv.element i) target ht).bind fun first first' hf => ?_
      refine (assignElements hc hv (i + 1) rest hr).bind fun more more' hm => ?_
      exact alike_pure (hf.append hm)
termination_by sizeOf elements
decreasing_by all_goals (subst_vars; decreasing_tactic)

theorem assignProperties (hc : w.Keeps c d) {source source' : AiScript.Node}
    (hv : Like w.known source source') (properties : List Node) (h : w.AllFit properties) :
    w.Alike (LikeAll w.known) (assignProperties c source properties)
      (assignProperties d source' properties) := by
  cases properties with
  | nil => exact alike_pure .nil
  | cons property rest =>
    obtain ⟨hp, hr⟩ := allFit_cons.mp h
    cases property with
    | shorthand m name fallback =>
      have hname := (allFit_cons.mp (allFit_children hp)).1
      unfold Conversion.assignProperties
      refine alike_guard ((checkName_alike name).next fun _ => ?_)
      refine (assignProperties hc hv rest hr).bind fun more more' hm => alike_pure ?_
      exact .cons (.assign (.ident (w.known_ident hname)) (hv.member name.name)) hm
    | property m key target =>
      have hs : w.AllFit [key, target] := allFit_children hp
      refine (patternKey_alike key).next fun name => ?_
      refine (expandAssignment hc (hv.member name) target (hs target (by simp))).bind
        fun first first' hf => ?_
      refine (assignProperties hc hv rest hr).bind fun more more' hm => ?_
      exact alike_pure (hf.append hm)
    | _ => exact alike_refuse _ _
termination_by sizeOf properties
decreasing_by all_goals (subst_vars; decreasing_tactic)
end

section
variable (hc : w.Keeps c d)
include hc

theorem assignment {n left right : Node} {operator : String} (hl : w.fits left)
    (hr : w.fits right) :
    w.Alike (LikeAll w.known) (convertAssignment c n left operator right)
      (convertAssignment d n left operator right) := by
  have hu := fits_unwrap hl
  unfold convertAssignment
  dsimp only
  split
  · refine (hc.expression hr).bind fun value value' hv => (bindSource_alike hv).bind ?_
    rintro ⟨source, made⟩ ⟨source', made'⟩ ⟨hs, hm⟩
    refine (hc.expandAssignment hs _ hu).bind fun more more' hmore => ?_
    exact alike_pure (hm.append hmore)
  split
  · refine (hc.stableTarget hu).bind ?_
    rintro ⟨target, made⟩ ⟨target', made'⟩ ⟨ht, hm⟩
    refine (hc.expression hr).bind fun value value' hv => alike_pure (hm.append ?_)
    exact AiScript.likeAll_singleton (.assign ht (.binary ht hv))
  · refine (hc.assignTarget hu).bind fun target target' ht => ?_
    refine (hc.expression hr).bind fun value value' hv => ?_
    split
    · exact alike_pure (AiScript.likeAll_singleton (.assign ht hv))
    split
    · exact alike_pure (AiScript.likeAll_singleton (.update ht hv))
    · exact alike_refuse _ _

theorem stepValue {operator : String} {operand : Node} {isAfter : Bool} (h : w.fits operand) :
    w.Alike (Like w.known) (stepValue c operator operand isAfter)
      (stepValue d operator operand isAfter) := by
  unfold Conversion.stepValue
  refine (hc.stableTarget h).bind ?_
  rintro ⟨target, made⟩ ⟨target', made'⟩ ⟨ht, hm⟩
  refine freshName_alike.bind ?_
  rintro temp _ ⟨rfl, htemp⟩
  have hchange : Like w.known (stepBy operator target) (stepBy operator target') :=
    .update ht .num
  have hcapture : Like w.known (define temp target false) (define temp target' false) := .define ht
  refine alike_pure (.block ((hm.append ?_).append (AiScript.likeAll_singleton (.ident htemp))))
  split
  · exact .cons hchange (.cons hcapture .nil)
  · exact .cons hcapture (.cons hchange .nil)

theorem prefixOperation {n operand : Node} {operator : String} (h : w.fits operand) :
    w.Alike (Like w.known) (convertPrefix c n operator operand)
      (convertPrefix d n operator operand) := by
  have he := hc.expression h
  unfold convertPrefix
  split
  · exact hc.stepValue h
  · exact hc.stepValue h
  · refine he.bind fun r r' hr => ?_
    cases hr with
    | bool => exact alike_pure .bool
    | _ => exact alike_pure (.unary (by constructor <;> assumption))
  · refine he.bind fun r r' hr => ?_
    cases hr with
    | num => exact alike_pure .num
    | _ => exact alike_pure (.unary (by constructor <;> assumption))
  · refine he.bind fun r r' hr => ?_
    cases hr with
    | num => exact alike_pure .num
    | _ => exact alike_pure (.unary (by constructor <;> assumption))
  · exact alike_refuse _ _

theorem binaryOperation {n left right : Node} {operator : String} (hl : w.fits left)
    (hr : w.fits right) :
    w.Alike (Like w.known) (convertBinary c n left operator right)
      (convertBinary d n left operator right) := by
  unfold convertBinary
  refine alike_guard ?_
  split
  · exact alike_refuse _ _
  · refine (hc.expression hl).bind fun l l' hl' => (hc.expression hr).bind fun r r' hr' => ?_
    exact alike_pure (.binary hl' hr')

/-! ### Variables and choices -/

theorem declaration {n : Node} {isMutable : Bool} (h : w.fits n) :
    w.Alike (LikeAll w.known) (convertVariable c isMutable n) (convertVariable d isMutable n) := by
  unfold convertVariable
  split
  · rename_i m target type value
    have hs : w.AllFit (target :: type.toList ++ [value]) := allFit_children h
    simp only [allFit_append, allFit_cons] at hs
    have hvalue := hc.expression hs.2.1
    split
    · refine (checkName_alike _).next fun _ => hvalue.bind fun r r' hr => ?_
      exact alike_pure (AiScript.likeAll_singleton (.define hr))
    · exact hvalue.bind fun r r' hr => expandDeclaration_alike _ _ hr
  · exact alike_refuse _ _

theorem variableDeclarations {ns : List Node} {isMutable : Bool} (h : w.AllFit ns) :
    w.Alike (LikeAll w.known) (convertVariables c isMutable ns)
      (convertVariables d isMutable ns) := by
  induction ns with
  | nil => exact alike_pure .nil
  | cons n ns ih =>
    obtain ⟨hn, hs⟩ := allFit_cons.mp h
    refine (hc.declaration hn).bind fun first first' hf => (ih hs).bind fun more more' hm => ?_
    exact alike_pure (hf.append hm)

theorem variableList {n : Node} (h : w.fits n) :
    w.Alike (LikeAll w.known) (convertVariableList c n) (convertVariableList d n) := by
  unfold convertVariableList
  split
  · exact hc.variableDeclarations (allFit_children h)
  · exact alike_pure .nil

theorem condition {e : Node} (h : w.fits e) :
    w.Alike (Like w.known) (convertCondition c e) (convertCondition d e) :=
  (checkCondition_alike e).next fun _ => hc.expression h

theorem branch {s : Node} (h : w.fits s) :
    w.Alike (Like w.known) (convertBranch c s) (convertBranch d s) := by
  refine (hc.statement h).bind fun ns ns' hns => ?_
  cases hns with
  | nil => exact alike_pure .null
  | cons hn hns => exact alike_pure (AiScript.LikeAll.cons hn hns).asOne

end

/-- Further branches that are alike, and last ones that are. -/
abbrev LikeChain (w : Setting) (r r' : List AiScript.Branch × Option AiScript.Node) : Prop :=
  LikeBranches w.known r.1 r'.1 ∧ LikeOption w.known r.2 r'.2

mutual
theorem elseBranches (hc : w.Keeps c d) (n : Node) (h : w.fits n) :
    w.Alike (LikeChain w) (elseBranches c n) (elseBranches d n) := by
  have single : w.Alike (LikeChain w) (do return ([], some (← convertBranch c n)))
      (do return ([], some (← convertBranch d n))) :=
    (hc.branch h).bind fun r r' hr => alike_pure ⟨.nil, .some hr⟩
  cases n with
  | ifStatement m test body otherwise =>
    have hs : w.AllFit (test :: body :: otherwise.toList) := allFit_children h
    simp only [allFit_cons] at hs
    refine (hc.condition hs.1).bind fun t t' ht => (hc.branch hs.2.1).bind fun b b' hb => ?_
    refine (elseBranches? hc otherwise hs.2.2).bind ?_
    rintro ⟨branches, last⟩ ⟨branches', last'⟩ ⟨hbs, hl⟩
    exact alike_pure ⟨.cons ht hb hbs, hl⟩
  | _ => exact single
termination_by sizeOf n
decreasing_by all_goals (subst_vars; decreasing_tactic)

theorem elseBranches? (hc : w.Keeps c d) (n : Option Node) (h : w.AllFit n.toList) :
    w.Alike (LikeChain w) (elseBranches? c n) (elseBranches? d n) := by
  cases n with
  | none => exact alike_pure ⟨.nil, .none⟩
  | some n => exact elseBranches hc n (h n (by simp))
termination_by sizeOf n
decreasing_by all_goals (subst_vars; decreasing_tactic)
end

theorem elseValues (hc : w.Keeps c d) (n : Node) (h : w.fits n) :
    w.Alike (fun r r' => LikeBranches w.known r.1 r'.1 ∧ Like w.known r.2 r'.2)
      (elseValues c n) (elseValues d n) := by
  cases n with
  | conditional m test whenTrue whenFalse =>
    have hs : w.AllFit [test, whenTrue, whenFalse] := allFit_children h
    simp only [allFit_cons] at hs
    refine (hc.condition hs.1).bind fun t t' ht => (hc.expression hs.2.1).bind fun v v' hv => ?_
    refine (elseValues hc whenFalse hs.2.2.1).bind ?_
    rintro ⟨branches, last⟩ ⟨branches', last'⟩ ⟨hbs, hl⟩
    exact alike_pure ⟨.cons ht hv hbs, hl⟩
  | _ => exact (hc.expression h).bind fun r r' hr => alike_pure ⟨.nil, hr⟩
termination_by sizeOf n
decreasing_by all_goals (subst_vars; decreasing_tactic)

/-! ### Switches -/

/-- Tests with their bodies that are alike, pair by pair. -/
inductive LikeCases (known : String → Prop) : List (AiScript.Node × AiScript.Node) →
    List (AiScript.Node × AiScript.Node) → Prop
  | nil : LikeCases known [] []
  | cons {t u x y : AiScript.Node} {bs cs : List (AiScript.Node × AiScript.Node)}
      (test : Like known t u) (body : Like known x y) (tail : LikeCases known bs cs) :
      LikeCases known ((t, x) :: bs) ((u, y) :: cs)

theorem LikeCases.append {known : String → Prop}
    {bs cs bs' cs' : List (AiScript.Node × AiScript.Node)} (h : LikeCases known bs cs)
    (h' : LikeCases known bs' cs') : LikeCases known (bs ++ bs') (cs ++ cs') := by
  induction h with
  | nil => exact h'
  | cons ht hb _ ih => exact .cons ht hb ih

theorem LikeCases.branches {known : String → Prop} {bs cs : List (AiScript.Node × AiScript.Node)}
    (h : LikeCases known bs cs) :
    LikeBranches known (bs.map fun (test, body) => .mk {} test body)
      (cs.map fun (test, body) => .mk {} test body) := by
  induction h with
  | nil => exact .nil
  | cons ht hb _ ih => exact .cons ht hb ih

/-- Cases so far that are alike. -/
structure LikeSwitch (w : Setting) (cases cases' : Cases) : Prop where
  branches : LikeCases w.known cases.branches cases'.branches
  default : LikeAll w.known cases.default cases'.default
  pending : LikeAll w.known cases.pending cases'.pending

theorem LikeSwitch.statements {cases cases' : Cases} (h : LikeSwitch w cases cases') :
    LikeAll w.known cases.statements cases'.statements := by
  obtain ⟨branches, otherwise, _⟩ := cases
  obtain ⟨branches', otherwise', _⟩ := cases'
  obtain ⟨hb, hd, -⟩ := h
  dsimp only [Cases.statements] at hb hd ⊢
  cases hb with
  | nil => exact hd
  | cons ht hbody hbs =>
    refine AiScript.likeAll_singleton (.cond ht hbody hbs.branches ?_)
    rw [hd.isEmpty_eq]
    split
    · exact .none
    · exact .some (.block hd)

section
variable (hc : w.Keeps c d)
include hc

theorem caseStatements {clause : Node} {ns : List Node} (h : w.AllFit ns) :
    w.Alike (LikeAll w.known) (caseStatements c clause ns) (caseStatements d clause ns) := by
  induction ns with
  | nil => exact alike_refuse _ _
  | cons n ns ih =>
    obtain ⟨hn, hs⟩ := allFit_cons.mp h
    have step : w.Alike (LikeAll w.known)
        (do if hasBreak n then refuse .breakInCase n
            let first ← c.statement n
            return first ++ (← Conversion.caseStatements c clause ns))
        (do if hasBreak n then refuse .breakInCase n
            let first ← d.statement n
            return first ++ (← Conversion.caseStatements d clause ns)) :=
      alike_guard ((hc.statement hn).bind fun first first' hf => (ih hs).bind
        fun more more' hm => alike_pure (hf.append hm))
    cases n with
    | breakStatement m label =>
      cases label with
      | none => exact alike_pure .nil
      | some label => exact alike_refuse _ _
    | returnStatement => exact hc.statement hn
    | _ => exact step

theorem caseBody {clause : Node} {ns : List Node} (h : w.AllFit ns) :
    w.Alike (LikeAll w.known) (caseBody c clause ns) (caseBody d clause ns) :=
  hc.caseStatements (allFit_openTail ns h)

theorem addCase {subject : String} {cases cases' : Cases} {clause test : Node} {ns : List Node}
    (hs : w.known subject) (hcases : LikeSwitch w cases cases') (ht : w.fits test)
    (h : w.AllFit ns) :
    w.Alike (LikeSwitch w) (addCase c subject cases clause test ns)
      (addCase d subject cases' clause test ns) := by
  unfold Conversion.addCase
  refine (hc.expression ht).bind fun t t' ht => ?_
  have hcondition : Like w.known (.binary {} "==" (.ident {} subject) t)
      (.binary {} "==" (.ident {} subject) t') := .binary (.ident hs) ht
  have hpending := hcases.pending.append (AiScript.likeAll_singleton hcondition)
  dsimp only
  generalize cases.pending ++ _ = pending, cases'.pending ++ _ = pending' at hpending
  cases ns with
  | nil => exact alike_pure { hcases with pending := hpending }
  | cons n ns =>
    cases hpending with
    | nil => exact alike_pure hcases
    | cons hf hm =>
      refine (hc.caseBody h).bind fun body body' hb => alike_pure ?_
      refine { hcases with branches := hcases.branches.append ?_, pending := .nil }
      exact .cons (hf.anyOf hm) (.block hb) .nil

theorem addDefault {cases cases' : Cases} {clause : Node} {ns : List Node} {isLast : Bool}
    (hcases : LikeSwitch w cases cases') (h : w.AllFit ns) :
    w.Alike (LikeSwitch w) (addDefault c cases clause ns isLast)
      (addDefault d cases' clause ns isLast) := by
  unfold Conversion.addDefault
  split
  · exact alike_guard (alike_pure { hcases with default := .nil, pending := .nil })
  · refine (hc.caseBody h).bind fun body body' hb => ?_
    exact alike_pure { hcases with default := hb, pending := .nil }

theorem convertCases {subject : String} {cases cases' : Cases} {ns : List Node}
    (hs : w.known subject) (hcases : LikeSwitch w cases cases') (h : w.AllFit ns) :
    w.Alike (LikeSwitch w) (convertCases c subject cases ns) (convertCases d subject cases' ns) := by
  induction ns generalizing cases cases' with
  | nil => exact alike_pure hcases
  | cons n ns ih =>
    obtain ⟨hn, hns⟩ := allFit_cons.mp h
    unfold Conversion.convertCases
    split
    · rename_i m test statements
      have hk : w.AllFit (test :: statements) := allFit_children hn
      obtain ⟨ht, hk⟩ := allFit_cons.mp hk
      exact (hc.addCase hs hcases ht hk).bind fun _ _ h' => ih h' hns
    · exact (hc.addDefault hcases (allFit_children hn)).bind fun _ _ h' => ih h' hns
    · exact ih hcases hns

theorem switch {subject : Node} {clauses : List Node} (hs : w.fits subject)
    (h : w.AllFit clauses) :
    w.Alike (LikeAll w.known) (convertSwitch c subject clauses)
      (convertSwitch d subject clauses) := by
  unfold convertSwitch
  refine (hc.expression hs).bind fun value value' hv => freshName_alike.bind ?_
  rintro temp _ ⟨rfl, ht⟩
  refine (hc.convertCases ht ⟨.nil, .nil, .nil⟩ h).bind fun cases cases' hcases => ?_
  exact alike_pure (.cons (.define hv) hcases.statements)

/-! ### Loops -/

theorem guard {test : Node} (h : w.fits test) :
    w.Alike (LikeAll w.known) (convertGuard c test) (convertGuard d test) := by
  unfold convertGuard
  refine (hc.condition h).bind fun t t' ht => ?_
  have test : w.Alike (LikeAll w.known)
      (pure [.cond {} (.unary {} "!" t) (.exit {}) [] none])
      (pure [.cond {} (.unary {} "!" t') (.exit {}) [] none]) :=
    alike_pure (AiScript.likeAll_singleton (.cond (.unary ht) .exit .nil .none))
  cases ht with
  | @bool _ _ x =>
    cases x with
    | true => exact alike_pure .nil
    | false => exact test
  | _ => exact test

theorem guard? {test : Option Node} (h : w.AllFit test.toList) :
    w.Alike (LikeAll w.known) (convertGuard? c test) (convertGuard? d test) := by
  cases test with
  | none => exact alike_pure .nil
  | some test => exact hc.guard (h test (by simp))

theorem loopBody {body : Node} (h : w.fits body) :
    w.Alike (LikeAll w.known) (loopBody c body) (loopBody d body) := by
  unfold Conversion.loopBody
  split
  · exact hc.statements (allFit_children h)
  · exact hc.statement h

theorem loopStart {start : Option Node} (h : w.AllFit start.toList) :
    w.Alike (LikeAll w.known) (loopStart c start) (loopStart d start) := by
  unfold Conversion.loopStart
  split
  · exact alike_pure .nil
  · exact hc.variableList (h _ (by simp))
  · exact hc.effects (h _ (by simp))

theorem loopAdvance {advance : Option Node} (h : w.AllFit advance.toList) :
    w.Alike (LikeAll w.known) (loopAdvance c advance) (loopAdvance d advance) := by
  unfold Conversion.loopAdvance
  split
  · exact alike_pure .nil
  · exact hc.effects (h _ (by simp))

theorem forLoop {start test advance : Option Node} {body : Node}
    (h : w.AllFit (start.toList ++ test.toList ++ advance.toList ++ [body])) :
    w.Alike (LikeAll w.known) (convertFor c start test advance body)
      (convertFor d start test advance body) := by
  simp only [allFit_append, allFit_cons] at h
  obtain ⟨⟨⟨hs, ht⟩, ha⟩, hb, -⟩ := h
  unfold convertFor
  refine (hc.loopStart hs).bind fun prologue prologue' hs => ?_
  refine (hc.guard? ht).bind fun check check' ht => ?_
  refine (hc.loopBody hb).bind fun round round' hb => ?_
  refine (hc.loopAdvance ha).bind fun later later' ha => ?_
  dsimp only
  rw [ha.isEmpty_eq, hs.isEmpty_eq]
  split
  · refine freshName_alike.bind ?_
    rintro flag _ ⟨rfl, hf⟩
    have hloop := AiScript.LikeAll.cons (like_afterFirst hf ha) (ht.append hb)
    refine alike_pure (AiScript.likeAll_singleton (.block (hs.append ?_)))
    exact .cons (.define .bool) (AiScript.likeAll_singleton (.loop hloop))
  · have hloop := (ht.append hb).append ha
    refine alike_pure ?_
    split
    · exact AiScript.likeAll_singleton (.loop hloop)
    · exact AiScript.likeAll_singleton
        (.block (hs.append (AiScript.likeAll_singleton (.loop hloop))))

theorem whileLoop {test body : Node} (ht : w.fits test) (hb : w.fits body) :
    w.Alike (LikeAll w.known) (convertWhile c test body) (convertWhile d test body) := by
  unfold convertWhile
  refine (hc.guard ht).bind fun check check' ht => ?_
  refine (hc.loopBody hb).bind fun round round' hb => ?_
  exact alike_pure (AiScript.likeAll_singleton (.loop (ht.append hb)))

theorem doLoop {body test : Node} (hb : w.fits body) (ht : w.fits test) :
    w.Alike (LikeAll w.known) (convertDo c body test) (convertDo d body test) := by
  unfold convertDo
  refine (hc.loopBody hb).bind fun round round' hb => ?_
  refine (hc.guard ht).bind fun check check' ht => ?_
  rw [ht.isEmpty_eq]
  split
  · refine freshName_alike.bind ?_
    rintro flag _ ⟨rfl, hf⟩
    have hloop := AiScript.LikeAll.cons (like_afterFirst hf ht) hb
    refine alike_pure (AiScript.likeAll_singleton (.block ?_))
    exact .cons (.define .bool) (AiScript.likeAll_singleton (.loop hloop))
  · exact alike_pure (AiScript.likeAll_singleton (.loop (hb.append ht)))

theorem forOfLoop {target items body : Node} (hi : w.fits items) (hb : w.fits body) :
    w.Alike (LikeAll w.known) (convertForOf c target items body)
      (convertForOf d target items body) := by
  unfold convertForOf
  refine alike_guard ((checkIterable_alike _).next fun _ => ?_)
  refine (hc.expression hi).bind fun items items' hi => (loopVariable_alike target).bind ?_
  rintro ⟨name, made⟩ ⟨_, made'⟩ ⟨rfl, hm⟩
  refine (hc.loopBody hb).bind fun round round' hb => ?_
  exact alike_pure (AiScript.likeAll_singleton (.each hi (hm.append hb).asOne))

end

end Keeps

end Setting

end ScriptBridge.Conversion
