import ScriptBridge.Proofs.Conversion.AnyOrder
import ScriptBridge.Proofs.Conversion.Scoped

/-!
# What an assigned pattern reads

A pattern that is assigned becomes one assignment for each target in it, in the order of the targets.
Every one of them reads from the same name, along the path of its target. The name stands for the value
from before the first assignment as long as none of them assigns it, and the only assignment which may
do so is the last one. A value that is not a name gets a generated one, which no target in a source
text has. A value that is a name is read from under that name: if an element other than the last one is
assigned to it, then the elements after that one are read from the new value.

* `targetsOf`: the targets of a pattern with the paths to their values.
* `ReadsInTime`: no assignment reads through a name that was assigned before it.
* `expandAssignment_puts`: what a pattern expands to.
* `readsInTime_iff`: when assignments that read from one name do so in time.
* `effects_assignedPattern`: an assigned pattern where its value is not used.
-/

namespace ScriptBridge.Conversion

open TypeScript

/-! ## Targets -/

/-- A step from a value to a part of it. -/
inductive PatternStep where
  | element (i : Nat)
  | member (key : String)

/-- The part of a value that a step leads to. -/
def PatternStep.from (source : AiScript.Node) : PatternStep → AiScript.Node
  | .element i => Conversion.element source i
  | .member key => Conversion.member source key

/-- The part of a value that a path leads to. -/
def partAt (source : AiScript.Node) (path : List PatternStep) : AiScript.Node :=
  path.foldl PatternStep.from source

/-- A target of a pattern with the path to its value. -/
structure PatternTarget where
  path : List PatternStep
  node : Node

mutual
/-- The targets of a pattern whose value is at the end of a path. -/
def targetsOf (path : List PatternStep) : Node → List PatternTarget
  | .parenthesized _ e => targetsOf path e
  | .array _ elements => elementTargets path 0 elements
  | .object _ properties => propertyTargets path properties
  | n => [⟨path, n⟩]

/-- The targets in the elements of an array pattern. -/
def elementTargets (path : List PatternStep) (i : Nat) : List Node → List PatternTarget
  | [] => []
  | .omitted _ :: rest => elementTargets path (i + 1) rest
  | target :: rest => targetsOf (path ++ [.element i]) target ++ elementTargets path (i + 1) rest

/-- The targets in the properties of an object pattern. -/
def propertyTargets (path : List PatternStep) : List Node → List PatternTarget
  | [] => []
  | .shorthand _ name _ :: rest =>
    ⟨path ++ [.member name.name], .ident name⟩ :: propertyTargets path rest
  | .property _ key target :: rest =>
    match propertyKey? key with
    | .ok (some name) => targetsOf (path ++ [.member name]) target ++ propertyTargets path rest
    | _ => propertyTargets path rest
  | _ :: rest => propertyTargets path rest
end

/-! ## Assignments -/

/-- The name that a node is. -/
def nameOf? : AiScript.Node → Option String
  | .ident _ name => some name
  | _ => none

/-- The name that a node assigns. -/
def assigned? : AiScript.Node → Option String
  | .assign _ target _ => nameOf? target
  | _ => none

/-- The name that a part of a value is read from. -/
def baseOf? : AiScript.Node → Option String
  | .ident _ name => some name
  | .prop _ target _ | .index _ target _ => baseOf? target
  | _ => none

/-- The name that the value of an assignment is read from. -/
def readFrom? : AiScript.Node → Option String
  | .assign _ _ value => baseOf? value
  | _ => none

/-- No assignment reads through a name that was assigned before it. -/
def ReadsInTime (assigns : List AiScript.Node) : Prop :=
  assigns.Pairwise fun earlier later => ∀ name ∈ assigned? earlier, readFrom? later ≠ some name

instance (assigns : List AiScript.Node) : Decidable (ReadsInTime assigns) :=
  inferInstanceAs (Decidable (assigns.Pairwise _))

/-- What a target is assigned as: a name as itself, anything else as the expression it is. -/
inductive PlaceOf (c : Converter) (context : Context) : Node → AiScript.Node → Prop
  | name (i : Ident) : PlaceOf c context (.ident i) (.ident {} i.name)
  | property {m target name isOptional place}
      (h : Produces context (c.expression (.propertyAccess m target name isOptional)) place) :
      PlaceOf c context (.propertyAccess m target name isOptional) place
  | element {m target key isOptional place}
      (h : Produces context (c.expression (.elementAccess m target key isOptional)) place) :
      PlaceOf c context (.elementAccess m target key isOptional) place

/-- An assignment to a target of what its path leads to. -/
def Puts (c : Converter) (context : Context) (source : AiScript.Node) (t : PatternTarget)
    (r : AiScript.Node) : Prop :=
  ∃ place, PlaceOf c context t.node place ∧ r = .assign {} place (partAt source t.path)

section
variable {c : Converter} {context : Context} {source : AiScript.Node}

theorem partAt_concat (source : AiScript.Node) (path : List PatternStep) (step : PatternStep) :
    partAt source (path ++ [step]) = step.from (partAt source path) := by
  simp only [partAt, List.foldl_append, List.foldl_cons, List.foldl_nil]

theorem propertyKey?_of_patternKey {key : Node} {name : String} {s s' : Progress}
    (h : patternKey key context s = .ok name s') : propertyKey? key = .ok (some name) := by
  obtain ⟨found, s₁, hfound, h⟩ := bind_ok h
  cases hkey : propertyKey? key with
  | error fault =>
    rw [hkey] at hfound
    cases hfound
  | ok text =>
    rw [hkey] at hfound
    cases hfound
    cases found with
    | none => cases h
    | some text =>
      cases h
      rfl

mutual
theorem expandAssignment_puts (path : List PatternStep) (pattern : Node) {s s' : Progress}
    {out : List AiScript.Node} :
    expandAssignment c (partAt source path) pattern context s = .ok out s' →
      List.Forall₂ (Puts c context source) (targetsOf path pattern) out := by
  intro h
  cases pattern with
  | parenthesized m e => exact expandAssignment_puts path e h
  | array m elements => exact assignElements_puts path 0 elements h
  | object m properties => exact assignProperties_puts path properties h
  | ident i =>
    obtain ⟨_, s₁, -, h⟩ := bind_ok h
    cases h
    exact .cons ⟨_, .name i, rfl⟩ .nil
  | propertyAccess m target name isOptional =>
    obtain ⟨place, s₁, hplace, h⟩ := bind_ok h
    cases h
    exact .cons ⟨place, .property ⟨s, _, hplace⟩, rfl⟩ .nil
  | elementAccess m target key isOptional =>
    obtain ⟨place, s₁, hplace, h⟩ := bind_ok h
    cases h
    exact .cons ⟨place, .element ⟨s, _, hplace⟩, rfl⟩ .nil
  | binary m left operator right =>
    simp only [expandAssignment] at h
    split at h <;> cases h
  | _ => cases h
termination_by sizeOf pattern
decreasing_by all_goals (subst_vars; decreasing_tactic)

theorem assignElements_puts (path : List PatternStep) (i : Nat) (elements : List Node) {s s' : Progress}
    {out : List AiScript.Node} :
    assignElements c (partAt source path) i elements context s = .ok out s' →
      List.Forall₂ (Puts c context source) (elementTargets path i elements) out := by
  intro h
  fun_cases elementTargets path i elements with
  | case1 =>
    cases h
    exact .nil
  | case2 m rest => exact assignElements_puts path (i + 1) rest h
  | case3 target rest htarget =>
    rw [assignElements.eq_3 _ _ _ _ _ htarget] at h
    obtain ⟨first, s₁, hfirst, h⟩ := bind_ok h
    obtain ⟨more, s₂, hmore, h⟩ := bind_ok h
    cases h
    exact List.rel_append (expandAssignment_puts (path ++ [.element i]) target
      (by rwa [partAt_concat])) (assignElements_puts path (i + 1) rest hmore)
termination_by sizeOf elements
decreasing_by all_goals (subst_vars; decreasing_tactic)

theorem assignProperties_puts (path : List PatternStep) (properties : List Node) {s s' : Progress}
    {out : List AiScript.Node} :
    assignProperties c (partAt source path) properties context s = .ok out s' →
      List.Forall₂ (Puts c context source) (propertyTargets path properties) out := by
  intro h
  cases properties with
  | nil =>
    cases h
    exact .nil
  | cons property rest =>
    cases property with
    | shorthand m name fallback =>
      cases fallback with
      | some e => cases h
      | none =>
        obtain ⟨_, s₁, -, h⟩ := bind_ok h
        obtain ⟨more, s₂, hmore, h⟩ := bind_ok h
        cases h
        refine .cons ⟨_, .name name, ?_⟩ (assignProperties_puts path rest hmore)
        rw [partAt_concat]
        rfl
    | property m key target =>
      obtain ⟨name, s₁, hname, h⟩ := bind_ok h
      obtain ⟨first, s₂, hfirst, h⟩ := bind_ok h
      obtain ⟨more, s₃, hmore, h⟩ := bind_ok h
      cases h
      rw [propertyTargets, propertyKey?_of_patternKey hname]
      exact List.rel_append (expandAssignment_puts (path ++ [.member name]) target
        (by rwa [partAt_concat])) (assignProperties_puts path rest hmore)
    | _ => cases h
termination_by sizeOf properties
decreasing_by all_goals (subst_vars; decreasing_tactic)
end

/-! ## The name that is read -/

theorem baseOf?_from (source : AiScript.Node) (step : PatternStep) :
    baseOf? (step.from source) = baseOf? source := by
  cases step with
  | element i => rfl
  | member key =>
    rw [PatternStep.from, member]
    split <;> rfl

/-- All parts of a value are read from its name. -/
theorem baseOf?_partAt (source : AiScript.Node) (path : List PatternStep) :
    baseOf? (partAt source path) = baseOf? source := by
  induction path generalizing source with
  | nil => rfl
  | cons step path ih => rw [partAt, List.foldl_cons, ← partAt, ih, baseOf?_from]

theorem readFrom?_of_puts {targets : List PatternTarget} {assigns : List AiScript.Node}
    (h : List.Forall₂ (Puts c context source) targets assigns) :
    ∀ r ∈ assigns, readFrom? r = baseOf? source := by
  induction h with
  | nil => exact List.forall_mem_nil _
  | cons hputs _ ih =>
    obtain ⟨place, -, rfl⟩ := hputs
    exact List.forall_mem_cons.mpr ⟨baseOf?_partAt source _, ih⟩

/-- Assignments that all read from one name read in time if none but the last one assigns it. -/
theorem readsInTime_iff {name : String} {assigns : List AiScript.Node}
    (h : ∀ r ∈ assigns, readFrom? r = some name) :
    ReadsInTime assigns ↔ ∀ r ∈ assigns.dropLast, assigned? r ≠ some name := by
  induction assigns with
  | nil => exact ⟨fun _ => List.forall_mem_nil _, fun _ => .nil⟩
  | cons r rest ih =>
    have ih := ih fun q hq => h q (List.mem_cons_of_mem r hq)
    rw [ReadsInTime, List.pairwise_cons, ← ReadsInTime, ih]
    cases rest with
    | nil =>
      refine ⟨fun _ => List.forall_mem_nil _, fun _ => ⟨List.forall_mem_nil _, ?_⟩⟩
      exact List.forall_mem_nil _
    | cons q rest =>
      rw [List.dropLast_cons_of_ne_nil (List.cons_ne_nil q rest), List.forall_mem_cons (a := r)]
      refine and_congr_left fun _ => ?_
      constructor
      · intro hlater hr
        exact hlater q List.mem_cons_self name hr (h q (List.mem_cons_of_mem r List.mem_cons_self))
      · intro hr later hmem name' hassigned hread
        rw [h later (List.mem_cons_of_mem r hmem)] at hread
        exact hr (hassigned.trans hread.symm)

/-! ## Assignments as they are emitted -/

/-- The name that a value is read from, with the definition that makes it so if there is need of one. -/
inductive SourceOf (value : AiScript.Node) : AiScript.Loc → String → List AiScript.Node → Prop
  | name {loc : AiScript.Loc} {name : String} (h : value = .ident loc name) :
    SourceOf value loc name []
  | generated (k : Nat) (h : nameOf? value = none) :
    SourceOf value {} (generatedName k) [define (generatedName k) value false]

theorem bindSource_ok {value : AiScript.Node} {made : List AiScript.Node} {s s' : Progress}
    (h : bindSource value context s = .ok (source, made) s') :
    ∃ loc name, source = .ident loc name ∧ SourceOf value loc name made := by
  unfold bindSource at h
  split at h
  · rename_i loc name
    cases h
    exact ⟨loc, name, rfl, .name rfl⟩
  · rename_i hvalue
    cases h
    refine ⟨_, _, rfl, .generated _ ?_⟩
    unfold nameOf?
    split
    · exact absurd rfl (hvalue _ _)
    · rfl

theorem convertAssignment_puts {n left right : Node} {s s' : Progress} {out : List AiScript.Node}
    (hp : isAssignedPattern left.unwrap = true)
    (h : convertAssignment c n left "=" right context s = .ok out s') :
    ∃ value loc name made assigns, Produces context (c.expression right) value ∧
      SourceOf value loc name made ∧ out = made ++ assigns ∧
      List.Forall₂ (Puts c context (.ident loc name)) (targetsOf [] left.unwrap) assigns := by
  have hpattern : (("=" == "=") && isAssignedPattern left.unwrap) = true := hp
  simp only [convertAssignment, hpattern, if_true] at h
  obtain ⟨value, s₁, hvalue, h⟩ := bind_ok h
  obtain ⟨⟨source, made⟩, s₂, hsource, h⟩ := bind_ok h
  obtain ⟨assigns, s₃, hassigns, h⟩ := bind_ok h
  cases h
  obtain ⟨loc, name, rfl, hof⟩ := bindSource_ok hsource
  exact ⟨value, loc, name, made, assigns, ⟨s, s₁, hvalue⟩, hof, rfl,
    expandAssignment_puts [] left.unwrap hassigns⟩

/-- The definition of the name that is read assigns nothing. -/
theorem SourceOf.readsInTime_append {value : AiScript.Node} {loc : AiScript.Loc} {name : String}
    {made : List AiScript.Node} (h : SourceOf value loc name made) (assigns : List AiScript.Node) :
    ReadsInTime (made ++ assigns) ↔ ReadsInTime assigns := by
  cases h with
  | name => exact Iff.rfl
  | generated k => exact List.pairwise_cons.trans (and_iff_right fun _ _ _ h => nomatch h)

theorem exists_puts {targets : List PatternTarget} {assigns : List AiScript.Node}
    (h : List.Forall₂ (Puts c context source) targets assigns) {r : AiScript.Node} (hr : r ∈ assigns) :
    ∃ t ∈ targets, Puts c context source t r := by
  induction h with
  | nil => cases hr
  | cons hputs _ ih =>
    obtain rfl | hr := List.mem_cons.mp hr
    · exact ⟨_, List.mem_cons_self, hputs⟩
    · obtain ⟨t, ht, hputs⟩ := ih hr
      exact ⟨t, List.mem_cons_of_mem _ ht, hputs⟩

end

/-! ## Where the value is not used -/

theorem nameOf?_setLoc (l : AiScript.Loc) (r : AiScript.Node) : nameOf? (r.setLoc l) = nameOf? r := by
  cases r with
  | loneParam p | loneBranch p | loneArm p => cases p; rfl
  | _ => rfl

theorem assigned?_setLoc (l : AiScript.Loc) (r : AiScript.Node) :
    assigned? (r.setLoc l) = assigned? r := by
  cases r with
  | loneParam p | loneBranch p | loneArm p => cases p; rfl
  | _ => rfl

theorem readFrom?_setLoc (l : AiScript.Loc) (r : AiScript.Node) :
    readFrom? (r.setLoc l) = readFrom? r := by
  cases r with
  | loneParam p | loneBranch p | loneArm p => cases p; rfl
  | _ => rfl

theorem setLoc_setLoc (l l' : AiScript.Loc) (r : AiScript.Node) :
    (r.setLoc l).setLoc l' = r.setLoc l' := by
  cases r with
  | loneParam p | loneBranch p | loneArm p => cases p; rfl
  | _ => rfl

theorem nameOf?_stamp (n : Node) (r : AiScript.Node) : nameOf? (stamp n r) = nameOf? r := by
  unfold stamp
  split
  · exact nameOf?_setLoc _ r
  · rfl

theorem map_setLoc_stamp (n : Node) (out : List AiScript.Node) :
    (out.map (stamp n)).map (·.setLoc {}) = out.map (·.setLoc {}) := by
  rw [List.map_map]
  refine List.map_congr_left fun r _ => ?_
  rw [Function.comp_apply, stamp]
  split
  · exact setLoc_setLoc _ _ r
  · rfl

theorem SourceOf.map_setLoc {value : AiScript.Node} {loc : AiScript.Loc} {name : String}
    {made : List AiScript.Node} (h : SourceOf value loc name made) :
    made.map (·.setLoc {}) = made := by
  cases h <;> rfl

theorem map_setLoc_puts {c : Converter} {context : Context} {source : AiScript.Node}
    {targets : List PatternTarget} {assigns : List AiScript.Node}
    (h : List.Forall₂ (Puts c context source) targets assigns) :
    assigns.map (·.setLoc {}) = assigns := by
  induction h with
  | nil => rfl
  | cons hputs _ ih =>
    obtain ⟨place, -, rfl⟩ := hputs
    rw [List.map_cons, ih]
    rfl

/-- Whether assignments read in time does not depend on their places. -/
theorem readsInTime_setLoc (out : List AiScript.Node) :
    ReadsInTime (out.map (·.setLoc {})) ↔ ReadsInTime out := by
  simp only [ReadsInTime, List.pairwise_map, assigned?_setLoc, readFrom?_setLoc]

/-! ### Targets of source texts -/

/-- A property is not a name, except one of the host. -/
theorem convertProperty_ordinary (c : Converter) (target : Node) (key : String) :
    Yields (convertProperty c target key) fun v =>
      ∀ name, nameOf? v = some name → isOrdinary name = true := by
  unfold convertProperty
  refine yields_bind fun value => ?_
  split
  · refine yields_bind fun isHost => ?_
    split
    · rename_i hspace
      refine yields_pure fun name hname => ?_
      cases hname
      exact isOrdinary_hostName (Bool.and_eq_true_iff.mp hspace).1 key
    · exact yields_pure fun name hname => by cases hname
  · exact yields_pure fun name hname => by cases hname

/-- Calls, properties and elements are not names, except those of the host. -/
theorem access_ordinary (c : Converter) (n : Node) :
    Yields (access.expression c n) fun r =>
      ∀ v ∈ r, ∀ name, nameOf? v = some name → isOrdinary name = true := by
  dsimp only [access]
  split
  · refine yields_guard (yields_bind fun args => yields_bind fun callee => yields_pure ?_)
    rintro _ ⟨⟩ name ⟨⟩
  · refine yields_guard ((convertProperty_ordinary c _ _).bind fun v hv => yields_pure ?_)
    rintro _ ⟨⟩
    exact hv
  · refine yields_guard (yields_bind fun _ => yields_bind fun value => yields_bind fun key =>
      yields_pure ?_)
    rintro _ ⟨⟩ name ⟨⟩
  · exact yields_refuse _ _
  · exact yields_pure nofun

/-- The name that a target is assigned as is its own, or one of the host. -/
theorem name_of_placeOf {k : Nat} {context : Context} {n : Node} {place : AiScript.Node}
    {name : String} (h : PlaceOf (converter defaultCapabilities k) context n place)
    (hname : nameOf? place = some name) :
    (∃ i, n = .ident i ∧ i.name = name) ∨ isOrdinary name = true := by
  have accessed {e : Node} (he : expressionTaker e = "access") (hplace : Produces context
      ((converter defaultCapabilities k).expression e) place) : isOrdinary name = true := by
    obtain ⟨s, s', hplace⟩ := hplace
    cases k with
    | zero => cases hplace
    | succ k =>
      change firstExpression _ _ _ context s = _ at hplace
      rw [exportsFirst_default.firstExpression_eq, he] at hplace
      obtain ⟨r, s₁, hr, hplace⟩ := bind_ok hplace
      cases r with
      | none => cases hplace
      | some v =>
        cases hplace
        rw [nameOf?_stamp] at hname
        exact access_ordinary _ e context s _ _ hr v rfl name hname
  cases h with
  | name i =>
    cases hname
    exact .inl ⟨i, rfl, rfl⟩
  | property h => exact .inr (accessed rfl h)
  | element h => exact .inr (accessed rfl h)

/-! ### Assigned patterns -/

theorem effects_puts {k : Nat} {n left right : Node} {m : Mark} {context : Context}
    {s s' : Progress} {out : List AiScript.Node} (hn : n.unwrap = .binary m left "=" right)
    (hp : isAssignedPattern left.unwrap = true)
    (h : (converter defaultCapabilities k).effects n context s = .ok out s') :
    ∃ level value loc name made assigns,
      Produces context ((converter defaultCapabilities level).expression right) value ∧
      SourceOf value loc name made ∧ out.map (·.setLoc {}) = made ++ assigns ∧
      List.Forall₂ (Puts (converter defaultCapabilities level) context (.ident loc name))
        (targetsOf [] left.unwrap) assigns := by
  induction k generalizing n s s' out with
  | zero => cases h
  | succ k ih =>
    change firstEffects _ n _ context s = _ at h
    cases n with
    | parenthesized m e =>
      rw [exportsFirst_default.firstEffects_parenthesized] at h
      obtain ⟨r, s₁, hr, h⟩ := bind_ok h
      obtain ⟨inner, s₂, hinner, hr⟩ := bind_ok hr
      cases hr
      cases h
      rw [map_setLoc_stamp]
      exact ih (n := e) hn hinner
    | binary m left operator right =>
      cases hn
      rw [exportsFirst_default.firstEffects_eq _ (by rintro _ _ ⟨⟩)] at h
      obtain ⟨r, s₁, hr, h⟩ := bind_ok h
      obtain ⟨inner, s₂, hinner, hr⟩ := bind_ok hr
      cases hr
      cases h
      obtain ⟨value, loc, name, made, assigns, hvalue, hsource, rfl, hputs⟩ :=
        convertAssignment_puts hp hinner
      refine ⟨k, value, loc, name, made, assigns, hvalue, hsource, ?_, hputs⟩
      rw [map_setLoc_stamp, List.map_append, hsource.map_setLoc, map_setLoc_puts hputs]
    | _ => cases hn

/-- A pattern that is assigned where its value is not used becomes, up to the places of the output, one
assignment for each of its targets, in order, of the part of one name that the path of the target leads
to. If the value is a name, it is that name, and the assignments read in time if and only if none but
the last one assigns the name. If the value is none, the name is generated, and the assignments read in
time unless a target is spelled like a generated name. -/
theorem effects_assignedPattern {k : Nat} {n left right : Node} {m : Mark} {context : Context}
    {s s' : Progress} {out : List AiScript.Node} (hn : n.unwrap = .binary m left "=" right)
    (hp : isAssignedPattern left.unwrap = true)
    (h : (converter defaultCapabilities k).effects n context s = .ok out s') :
    ∃ level value loc name made assigns,
      Produces context ((converter defaultCapabilities level).expression right) value ∧
      SourceOf value loc name made ∧ out.map (·.setLoc {}) = made ++ assigns ∧
      List.Forall₂ (Puts (converter defaultCapabilities level) context (.ident loc name))
        (targetsOf [] left.unwrap) assigns ∧
      (ReadsInTime out ↔ ∀ r ∈ assigns.dropLast, assigned? r ≠ some name) ∧
      (nameOf? value = none → (∀ t ∈ targetsOf [] left.unwrap, ∀ i, t.node = .ident i →
        isOrdinary i.name = true) → ReadsInTime out) := by
  obtain ⟨level, value, loc, name, made, assigns, hvalue, hsource, hout, hputs⟩ :=
    effects_puts hn hp h
  have hlaw : ReadsInTime out ↔ ∀ r ∈ assigns.dropLast, assigned? r ≠ some name := by
    rw [← readsInTime_setLoc, hout, hsource.readsInTime_append]
    exact readsInTime_iff (readFrom?_of_puts hputs)
  refine ⟨level, value, loc, name, made, assigns, hvalue, hsource, hout, hputs, hlaw, ?_⟩
  intro hvalue hordinary
  have hgenerated : isGenerated name = true := by
    cases hsource with
    | name hname => rw [hname] at hvalue; cases hvalue
    | generated k => exact isGenerated_generatedName k
  refine hlaw.mpr fun r hr hassigned => ?_
  obtain ⟨t, ht, place, hplace, rfl⟩ := exists_puts hputs ((List.dropLast_sublist _).mem hr)
  have hname : isOrdinary name = true := by
    obtain ⟨i, hi, rfl⟩ | hname := name_of_placeOf hplace hassigned
    · exact hordinary t ht i hi
    · exact hname
  rw [isOrdinary, hgenerated] at hname
  cases hname

/-- A pattern whose first element is assigned to the name that the second one is read from. -/
def overwrittenSource : String :=
  "[a, b] = a;"

/-- Whether statements are one assigned pattern that is converted and does not read in time. -/
def isOverwriting (statements : List Node) : Bool :=
  match statements with
  | [.expressionStatement _ n] =>
    match n.unwrap with
    | .binary _ left operator _ =>
      operator == "=" && isAssignedPattern left.unwrap && endsWith
        ((converter defaultCapabilities 20).effects n aloneContext default) fun out _ =>
          decide ¬ ReadsInTime out
    | _ => false
  | _ => false

/-- An assignment before the last one is to the name that all of them read from. -/
theorem effects_assignedPattern_overwritten :
    ∃ file nextId m n out after made assigns name,
      parseFrom 0 "main.ts" overwrittenSource = .ok (file, nextId) ∧
      file.statements = [.expressionStatement m n] ∧
      (converter defaultCapabilities 20).effects n aloneContext default = .ok out after ∧
      ¬ ReadsInTime out ∧ out.map (·.setLoc {}) = made ++ assigns ∧
      ∃ r ∈ assigns.dropLast, assigned? r = some name := by
  have hc : succeedsWith (parseFrom 0 "main.ts" overwrittenSource)
      (fun r => isOverwriting r.1.statements) = true := by
    decide +kernel
  obtain ⟨⟨file, nextId⟩, hparse, hover⟩ := succeedsWith_iff.mp hc
  dsimp only at hover
  unfold isOverwriting at hover
  split at hover
  · rename_i m n hstatements
    split at hover
    · rename_i m' left operator right hn
      simp only [Bool.and_eq_true, beq_iff_eq] at hover
      obtain ⟨⟨rfl, hp⟩, hend⟩ := hover
      obtain ⟨out, after, hout, hlate⟩ := endsWith_iff.mp hend
      have hlate := of_decide_eq_true hlate
      obtain ⟨_, _, _, name, made, assigns, -, -, hparts, -, hlaw, -⟩ :=
        effects_assignedPattern hn hp hout
      have hassigned : ∃ r ∈ assigns.dropLast, assigned? r = some name := by
        simpa using mt hlaw.mpr hlate
      exact ⟨file, nextId, m, n, out, after, made, assigns, name, hparse, hstatements, hout, hlate,
        hparts, hassigned⟩
    · exact absurd hover nofun
  · exact absurd hover nofun

end ScriptBridge.Conversion
