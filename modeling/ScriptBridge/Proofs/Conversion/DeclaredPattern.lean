import ScriptBridge.Proofs.Conversion.AssignedPattern

/-!
# What a declared pattern reads

A declared pattern is gone through twice: by the binder, which records for each name the steps from the
declared value to the value of the name, and by the conversion, which defines each name as the part of
the source that it reads. Both follow the same paths. A pattern with a rest element, a default or a
computed key has no expansion.

* `boundNames`: the names of a pattern with the paths to their values.
* `isPlain`: patterns without rest elements, defaults and computed keys.
* `expandBinding_plain`, `expandBinding_cases`: what is expanded, and how an expansion stops.
* `declareBinding_eq`, `recorded_of_declareBinding`: what the binder records.
* `expandBinding_agrees`: both together.
-/

namespace ScriptBridge.Conversion

open TypeScript

/-! ## Names and their paths -/

/-- A name that a pattern binds, with the path to its value. -/
structure PatternName where
  path : List PatternStep
  name : Ident

mutual
/-- The names of a pattern whose value is at the end of a path. -/
def boundNames (path : List PatternStep) : Node → List PatternName
  | .ident i => [⟨path, i⟩]
  | .arrayPattern _ elements => elementNames path 0 elements
  | .objectPattern _ elements => propertyNames path elements
  | _ => []

/-- The names in the elements of an array pattern. -/
def elementNames (path : List PatternStep) (i : Nat) : List Node → List PatternName
  | [] => []
  | .bindingElement _ _ target _ _ :: rest =>
    boundNames (path ++ [.element i]) target ++ elementNames path (i + 1) rest
  | _ :: rest => elementNames path (i + 1) rest

/-- The names in the elements of an object pattern. -/
def propertyNames (path : List PatternStep) : List Node → List PatternName
  | [] => []
  | .bindingElement _ key target _ _ :: rest =>
    match propertyKey? (key.getD target) with
    | .ok (some name) => boundNames (path ++ [.member name]) target ++ propertyNames path rest
    | _ => propertyNames path rest
  | _ :: rest => propertyNames path rest
end

/-- Whether an element of a pattern takes a rest or has a default. -/
def hasExtras (fallback : Option Node) (isRest : Bool) : Bool :=
  isRest || fallback.isSome

mutual
/-- Whether a node is a pattern without rest elements, defaults and computed keys. -/
def isPlain : Node → Bool
  | .ident _ => true
  | .arrayPattern _ elements => plainElements elements
  | .objectPattern _ elements => plainProperties elements
  | _ => false

/-- Whether all elements of an array pattern are holes or plain. -/
def plainElements : List Node → Bool
  | [] => true
  | .omitted _ :: rest => plainElements rest
  | .bindingElement _ _ target fallback isRest :: rest =>
    !hasExtras fallback isRest && isPlain target && plainElements rest
  | _ => false

/-- Whether all elements of an object pattern are plain. -/
def plainProperties : List Node → Bool
  | [] => true
  | .bindingElement _ key target fallback isRest :: rest =>
    match propertyKey? (key.getD target) with
    | .ok (some _) => !hasExtras fallback isRest && isPlain target && plainProperties rest
    | _ => false
  | _ => false
end

mutual
/-- Whether a node is a pattern. In an element with a rest, a default or a computed key anything can be
bound; the numeric keys of all other elements have values. -/
def isPattern : Node → Bool
  | .ident _ => true
  | .arrayPattern _ elements => patternElements elements
  | .objectPattern _ elements => patternProperties elements
  | _ => false

/-- Whether these are elements of an array pattern. -/
def patternElements : List Node → Bool
  | [] => true
  | .omitted _ :: rest => patternElements rest
  | .bindingElement _ _ target fallback isRest :: rest =>
    (hasExtras fallback isRest || isPattern target) && patternElements rest
  | _ => false

/-- Whether these are elements of an object pattern. -/
def patternProperties : List Node → Bool
  | [] => true
  | .bindingElement _ key target fallback isRest :: rest =>
    (hasExtras fallback isRest ||
      match propertyKey? (key.getD target) with
      | .ok (some _) => isPattern target
      | .ok none => true
      | .error _ => false) && patternProperties rest
  | _ => false
end

theorem hasExtras_eq_false {fallback : Option Node} {isRest : Bool}
    (h : hasExtras fallback isRest = false) : fallback = none ∧ isRest = false := by
  obtain ⟨hrest, hf⟩ := Bool.or_eq_false_iff.mp h
  exact ⟨by simpa using hf, hrest⟩

section
variable {path : List PatternStep} {i : Nat} {m : Mark} {key fallback : Option Node} {target : Node}
variable {isRest : Bool} {rest : List Node}

theorem elementNames_cons :
    elementNames path i (.bindingElement m key target fallback isRest :: rest) =
      boundNames (path ++ [.element i]) target ++ elementNames path (i + 1) rest := rfl

theorem propertyNames_cons {name : String} (h : propertyKey? (key.getD target) = .ok (some name)) :
    propertyNames path (.bindingElement m key target fallback isRest :: rest) =
      boundNames (path ++ [.member name]) target ++ propertyNames path rest := by
  rw [propertyNames, h]

theorem plainElements_cons :
    plainElements (.bindingElement m key target fallback isRest :: rest) = true ↔
      hasExtras fallback isRest = false ∧ isPlain target = true ∧ plainElements rest = true := by
  show (!hasExtras fallback isRest && isPlain target && plainElements rest) = true ↔ _
  simp only [Bool.and_eq_true, Bool.not_eq_true', and_assoc]

theorem plainProperties_cons :
    plainProperties (.bindingElement m key target fallback isRest :: rest) = true ↔
      ∃ name, propertyKey? (key.getD target) = .ok (some name) ∧ hasExtras fallback isRest = false ∧
        isPlain target = true ∧ plainProperties rest = true := by
  rw [plainProperties]
  split
  · rename_i name hkey
    simp [hkey, and_assoc]
  · rename_i hkey
    refine ⟨nofun, fun ⟨name, hname, _⟩ => absurd hname (hkey name)⟩

end

/-! ## Induction on plain patterns -/

section
variable {P : List PatternStep → Node → Prop} {E : List PatternStep → Nat → List Node → Prop}
variable {R : List PatternStep → List Node → Prop}

/-- The cases of an induction on a plain pattern: statements on a pattern, on the elements of an array
pattern and on those of an object pattern, each at the path of the value that is taken apart. -/
structure PlainCases (P : List PatternStep → Node → Prop)
    (E : List PatternStep → Nat → List Node → Prop) (R : List PatternStep → List Node → Prop) : Prop where
  ident : ∀ path i, P path (.ident i)
  array : ∀ path m elements, E path 0 elements → P path (.arrayPattern m elements)
  object : ∀ path m elements, R path elements → P path (.objectPattern m elements)
  noElement : ∀ path i, E path i []
  hole : ∀ path i m rest, E path (i + 1) rest → E path i (.omitted m :: rest)
  element : ∀ path i m key target rest, P (path ++ [.element i]) target → E path (i + 1) rest →
    E path i (.bindingElement m key target none false :: rest)
  noProperty : ∀ path, R path []
  property : ∀ path m key target name rest, propertyKey? (key.getD target) = .ok (some name) →
    P (path ++ [.member name]) target → R path rest →
      R path (.bindingElement m key target none false :: rest)

mutual
theorem PlainCases.pattern (c : PlainCases P E R) (path : List PatternStep) (pattern : Node)
    (h : isPlain pattern = true) : P path pattern := by
  cases pattern with
  | ident i => exact c.ident path i
  | arrayPattern m elements => exact c.array path m elements (c.elements path 0 elements h)
  | objectPattern m elements => exact c.object path m elements (c.properties path elements h)
  | _ => cases h
termination_by structural pattern

theorem PlainCases.elements (c : PlainCases P E R) (path : List PatternStep) (i : Nat)
    (elements : List Node) (h : plainElements elements = true) : E path i elements := by
  cases elements with
  | nil => exact c.noElement path i
  | cons e rest =>
    cases e with
    | omitted m => exact c.hole path i m rest (c.elements path (i + 1) rest h)
    | bindingElement m key target fallback isRest =>
      obtain ⟨hextras, htarget, hrest⟩ := plainElements_cons.mp h
      obtain ⟨rfl, rfl⟩ := hasExtras_eq_false hextras
      exact c.element path i m key target rest (c.pattern _ target htarget)
        (c.elements path (i + 1) rest hrest)
    | _ => cases h
termination_by structural elements

theorem PlainCases.properties (c : PlainCases P E R) (path : List PatternStep)
    (elements : List Node) (h : plainProperties elements = true) : R path elements := by
  cases elements with
  | nil => exact c.noProperty path
  | cons e rest =>
    cases e with
    | bindingElement m key target fallback isRest =>
      obtain ⟨name, hkey, hextras, htarget, hrest⟩ := plainProperties_cons.mp h
      obtain ⟨rfl, rfl⟩ := hasExtras_eq_false hextras
      exact c.property path m key target name rest hkey (c.pattern _ target htarget)
        (c.properties path rest hrest)
    | _ => cases h
termination_by structural elements
end

end

/-- A plain pattern binds its names in the order of the source. -/
theorem name_boundNames (path : List PatternStep) (pattern : Node) (h : isPlain pattern = true) :
    (boundNames path pattern).map PatternName.name = Binding.bindingIdentifiers pattern := by
  have hcases : PlainCases
      (fun path pattern =>
        (boundNames path pattern).map PatternName.name = Binding.bindingIdentifiers pattern)
      (fun path i elements =>
        (elementNames path i elements).map PatternName.name = Binding.elementIdentifiers elements)
      (fun path elements =>
        (propertyNames path elements).map PatternName.name = Binding.elementIdentifiers elements) :=
    { ident := fun _ _ => rfl
      array := fun _ _ _ hnames => hnames
      object := fun _ _ _ hnames => hnames
      noElement := fun _ _ => rfl
      hole := fun _ _ _ _ hrest => hrest
      element := fun path i m key target rest htarget hrest => by
        rw [elementNames_cons, List.map_append, htarget, hrest]
        rfl
      noProperty := fun _ => rfl
      property := fun path m key target name rest hkey htarget hrest => by
        rw [propertyNames_cons hkey, List.map_append, htarget, hrest]
        rfl }
  exact hcases.pattern path pattern h

/-! ## What is expanded -/

/-- The definition of a name as the part of a value at the end of its path. -/
def PatternName.definition (isMutable : Bool) (source : AiScript.Node) (n : PatternName) :
    AiScript.Node :=
  define n.name.name (partAt source n.path) isMutable

section
variable {isMutable : Bool} {source : AiScript.Node} {context : Context} {s : Progress}

theorem checkName_of_not_mem {i : Ident} (h : i.name ∉ reservedWords) :
    checkName i context s = .ok () s := by
  have hc : reservedWords.contains i.name = false := by simpa using h
  rw [checkName, hc]
  rfl

theorem checkElement_plain {n : Node} {fallback : Option Node} {isRest : Bool}
    (h : hasExtras fallback isRest = false) : checkElement n fallback isRest context s = .ok () s := by
  obtain ⟨rfl, hf⟩ := Bool.or_eq_false_iff.mp h
  rw [checkElement, hf]
  rfl

theorem patternKey_of_some {key : Node} {name : String} (h : propertyKey? key = .ok (some name)) :
    patternKey key context s = .ok name s := by
  rw [patternKey, h]
  rfl

/-- A plain pattern expands into one definition for each of its names, in order. -/
theorem expandBinding_plain (path : List PatternStep) (pattern : Node) (hp : isPlain pattern = true)
    (hn : ∀ n ∈ boundNames path pattern, n.name.name ∉ reservedWords) :
    expandBinding isMutable (partAt source path) pattern context s =
      .ok ((boundNames path pattern).map (·.definition isMutable source)) s := by
  have hcases : PlainCases
      (fun path pattern => (∀ n ∈ boundNames path pattern, n.name.name ∉ reservedWords) →
        expandBinding isMutable (partAt source path) pattern context s =
          .ok ((boundNames path pattern).map (·.definition isMutable source)) s)
      (fun path i elements => (∀ n ∈ elementNames path i elements, n.name.name ∉ reservedWords) →
        expandElements isMutable (partAt source path) i elements context s =
          .ok ((elementNames path i elements).map (·.definition isMutable source)) s)
      (fun path elements => (∀ n ∈ propertyNames path elements, n.name.name ∉ reservedWords) →
        expandProperties isMutable (partAt source path) elements context s =
          .ok ((propertyNames path elements).map (·.definition isMutable source)) s) :=
    { ident := fun path i hn => by
        rw [expandBinding, bind_of_ok (checkName_of_not_mem (hn ⟨path, i⟩ (.head _)))]
        rfl
      array := fun _ _ _ helements => helements
      object := fun _ _ _ helements => helements
      noElement := fun _ _ _ => rfl
      hole := fun _ _ _ _ hrest => hrest
      element := fun path i m key target rest htarget hrest hn => by
        rw [elementNames_cons, List.forall_mem_append] at hn
        have hfirst := htarget hn.1
        rw [partAt_concat] at hfirst
        rw [expandElements, bind_of_ok (checkElement_plain rfl), elementNames_cons, List.map_append]
        refine (bind_of_ok hfirst _).trans ?_
        rw [bind_of_ok (hrest hn.2)]
        rfl
      noProperty := fun _ _ => rfl
      property := fun path m key target name rest hkey htarget hrest hn => by
        rw [propertyNames_cons hkey, List.forall_mem_append] at hn
        have hfirst := htarget hn.1
        rw [partAt_concat] at hfirst
        rw [expandProperties, bind_of_ok (checkElement_plain rfl),
          bind_of_ok (patternKey_of_some hkey), propertyNames_cons hkey, List.map_append]
        refine (bind_of_ok hfirst _).trans ?_
        rw [bind_of_ok (hrest hn.2)]
        rfl }
  exact hcases.pattern path pattern hp hn

/-! ## How an expansion stops -/

/-- A step stops at a construct that is used in a way without a counterpart. -/
def StopsSemantic {α : Type} (m : ConvertM α) (context : Context) (s : Progress) : Prop :=
  ∃ refusal, m context s = .error (.refused refusal) s ∧ refusal.cause.family = .semantic

theorem StopsSemantic.bind {α β : Type} {m : ConvertM α} (h : StopsSemantic m context s)
    (f : α → ConvertM β) : StopsSemantic (m >>= f) context s := by
  obtain ⟨refusal, hm, hfamily⟩ := h
  refine ⟨refusal, ?_, hfamily⟩
  simp only [Bind.bind, ReaderT.bind, EStateM.bind, hm]

theorem StopsSemantic.after {α β : Type} {m : ConvertM α} {a : α} (h : m context s = .ok a s)
    {f : α → ConvertM β} (hf : StopsSemantic (f a) context s) : StopsSemantic (m >>= f) context s := by
  obtain ⟨refusal, hm, hfamily⟩ := hf
  exact ⟨refusal, (bind_of_ok h f).trans hm, hfamily⟩

theorem stopsSemantic_refuse {α : Type} {cause : Cause} (n : Node) (h : cause.family = .semantic) :
    StopsSemantic (refuse cause n : ConvertM α) context s :=
  ⟨_, rfl, h⟩

theorem stopsSemantic_checkElement {n : Node} {fallback : Option Node} {isRest : Bool}
    (h : hasExtras fallback isRest = true) :
    StopsSemantic (checkElement n fallback isRest) context s := by
  cases isRest with
  | true => exact ⟨_, rfl, rfl⟩
  | false =>
    have hf : fallback.isSome = true := h
    rw [checkElement, hf]
    exact ⟨_, rfl, rfl⟩

theorem stopsSemantic_patternKey {key : Node} (h : propertyKey? key = .ok none) :
    StopsSemantic (patternKey key) context s := by
  rw [patternKey, h]
  exact ⟨_, rfl, rfl⟩

mutual
/-- A pattern that is expanded is plain; the expansion of any other one stops. -/
theorem expandBinding_cases (source : AiScript.Node) (pattern : Node)
    (h : isPattern pattern = true) :
    (isPlain pattern = true ∧ ∃ out, expandBinding isMutable source pattern context s = .ok out s) ∨
      StopsSemantic (expandBinding isMutable source pattern) context s := by
  cases pattern with
  | ident i =>
    by_cases hi : i.name ∈ reservedWords
    · have hc : reservedWords.contains i.name = true := by simpa using hi
      refine .inr (StopsSemantic.bind ?_ _)
      rw [checkName, hc]
      exact stopsSemantic_refuse _ rfl
    · exact .inl ⟨rfl, _, bind_of_ok (checkName_of_not_mem hi) _⟩
  | arrayPattern m elements => exact expandElements_cases source 0 elements h
  | objectPattern m elements => exact expandProperties_cases source elements h
  | _ => cases h
termination_by structural pattern

theorem expandElements_cases (source : AiScript.Node) (i : Nat) (elements : List Node)
    (h : patternElements elements = true) :
    (plainElements elements = true ∧
        ∃ out, expandElements isMutable source i elements context s = .ok out s) ∨
      StopsSemantic (expandElements isMutable source i elements) context s := by
  cases elements with
  | nil => exact .inl ⟨rfl, _, rfl⟩
  | cons e rest =>
    cases e with
    | omitted m => exact expandElements_cases source (i + 1) rest h
    | bindingElement m key target fallback isRest =>
      replace h : ((hasExtras fallback isRest || isPattern target) && patternElements rest) = true := h
      rw [Bool.and_eq_true, Bool.or_eq_true] at h
      by_cases hextras : hasExtras fallback isRest = true
      · exact .inr ((stopsSemantic_checkElement hextras).bind _)
      have htarget : isPattern target = true := h.1.resolve_left hextras
      rw [Bool.not_eq_true] at hextras
      have hcheck : checkElement (.bindingElement m key target fallback isRest) fallback isRest
        context s = .ok () s := checkElement_plain hextras
      obtain ⟨hplain, first, hfirst⟩ | hstop :=
        expandBinding_cases (element source i) target htarget
      · obtain ⟨hrest, more, hmore⟩ | hstop := expandElements_cases source (i + 1) rest h.2
        · refine .inl ⟨plainElements_cons.mpr ⟨hextras, hplain, hrest⟩, first ++ more, ?_⟩
          rw [expandElements, bind_of_ok hcheck, bind_of_ok hfirst, bind_of_ok hmore]
          rfl
        · exact .inr (.after hcheck (.after hfirst (hstop.bind _)))
      · exact .inr (.after hcheck (hstop.bind _))
    | _ => cases h
termination_by structural elements

theorem expandProperties_cases (source : AiScript.Node) (elements : List Node)
    (h : patternProperties elements = true) :
    (plainProperties elements = true ∧
        ∃ out, expandProperties isMutable source elements context s = .ok out s) ∨
      StopsSemantic (expandProperties isMutable source elements) context s := by
  cases elements with
  | nil => exact .inl ⟨rfl, _, rfl⟩
  | cons e rest =>
    cases e with
    | bindingElement m key target fallback isRest =>
      simp only [patternProperties, Bool.and_eq_true, Bool.or_eq_true] at h
      by_cases hextras : hasExtras fallback isRest = true
      · exact .inr ((stopsSemantic_checkElement hextras).bind _)
      have hkey := h.1.resolve_left hextras
      rw [Bool.not_eq_true] at hextras
      have hcheck : checkElement (.bindingElement m key target fallback isRest) fallback isRest
        context s = .ok () s := checkElement_plain hextras
      split at hkey
      · rename_i name hname
        have hread : patternKey _ context s = .ok name s := patternKey_of_some hname
        obtain ⟨hplain, first, hfirst⟩ | hstop :=
          expandBinding_cases (member source name) target hkey
        · obtain ⟨hrest, more, hmore⟩ | hstop := expandProperties_cases source rest h.2
          · refine .inl ⟨plainProperties_cons.mpr ⟨name, hname, hextras, hplain, hrest⟩, first ++ more, ?_⟩
            rw [expandProperties, bind_of_ok hcheck, bind_of_ok hread, bind_of_ok hfirst,
              bind_of_ok hmore]
            rfl
          · exact .inr (.after hcheck (.after hread (.after hfirst (hstop.bind _))))
        · exact .inr (.after hcheck (.after hread (hstop.bind _)))
      · rename_i hname
        exact .inr (.after hcheck ((stopsSemantic_patternKey hname).bind _))
      · cases hkey
    | _ => cases h
termination_by structural elements
end

end

/-! ## What the binder records -/

/-- The step of a path as the binder records it. -/
def PatternStep.recorded : PatternStep → Binding.Step
  | .element i => .element i
  | .member key => .property key

section
open Binding

variable {scope : ScopeId} {kind : SymbolKind} {decl : Node} {iterated : Option Node}
variable {outer : List Step}

/-- The steps that are recorded for a name of a pattern whose value is itself at the end of steps. -/
def PatternName.steps (outer : List Step) (n : PatternName) : List Step :=
  outer ++ n.path.map PatternStep.recorded

/-- Declares a name and records the steps that lead to its value. -/
def recordName (scope : ScopeId) (kind : SymbolKind) (decl : Node) (iterated : Option Node)
    (outer : List Step) (n : PatternName) : BindM Unit := do
  let id ← declare .value scope n.name kind decl
  modify (·.modifySymbol id ({ · with path := n.steps outer, iterated }))

theorem steps_concat (outer : List Step) (path : List PatternStep) (step : PatternStep) :
    outer ++ path.map PatternStep.recorded ++ [step.recorded] =
      outer ++ (path ++ [step]).map PatternStep.recorded := by
  rw [List.map_append, List.append_assoc]
  rfl

/-- Of a plain pattern the binder records the path of each name, in order, and nothing else. -/
theorem declareBinding_eq (path : List PatternStep) (pattern : Node) (h : isPlain pattern = true) :
    declareBinding scope kind decl iterated (outer ++ path.map PatternStep.recorded) pattern =
      forM (boundNames path pattern) (recordName scope kind decl iterated outer) := by
  have hcases : PlainCases
      (fun path pattern =>
        declareBinding scope kind decl iterated (outer ++ path.map PatternStep.recorded) pattern =
          forM (boundNames path pattern) (recordName scope kind decl iterated outer))
      (fun path i elements =>
        declareElements scope kind decl iterated (outer ++ path.map PatternStep.recorded) i elements =
          forM (elementNames path i elements) (recordName scope kind decl iterated outer))
      (fun path elements =>
        declareProperties scope kind decl iterated (outer ++ path.map PatternStep.recorded) elements =
          forM (propertyNames path elements) (recordName scope kind decl iterated outer)) :=
    { ident := fun path i => by
        exact bind_pure_unit.symm
      array := fun _ _ _ helements => helements
      object := fun _ _ _ helements => helements
      noElement := fun _ _ => rfl
      hole := fun _ _ _ _ hrest => hrest
      element := fun path i m key target rest htarget hrest => by
        rw [elementNames_cons, List.forM_append, ← htarget, ← hrest, ← steps_concat]
        rfl
      noProperty := fun _ => rfl
      property := fun path m key target name rest hkey htarget hrest => by
        have hname : elementKey key target = pure name := by
          rw [elementKey, hkey]
          rfl
        rw [propertyNames_cons hkey, List.forM_append, ← htarget, ← hrest, ← steps_concat,
          declareProperties, hname]
        rfl }
  exact hcases.pattern path pattern h

/-- A scope is there, and its values are symbols of the names they are listed under. -/
structure Tabled (scope : ScopeId) (b : Bindings) : Prop where
  isThere : scope < b.scopes.size
  named : ∀ name id, (b.scope scope).values.lookup name = some id →
    id < b.symbols.size ∧ (b.symbol id).name = name

/-- The symbol of a name of a pattern has the steps that lead to the value of the name. -/
def Recorded (scope : ScopeId) (outer : List Step) (b : Bindings) (n : PatternName) : Prop :=
  ∃ id, (b.scope scope).values.lookup n.name.name = some id ∧ (b.symbol id).path = n.steps outer

theorem symbol_modifySymbol {b : Bindings} {id : SymbolId} (h : id < b.symbols.size)
    (f : Symbol → Symbol) (other : SymbolId) :
    (b.modifySymbol id f).symbol other = if other = id then f (b.symbol other) else b.symbol other := by
  rw [Bindings.symbol, Bindings.modifySymbol, Array.getElem?_modify, Bindings.symbol]
  by_cases ho : id = other
  · subst ho
    rw [if_pos rfl, if_pos rfl, Array.getElem?_eq_getElem h]
    rfl
  · rw [if_neg ho, if_neg (Ne.symm ho)]

/-- A change of a symbol that leaves its name keeps a table. -/
theorem Tabled.modifySymbol {b : Bindings} (h : Tabled scope b) {id : SymbolId}
    (hid : id < b.symbols.size) {f : Symbol → Symbol} (hf : ∀ s, (f s).name = s.name) :
    Tabled scope (b.modifySymbol id f) := by
  refine ⟨h.isThere, fun name other hlookup => ?_⟩
  obtain ⟨hsize, hname⟩ := h.named name other hlookup
  refine ⟨by rwa [Bindings.modifySymbol, Array.size_modify], ?_⟩
  rw [symbol_modifySymbol hid]
  split
  · rw [hf, hname]
  · exact hname

theorem path_addDeclaration (s : Symbol) : (s.addDeclaration decl).path = s.path := by
  unfold Symbol.addDeclaration
  split <;> rfl

theorem name_addDeclaration (s : Symbol) : (s.addDeclaration decl).name = s.name := by
  unfold Symbol.addDeclaration
  split <;> rfl

theorem get_bind_apply {α : Type} (f : Bindings → BindM α) (b : Bindings) :
    (get >>= f) b = f b b := rfl

theorem declare_of_some {i : Ident} {id found : SymbolId} {b b' : Bindings}
    (hf : (b.scope scope).values.lookup i.name = some found)
    (h : declare .value scope i kind decl b = .ok id b') :
    id = found ∧
      ∃ references, b' = { b.modifySymbol found (·.addDeclaration decl) with references } := by
  rw [declare, get_bind_apply] at h
  simp only [Scope.names, hf] at h
  split at h
  · cases h
    exact ⟨rfl, _, rfl⟩
  · cases h

theorem declare_of_none {i : Ident} {b : Bindings}
    (h : (b.scope scope).values.lookup i.name = none) :
    declare .value scope i kind decl b = .ok b.symbols.size
      { b with
        symbols := b.symbols.push
          { name := i.name, kind, declaration := decl, declarations := [decl], node := some i, scope }
        scopes := b.scopes.modify scope (·.setName .value i.name b.symbols.size)
        references := b.references.insert i.mark.id b.symbols.size } := by
  rw [declare, get_bind_apply]
  simp only [Scope.names, h]
  rfl

/-- What declaring a name does to a table: the name is in it, and what it has for other names and
their paths stays. -/
theorem tabled_declare {i : Ident} {id : SymbolId} {b b' : Bindings} (ht : Tabled scope b)
    (h : declare .value scope i kind decl b = .ok id b') :
    Tabled scope b' ∧ (b'.scope scope).values.lookup i.name = some id ∧
      ∀ name other, name ≠ i.name → (b.scope scope).values.lookup name = some other →
        (b'.scope scope).values.lookup name = some other ∧
          (b'.symbol other).path = (b.symbol other).path := by
  cases hl : (b.scope scope).values.lookup i.name with
  | some found =>
    obtain ⟨rfl, references, rfl⟩ := declare_of_some hl h
    obtain ⟨hsize, -⟩ := ht.named _ _ hl
    have hkept : Tabled scope (b.modifySymbol id fun s => s.addDeclaration decl) :=
      ht.modifySymbol hsize name_addDeclaration
    refine ⟨⟨hkept.isThere, hkept.named⟩, hl, fun name other _ hlookup => ⟨hlookup, ?_⟩⟩
    refine (congrArg Symbol.path (symbol_modifySymbol hsize _ other)).trans ?_
    split
    · exact path_addDeclaration _
    · rfl
  | none =>
    rw [declare_of_none hl] at h
    cases h
    have hvalues : ((b.scopes.modify scope
        (·.setName .value i.name b.symbols.size))[scope]?.getD default).values =
        Assoc.set i.name b.symbols.size (b.scope scope).values := by
      rw [Array.getElem?_modify, if_pos rfl, Bindings.scope, Array.getElem?_eq_getElem ht.isThere]
      rfl
    have hold : ∀ (symbol : Symbol) other, other < b.symbols.size →
        ((b.symbols.push symbol)[other]?).getD default = b.symbol other := by
      intro symbol other hother
      rw [Array.getElem?_push, if_neg (Nat.ne_of_lt hother)]
      rfl
    refine ⟨⟨?_, fun name other hlookup => ?_⟩, ?_, fun name other hname hlookup => ?_⟩
    · rw [Array.size_modify]
      exact ht.isThere
    · rw [Array.size_push]
      rw [Bindings.scope, hvalues, Assoc.lookup_set] at hlookup
      split at hlookup
      · cases hlookup
        refine ⟨Nat.lt_succ_self _, ?_⟩
        rw [Bindings.symbol, Array.getElem?_push_size]
        exact (‹name = i.name›).symm
      · obtain ⟨hsize, hnamed⟩ := ht.named _ _ hlookup
        exact ⟨Nat.lt_succ_of_lt hsize, by rw [Bindings.symbol, hold _ _ hsize, hnamed]⟩
    · rw [Bindings.scope, hvalues, Assoc.lookup_set, if_pos rfl]
    · refine ⟨by rw [Bindings.scope, hvalues, Assoc.lookup_set, if_neg hname, hlookup], ?_⟩
      rw [Bindings.symbol, hold _ _ (ht.named _ _ hlookup).1]

/-- Recording a name of a pattern leaves what was recorded for other names. -/
theorem tabled_recordName {n : PatternName} {b b' : Bindings} (ht : Tabled scope b)
    (h : recordName scope kind decl iterated outer n b = .ok () b') :
    Tabled scope b' ∧ Recorded scope outer b' n ∧
      ∀ m : PatternName, m.name.name ≠ n.name.name → Recorded scope outer b m →
        Recorded scope outer b' m := by
  obtain ⟨id, b₁, hdeclare, h⟩ := estate_bind_ok h
  cases h
  obtain ⟨ht₁, hid, hothers⟩ := tabled_declare ht hdeclare
  obtain ⟨hsize, hname⟩ := ht₁.named _ _ hid
  refine ⟨ht₁.modifySymbol hsize fun _ => rfl, ⟨id, hid, ?_⟩, fun m hm ⟨other, hother, hpath⟩ => ?_⟩
  · rw [symbol_modifySymbol hsize, if_pos rfl]
  · obtain ⟨hlookup, hsame⟩ := hothers _ _ hm hother
    refine ⟨other, hlookup, ?_⟩
    have hne : other ≠ id := by
      rintro rfl
      exact hm ((ht₁.named _ _ hlookup).2.symm.trans hname)
    rw [symbol_modifySymbol hsize, if_neg hne, hsame, hpath]

/-- After all names of a pattern are recorded, the symbol of a name has the path of the last place in
the pattern that binds the name. -/
theorem recorded_of_forM {names : List PatternName} {b b' : Bindings} (ht : Tabled scope b)
    (h : forM names (recordName scope kind decl iterated outer) b = .ok () b') :
    (∀ before n after, names = before ++ n :: after →
      (∀ m ∈ after, m.name.name ≠ n.name.name) → Recorded scope outer b' n) ∧
    ∀ m : PatternName, (∀ n ∈ names, n.name.name ≠ m.name.name) → Recorded scope outer b m →
      Recorded scope outer b' m := by
  induction names generalizing b with
  | nil =>
    cases h
    exact ⟨fun before n after hsplit => by simp at hsplit, fun _ _ hm => hm⟩
  | cons first rest ih =>
    rw [List.forM_cons] at h
    obtain ⟨_, b₁, hfirst, h⟩ := estate_bind_ok h
    obtain ⟨ht₁, hrecorded, hothers⟩ := tabled_recordName ht hfirst
    obtain ⟨hinside, hkept⟩ := ih ht₁ h
    constructor
    · intro before n after hsplit hlast
      cases before with
      | nil =>
        cases hsplit
        exact hkept first hlast hrecorded
      | cons _ before =>
        cases hsplit
        exact hinside before n after rfl hlast
    · intro m hm hbefore
      obtain ⟨hne, hrest⟩ := List.forall_mem_cons.mp hm
      exact hkept m hrest (hothers m hne.symm hbefore)

end

/-! ## Both together -/

/-- A plain pattern without reserved names is expanded, whatever it is read from, into one definition
for each identifier that it binds, in order, of the part of the source at the end of a path; for that
identifier the binder records the steps of the same path, and they stay the path of its symbol unless
the pattern binds the name again further on. Any other pattern, in which some element has a rest, a
default or a computed key, is refused. -/
theorem expandBinding_agrees (pattern : Node) :
    (isPlain pattern = true →
      (∀ i ∈ Binding.bindingIdentifiers pattern, i.name ∉ reservedWords) →
      (boundNames [] pattern).map PatternName.name = Binding.bindingIdentifiers pattern ∧
      (∀ isMutable source context s, expandBinding isMutable source pattern context s =
        .ok ((boundNames [] pattern).map (·.definition isMutable source)) s) ∧
      ∀ scope kind decl iterated outer,
        Binding.declareBinding scope kind decl iterated outer pattern =
          forM (boundNames [] pattern) (recordName scope kind decl iterated outer) ∧
        ∀ b b', Tabled scope b →
          Binding.declareBinding scope kind decl iterated outer pattern b = .ok () b' →
          ∀ before n after, boundNames [] pattern = before ++ n :: after →
            (∀ m ∈ after, m.name.name ≠ n.name.name) → Recorded scope outer b' n) ∧
    (isPattern pattern = true → isPlain pattern = false →
      ∀ isMutable source context s, ∃ refusal,
        expandBinding isMutable source pattern context s = .error (.refused refusal) s ∧
          refusal.cause.family = .semantic) := by
  refine ⟨fun hplain hnames => ?_, fun hpattern hplain isMutable source context s => ?_⟩
  · have hbound := name_boundNames [] pattern hplain
    have hfree : ∀ n ∈ boundNames [] pattern, n.name.name ∉ reservedWords := by
      intro n hn
      exact hnames n.name (hbound ▸ List.mem_map_of_mem hn)
    refine ⟨hbound, fun isMutable source context s => expandBinding_plain [] pattern hplain hfree, ?_⟩
    intro scope kind decl iterated outer
    have heq : Binding.declareBinding scope kind decl iterated (outer ++ [].map PatternStep.recorded)
        pattern = _ := declareBinding_eq [] pattern hplain
    rw [List.map_nil, List.append_nil] at heq
    refine ⟨heq, fun b b' ht h => ?_⟩
    rw [heq] at h
    exact (recorded_of_forM ht h).1
  · have hcases : _ ∨ StopsSemantic (expandBinding isMutable source pattern) context s :=
      expandBinding_cases source pattern hpattern
    obtain ⟨hpos, -⟩ | hstop := hcases
    · exact absurd hpos (by rw [hplain]; exact nofun)
    · exact hstop

/-- The pattern `[a, , { b: [c], "d e": f, 0x10: g }]`. -/
def nestedPattern : Node :=
  let name (text : String) : Node := .ident ⟨default, text⟩
  let bind (key : Option Node) (target : Node) : Node := .bindingElement default key target none false
  .arrayPattern default [bind none (name "a"), .omitted default, bind none (.objectPattern default
    [bind (some (name "b")) (.arrayPattern default [bind none (name "c")]),
      bind (some (.string default "d e")) (name "f"), bind (some (.number default "0x10")) (name "g")])]

/-- The pattern `[a, { b: [...c] }]`. -/
def restPattern : Node :=
  let name (text : String) : Node := .ident ⟨default, text⟩
  .arrayPattern default [.bindingElement default none (name "a") none false,
    .bindingElement default none (.objectPattern default [.bindingElement default (some (name "b"))
      (.arrayPattern default [.bindingElement default none (name "c") none true]) none false]) none false]

/-- Bindings with one scope that is empty. -/
def emptyScope : Binding.Bindings where
  scopes := #[{ kind := .file, parent := none, fileName := "main.ts" }]

theorem tabled_emptyScope : Tabled 0 emptyScope :=
  ⟨Nat.zero_lt_one, fun _ _ h => nomatch h⟩

/-- The names of the nested pattern with their paths. -/
def nestedNames : List PatternName :=
  let name (text : String) : Ident := ⟨default, text⟩
  [⟨[.element 0], name "a"⟩, ⟨[.element 2, .member "b", .element 0], name "c"⟩,
    ⟨[.element 2, .member "d e"], name "f"⟩, ⟨[.element 2, .member "16"], name "g"⟩]

theorem boundNames_nestedPattern : boundNames [] nestedPattern = nestedNames := by
  have hname (text : String) (target : Node) :
      propertyKey? ((some (.ident ⟨default, text⟩)).getD target) = .ok (some text) := rfl
  have htext (text : String) (target : Node) :
      propertyKey? ((some (.string default text)).getD target) = .ok (some text) := rfl
  have hnumber (target : Node) :
      propertyKey? ((some (.number default "0x10")).getD target) = .ok (some "16") := by
    rw [Option.getD_some]
    decide +kernel
  show (_ : PatternName) :: (propertyNames [.element 2] _ ++ []) = _
  rw [List.append_nil, propertyNames_cons (hname "b" _), propertyNames_cons (htext "d e" _),
    propertyNames_cons (hnumber _)]
  rfl

/-- The names of a nested pattern are read, and recorded, at their paths; a rest inside of another
pattern is refused. -/
theorem expandBinding_agrees_nested :
    (isPlain nestedPattern = true ∧
      (∀ i ∈ Binding.bindingIdentifiers nestedPattern, i.name ∉ reservedWords) ∧
      expandBinding false (.ident {} "x") nestedPattern aloneContext default =
        .ok (nestedNames.map (·.definition false (.ident {} "x"))) default ∧
      ∃ b', Binding.declareBinding 0 .constant default none [] nestedPattern emptyScope = .ok () b' ∧
        ∀ n ∈ nestedNames, Recorded 0 [] b' n) ∧
    isPattern restPattern = true ∧ isPlain restPattern = false ∧
      ∃ refusal, expandBinding false (.ident {} "x") restPattern aloneContext default =
        .error (.refused refusal) default ∧ refusal.cause.family = .semantic := by
  have hplain : isPlain nestedPattern = true := by decide +kernel
  have hnames : ∀ i ∈ Binding.bindingIdentifiers nestedPattern, i.name ∉ reservedWords := by
    decide +kernel
  have hpattern : isPattern restPattern = true := by decide +kernel
  have hrest : isPlain restPattern = false := by decide +kernel
  obtain ⟨-, hexpand, hdeclare⟩ := (expandBinding_agrees nestedPattern).1 hplain hnames
  refine ⟨⟨hplain, hnames, ?_, ?_⟩, hpattern, hrest,
    (expandBinding_agrees restPattern).2 hpattern hrest false _ aloneContext default⟩
  · rw [hexpand, boundNames_nestedPattern]
  · obtain ⟨heq, hrecorded⟩ := hdeclare 0 .constant default none []
    rw [boundNames_nestedPattern] at heq hrecorded
    have hends : endsWith (forM nestedNames (recordName 0 .constant default none []) emptyScope)
        (fun _ _ => true) = true := by decide +kernel
    obtain ⟨_, b', hb, -⟩ := endsWith_iff.mp hends
    rw [← heq] at hb
    have hlast := hrecorded emptyScope b' tabled_emptyScope hb
    refine ⟨b', hb, ?_⟩
    simp only [nestedNames, List.forall_mem_cons]
    refine ⟨hlast [] _ _ rfl (by decide), hlast [_] _ _ rfl (by decide),
      hlast [_, _] _ _ rfl (by decide), hlast [_, _, _] _ _ rfl (by decide), List.forall_mem_nil _⟩

end ScriptBridge.Conversion
