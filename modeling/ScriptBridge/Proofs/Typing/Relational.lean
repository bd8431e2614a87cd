import ScriptBridge.Proofs.TypeScript.Children
import ScriptBridge.Typing.Oracle

/-!
# Relations between actions that the rules of the oracle keep

Every rule of the oracle is put together from a few actions on its memory and from further questions. So
a relation between actions that is kept when actions are put together, and that relates those few to
themselves, relates what a rule does with one way of answering its questions to what it does with another
way, if the answers are related. This is shown here once for all such relations. Only guards against
endless questions, `whileResolving` and `loadMembers`, are left out: what becomes of a relation there is
what the relation is about.

* `Relational`: what a relation has to be like.
* `Relational.AnswersTypes`, `Relational.Answers`: questions about a set of nodes have related answers.
* `Relational.writtenType`, `.inferExpression`, `.inferSymbol`, `.findMembers`: the rules. Each asks
  only about the nodes inside the one it is about.
-/

namespace ScriptBridge.Typing

open ScriptBridge.Binding ScriptBridge.TypeScript

variable {α β : Type}

/-! ## Texts and joins take no patience -/

/-- A result that is no want of patience. -/
abbrev Patient (x : Except TypeFault α) : Prop :=
  x ≠ .error .outOfFuel

theorem Patient.ok (a : α) : Patient (.ok a) :=
  fun h => by cases h

theorem Patient.bind {x : Except TypeFault α} {f : α → Except TypeFault β} (hx : Patient x)
    (hf : ∀ a, Patient (f a)) : Patient (x >>= f) := by
  cases x with
  | ok a => exact hf a
  | error fault => exact fun h => hx (by cases h; rfl)

theorem patient_numberText (x : Double) : Patient (numberText x) := by
  unfold numberText
  split
  · simp
  · split
    · simp
    · exact .ok _

mutual
/-- The text of a type is found by going through it once. -/
theorem patient_text (names : RecordNames) : (t : Ty) → Patient (t.text names)
  | .primitive _ | .textLiteral _ | .truthLiteral _ | .declared _ _ => by
    simp only [Ty.text]
    exact .ok _
  | .numberLiteral x => by
    simp only [Ty.text]
    exact patient_numberText x
  | .array element => by
    simp only [Ty.text]
    exact (patient_text names element).bind fun _ => .ok _
  | .tuple elements => by
    simp only [Ty.text]
    exact (patient_texts names elements).bind fun _ => .ok _
  | .record id properties index => by
    unfold Ty.text
    split
    · exact .ok _
    · exact (patient_indexText names index).bind fun _ =>
        (patient_memberTexts names ";" properties).bind fun _ => .ok _
  | .function params result => by
    simp only [Ty.text]
    exact (patient_memberTexts names "" params).bind fun _ =>
      (patient_text names result).bind fun _ => .ok _
  | .union members => by
    simp only [Ty.text]
    exact (patient_texts names members).bind fun _ => .ok _

theorem patient_texts (names : RecordNames) : (ts : List Ty) → Patient (Ty.texts names ts)
  | [] => by
    simp only [Ty.texts]
    exact .ok _
  | t :: ts => by
    simp only [Ty.texts]
    exact (patient_text names t).bind fun _ => (patient_texts names ts).bind fun _ => .ok _

theorem patient_memberTexts (names : RecordNames) (mark : String) :
    (ps : List (String × Ty)) → Patient (Ty.memberTexts names mark ps)
  | [] => by
    simp only [Ty.memberTexts]
    exact .ok _
  | (name, t) :: rest => by
    simp only [Ty.memberTexts]
    exact (patient_text names t).bind fun _ =>
      (patient_memberTexts names mark rest).bind fun _ => .ok _

theorem patient_indexText (names : RecordNames) : (t : Option Ty) → Patient (Ty.indexText names t)
  | none => by
    simp only [Ty.indexText]
    exact .ok _
  | some t => by
    simp only [Ty.indexText]
    exact (patient_text names t).bind fun _ => .ok _
end

theorem patient_distinct (names : RecordNames) (seen : List String) (kept ts : List Ty) :
    Patient (distinct names seen kept ts) := by
  induction ts generalizing seen kept with
  | nil => exact .ok _
  | cons t ts ih =>
    unfold distinct
    split
    · exact .ok _
    split
    · exact ih _ _
    refine (patient_text names t).bind fun key => ?_
    split
    · exact ih _ _
    · exact ih _ _

theorem patient_unionOf (names : RecordNames) (ts : List Ty) : Patient (unionOf names ts) := by
  refine (patient_distinct names _ _ _).bind fun found => ?_
  split
  · exact .ok _
  · split
    · exact .ok _
    · exact .ok _

theorem patient_widen (names : RecordNames) (t : Ty) : Patient (t.widen names) := by
  unfold Ty.widen
  split
  · exact patient_unionOf names _
  · exact .ok _

theorem patient_removeNullish (names : RecordNames) (t : Ty) : Patient (t.removeNullish names) := by
  unfold Ty.removeNullish
  split
  · exact patient_unionOf names _
  · exact .ok _

/-! ## Relations between actions -/

/-- A relation between actions that is kept when actions are put together in a program, and that relates
to themselves the actions which make types. -/
structure Relational (program : Program) (R : (α : Type) → TypeM α → TypeM α → Prop) : Prop where
  pure : ∀ {α : Type} (a : α), R α (pure a) (pure a)
  throw : ∀ {α : Type} {fault : TypeFault}, fault ≠ .outOfFuel → R α (throw fault) (throw fault)
  bind : ∀ {α β : Type} {x y : TypeM α} {f g : α → TypeM β}, R α x y → (∀ a, R β (f a) (g a)) →
    R β (x >>= f) (y >>= g)
  get : R Memory get get
  read : ∀ {α : Type} {f g : Program → TypeM α}, R α (f program) (g program) →
    R α (read >>= f) (read >>= g)
  newRecord : ∀ properties index, R Ty (newRecord properties index) (newRecord properties index)
  nameRecord : ∀ name t, R Unit (nameRecord name t) (nameRecord name t)
  /-- A namespace or a module; an interface is made by `interfaceType` only. -/
  newDeclared : ∀ name source, (∀ id env, source ≠ .interfaces id env) →
    R Ty (newDeclared name source) (newDeclared name source)
  interfaceType : ∀ id args, R Ty (interfaceType id args) (interfaceType id args)

/-- The nodes whose values the type of a node depends on at once: what `typeof` asks about, and the
default of a parameter without a type. -/
def valuesOf : Node → List Node
  | .typeQuery _ e => [e]
  | .parameter _ _ none (some value) _ _ => [value]
  | _ => []

theorem mem_children_of_mem_valuesOf {n e : Node} (h : e ∈ valuesOf n) : e ∈ n.children := by
  unfold valuesOf at h
  split at h
  · exact h
  · rw [List.mem_singleton.mp h]
    simp [Node.children]
  · cases h

/-! ## What a body returns -/

theorem mem_allReturnedValues {ns : List Node} {value : Option Node} :
    value ∈ allReturnedValues ns ↔ ∃ n ∈ ns, value ∈ returnedValues n := by
  induction ns with
  | nil => simp [allReturnedValues]
  | cons n ns ih => simp [allReturnedValues, ih]

theorem mem_optionalReturnedValues {n : Option Node} {value : Option Node} :
    value ∈ optionalReturnedValues n ↔ ∃ k, n = some k ∧ value ∈ returnedValues k := by
  cases n <;> simp [optionalReturnedValues]

/-- A returned value is inside the body. -/
theorem inside_returnedValues {S : Node → Prop} (inside : ∀ {n}, S n → ∀ k ∈ n.children, S k)
    {body : Node} (h : S body) {e : Node} (he : some e ∈ returnedValues body) : S e := by
  induction body using Node.induct with
  | h n ih =>
    have child {k : Node} (hk : k ∈ n.children) (hk' : some e ∈ returnedValues k) : S e :=
      ih k hk (inside h k hk) hk'
    cases n <;>
      simp only [returnedValues, List.mem_append, mem_allReturnedValues, mem_optionalReturnedValues,
        List.not_mem_nil, List.mem_singleton] at he
    case returnStatement m value => exact inside h e (by simp [Node.children, ← he])
    case block m statements =>
      obtain ⟨k, hk, he⟩ := he
      exact child (by simpa [Node.children] using hk) he
    case defaultClause m statements =>
      obtain ⟨k, hk, he⟩ := he
      exact child (by simpa [Node.children] using hk) he
    case switchStatement m subject clauses =>
      obtain ⟨k, hk, he⟩ := he
      exact child (by simp [Node.children, hk]) he
    case caseClause m test statements =>
      obtain ⟨k, hk, he⟩ := he
      exact child (by simp [Node.children, hk]) he
    case ifStatement m test body otherwise =>
      obtain he | ⟨k, rfl, he⟩ := he
      · exact child (by simp [Node.children]) he
      · exact child (by simp [Node.children]) he
    case tryStatement m body handler final =>
      obtain (he | ⟨k, rfl, he⟩) | ⟨k, rfl, he⟩ := he
      · exact child (by simp [Node.children]) he
      · exact child (by simp [Node.children]) he
      · exact child (by simp [Node.children]) he
    all_goals exact child (by simp [Node.children]) he

namespace Relational

/-- Questions about type expressions from a set, with one meaning for type parameters, have related
answers. -/
structure AnswersTypes (R : (α : Type) → TypeM α → TypeM α → Prop) (ask ask' : Asker) (env : Env)
    (S : Node → Prop) : Prop where
  inside : ∀ {n}, S n → ∀ k ∈ n.children, S k
  written : ∀ {t}, S t → R Ty (ask (.written env t)) (ask' (.written env t))
  value : ∀ {n}, S n → ∀ e ∈ valuesOf n, R Ty (ask (.expression e)) (ask' (.expression e))
  named : ∀ id args, R Ty (namedType ask id args) (namedType ask' id args)

/-- Questions about expressions and type expressions from a set, about symbols and about members have
related answers. -/
structure Answers (R : (α : Type) → TypeM α → TypeM α → Prop) (ask ask' : Asker) (S : Node → Prop) :
    Prop where
  inside : ∀ {n}, S n → ∀ k ∈ n.children, S k
  written : ∀ env {t}, S t → R Ty (ask (.written env t)) (ask' (.written env t))
  expression : ∀ {e}, S e → R Ty (ask (.expression e)) (ask' (.expression e))
  symbol : ∀ id, R Ty (ask (.symbol id)) (ask' (.symbol id))
  members : ∀ id name, R Ty (ask (.members id name)) (ask' (.members id name))
  named : ∀ id args, R Ty (namedType ask id args) (namedType ask' id args)

theorem Answers.types {R : (α : Type) → TypeM α → TypeM α → Prop} {ask ask' : Asker}
    {S : Node → Prop} (h : Answers R ask ask' S) (env : Env) : AnswersTypes R ask ask' env S where
  inside := h.inside
  written := h.written env
  value hn e he := h.expression (h.inside hn e (mem_children_of_mem_valuesOf he))
  named := h.named

variable {program : Program} {R : (α : Type) → TypeM α → TypeM α → Prop} (hR : Relational program R)
include hR

/-! ## Actions that ask nothing -/

theorem orFault {x : Except TypeFault α} (hx : Patient x) : R α (orFault x) (orFault x) := by
  cases x with
  | ok a => exact hR.pure a
  | error fault => exact hR.throw fun h => hx (by rw [h])

theorem orNumeralFault (x : Except NumeralFault α) : R α (orNumeralFault x) (orNumeralFault x) := by
  cases x with
  | ok a => exact hR.pure a
  | error fault => exact hR.throw fun h => by cases h

theorem mapM {f g : α → TypeM β} {as : List α} (hf : ∀ a ∈ as, R β (f a) (g a)) :
    R (List β) (as.mapM f) (as.mapM g) := by
  induction as with
  | nil => exact hR.pure []
  | cons a as ih =>
    obtain ⟨ha, has⟩ := List.forall_mem_cons.mp hf
    rw [List.mapM_cons, List.mapM_cons]
    exact hR.bind ha fun _ => hR.bind (ih has) fun _ => hR.pure _

theorem join (types : List Ty) : R Ty (join types) (join types) :=
  hR.bind hR.get fun _ => hR.orFault (patient_unionOf _ _)

theorem widened (t : Ty) : R Ty (widened t) (widened t) :=
  hR.bind hR.get fun _ => hR.orFault (patient_widen _ _)

theorem withoutNullish (t : Ty) : R Ty (withoutNullish t) (withoutNullish t) :=
  hR.bind hR.get fun _ => hR.orFault (patient_removeNullish _ _)

theorem isResolving (id : SymbolId) : R Bool (isResolving id) (isResolving id) :=
  hR.bind hR.get fun _ => hR.pure _

theorem builtIn? (name : String) (args : List Ty) :
    R (Option Ty) (builtIn? name args) (builtIn? name args) := by
  refine hR.read ?_
  dsimp only
  split
  · split
    · exact hR.bind (hR.interfaceType _ _) fun _ => hR.pure _
    · exact hR.pure _
  · exact hR.pure _

theorem propertyHolder? (t : Ty) : R (Option Ty) (propertyHolder? t) (propertyHolder? t) := by
  unfold Typing.propertyHolder?
  split
  · exact hR.builtIn? _ _
  · exact hR.bind (hR.join _) fun _ => hR.builtIn? _ _
  · exact hR.builtIn? _ _
  · exact hR.builtIn? _ _
  · exact hR.builtIn? _ _
  · exact hR.builtIn? _ _
  · exact hR.pure _
  · exact hR.pure _
  · exact hR.pure _

theorem elementOfMember (index : Option Nat) (t : Ty) :
    R Ty (elementOfMember index t) (elementOfMember index t) := by
  unfold Typing.elementOfMember
  split
  · exact hR.pure _
  · split
    · exact hR.pure _
    · exact hR.join _
  · exact hR.pure _
  · exact hR.pure _
  · exact hR.pure _

theorem elementOf (index : Option Nat) (t : Ty) : R Ty (elementOf index t) (elementOf index t) := by
  unfold Typing.elementOf
  split
  · exact hR.bind (hR.mapM fun t _ => hR.elementOfMember index t) fun _ => hR.join _
  · exact hR.elementOfMember index _

theorem resultOf (t : Ty) : R Ty (resultOf t) (resultOf t) := by
  unfold Typing.resultOf
  split
  · exact hR.pure _
  · split
    · exact hR.join _
    · exact hR.pure _
  · exact hR.pure _

theorem prefixType (operator : String) (operand : Node) :
    R Ty (prefixType operator operand) (prefixType operator operand) := by
  unfold Typing.prefixType
  split
  · exact hR.pure _
  split
  · split
    · exact hR.bind (hR.orNumeralFault _) fun _ => hR.pure _
    · split
      · exact hR.bind (hR.orNumeralFault _) fun _ => hR.pure _
      · exact hR.pure _
  · exact hR.pure _

theorem combinedType (operator : String) (left right : Ty) :
    R Ty (combinedType operator left right) (combinedType operator left right) := by
  unfold Typing.combinedType
  split
  · exact hR.pure _
  · exact hR.pure _
  · split
    · exact hR.pure _
    · exact hR.join _
  · split
    · exact hR.pure _
    · exact hR.join _
  · exact hR.bind (hR.withoutNullish _) fun _ => hR.join _
  · exact hR.bind (hR.withoutNullish _) fun _ => hR.join _
  · exact hR.bind (hR.withoutNullish _) fun _ => hR.join _
  · exact hR.bind (hR.withoutNullish _) fun _ => hR.join _
  · exact hR.pure _

/-! ## Parts of values -/

section
variable {ask ask' : Asker}
  (hmembers : ∀ id name, R Ty (ask (.members id name)) (ask' (.members id name)))
include hmembers

theorem membersOf? (t : Ty) :
    R (Option (List (String × Ty) × Option Ty)) (membersOf? ask t) (membersOf? ask' t) := by
  unfold Typing.membersOf?
  split
  · exact hR.pure _
  · refine hR.bind (hR.bind (hmembers _ _) fun _ => hR.pure _) fun _ => hR.bind hR.get fun memory => ?_
    split
    · exact hR.pure _
    · exact hR.pure _
  · exact hR.pure _

theorem propertyOf (name : String) (t : Ty) : R Ty (propertyOf ask name t) (propertyOf ask' name t) := by
  have member (t : Ty) : R Ty (propertyOfMember ask name t) (propertyOfMember ask' name t) := by
    refine hR.bind (hR.propertyHolder? t) fun holder => ?_
    split
    · exact hR.pure _
    · refine hR.bind (hR.membersOf? hmembers _) fun members => ?_
      split
      · exact hR.pure _
      · exact hR.pure _
  unfold Typing.propertyOf
  split
  · exact hR.bind (hR.mapM fun t _ => member t) fun _ => hR.join _
  · exact member _

theorem followPath (t : Ty) (path : List Step) :
    R Ty (followPath ask t path) (followPath ask' t path) := by
  induction path generalizing t with
  | nil => exact hR.pure _
  | cons step rest ih =>
    refine hR.bind ?_ ih
    unfold followStep
    split
    · exact hR.propertyOf hmembers _ _
    · exact hR.elementOf _ _
    · split <;> exact hR.pure _
    · split <;> exact hR.pure _

theorem intersection (count : Nat) (properties : List (String × Ty)) (index : Option Ty)
    (types : List Ty) :
    R Ty (intersection ask count properties index types)
      (intersection ask' count properties index types) := by
  induction types generalizing properties index with
  | nil => exact hR.newRecord _ _
  | cons t rest ih =>
    refine hR.bind (hR.membersOf? hmembers t) fun members => ?_
    split
    · exact ih _ _
    · exact hR.pure _

end

/-! ## Members and type expressions -/

theorem findMembers {ask ask' : Asker} (source : MemberSource)
    (hsymbol : ∀ id, R Ty (ask (.symbol id)) (ask' (.symbol id)))
    (hinterface : ∀ id env, source = .interfaces id env → R (List (String × Ty) × Option Ty)
      (Typing.interfaceMembers ask env [] none (program.bindings.symbol id).declarations)
      (Typing.interfaceMembers ask' env [] none (program.bindings.symbol id).declarations)) :
    R (List (String × Ty) × Option Ty) (findMembers ask source) (findMembers ask' source) := by
  have properties (names : Names) :
      R (List (String × Ty)) (symbolProperties ask names) (symbolProperties ask' names) := by
    induction names with
    | nil => exact hR.pure _
    | cons name rest ih => exact hR.bind (hsymbol _) fun _ => hR.bind ih fun _ => hR.pure _
  refine hR.read ?_
  dsimp only
  split
  · exact hR.bind (properties _) fun _ => hR.pure _
  · exact hR.bind (properties _) fun _ => hR.pure _
  · exact hinterface _ _ rfl

section
variable {ask ask' : Asker} {env : Env} {S : Node → Prop} (hask : AnswersTypes R ask ask' env S)
include hask

theorem declaredType {type fallback : Option Node} (htype : ∀ t, type = some t → S t)
    (hvalue : ∀ e, type = none → fallback = some e → R Ty (ask (.expression e)) (ask' (.expression e))) :
    R Ty (declaredType ask env type fallback) (declaredType ask' env type fallback) := by
  unfold Typing.declaredType
  split
  · exact hask.written (htype _ rfl)
  · exact hR.bind (hvalue _ rfl rfl) fun _ => hR.widened _
  · exact hR.pure _

/-- The questions about a parameter. -/
theorem parameterType {m : Mark} {target : Node} {type fallback : Option Node}
    {isOptional isRest : Bool} (h : S (.parameter m target type fallback isOptional isRest)) :
    R Ty (Typing.declaredType ask env type fallback) (Typing.declaredType ask' env type fallback) := by
  refine hR.declaredType hask (fun t ht => hask.inside h t (by simp [Node.children, ht])) ?_
  rintro e rfl rfl
  exact hask.value h e (by simp [valuesOf])

theorem signatureParams (place : Nat) {params : List Node} (h : ∀ p ∈ params, S p) :
    R (List (String × Ty)) (signatureParams ask env place params)
      (signatureParams ask' env place params) := by
  induction params generalizing place with
  | nil => exact hR.pure _
  | cons p rest ih =>
    obtain ⟨hp, hrest⟩ := List.forall_mem_cons.mp h
    unfold Typing.signatureParams
    split
    · exact hR.pure _
    · rename_i heq
      cases heq
      dsimp only
      split
      · exact ih _ hrest
      · exact hR.bind (hR.parameterType hask hp) fun _ =>
          hR.bind (ih _ hrest) fun _ => hR.pure _
    · rename_i heq
      cases heq
      exact ih _ hrest

theorem signature {params : List Node} {result body : Option Node}
    (hparams : ∀ p ∈ params, S p) (hresult : ∀ t, result = some t → S t)
    (hbody : ∀ b, body = some b → R Ty (inferReturn ask b) (inferReturn ask' b)) :
    R Ty (signature ask env params result body) (signature ask' env params result body) := by
  refine hR.bind (hR.signatureParams hask 0 hparams) fun params => ?_
  split
  · exact hR.bind (hask.written (hresult _ rfl)) fun _ => hR.pure _
  · exact hR.bind (hbody _ rfl) fun _ => hR.pure _
  · exact hR.bind (hR.pure _) fun _ => hR.pure _

theorem writtenMembers (properties : List (String × Ty)) (index : Option Ty)
    {members : List Node} (h : ∀ n ∈ members, S n) :
    R (List (String × Ty) × Option Ty) (writtenMembers ask env properties index members)
      (writtenMembers ask' env properties index members) := by
  induction members generalizing properties index with
  | nil => exact hR.pure _
  | cons n rest ih =>
    obtain ⟨hn, hrest⟩ := List.forall_mem_cons.mp h
    unfold Typing.writtenMembers
    split
    · exact hR.pure _
    · rename_i heq
      cases heq
      refine hR.bind (hR.declaredType hask ?_ fun _ _ h => by cases h) fun _ => ih _ _ hrest
      exact fun t ht => hask.inside hn t (by simp [Node.children, ht])
    · rename_i heq
      cases heq
      split
      · exact ih _ _ hrest
      · refine hR.bind (hR.signature hask ?_ ?_ fun _ h => by cases h) fun _ => ih _ _ hrest
        · exact fun p hp => hask.inside hn p (by simp [Node.children, hp])
        · exact fun t ht => hask.inside hn t (by simp [Node.children, ht])
    · rename_i heq
      cases heq
      refine hR.bind (hask.written (hask.inside hn _ (by simp [Node.children]))) fun key => ?_
      split
      · exact hR.bind (hask.written (hask.inside hn _ (by simp [Node.children]))) fun _ =>
          ih _ _ hrest
      · exact ih _ _ hrest
    · rename_i heq
      cases heq
      exact ih _ _ hrest

theorem referenced (nodeId : Nat) (name : String) {args : List Node}
    (h : ∀ arg ∈ args, S arg) :
    R Ty (referenced ask env nodeId name args) (referenced ask' env nodeId name args) := by
  unfold Typing.referenced
  split
  · exact hR.pure _
  · refine hR.bind (hR.mapM fun arg harg => hask.written (h arg harg)) fun args => ?_
    dsimp only
    split
    · split
      · exact hR.pure _
      · refine hR.read ?_
        split
        · exact hask.named _ _
        · exact hR.pure _
    · refine hR.read ?_
      split
      · exact hask.named _ _
      · exact hR.pure _

/-- A type expression asks about what is directly inside it; only an intersection asks for members. -/
theorem writtenType {type : Node} (h : ∀ k ∈ type.children, S k)
    (hvalue : ∀ e ∈ valuesOf type, R Ty (ask (.expression e)) (ask' (.expression e)))
    (hmembers : ∀ m types, type = .intersectionType m types →
      ∀ id name, R Ty (ask (.members id name)) (ask' (.members id name))) :
    R Ty (writtenType ask env type) (writtenType ask' env type) := by
  unfold Typing.writtenType
  split
  · exact hR.pure _
  · exact hR.pure _
  · exact hR.bind (hask.written (h _ (by simp [Node.children]))) fun _ => hR.pure _
  · exact hR.bind (hR.mapM fun t ht => hask.written (h t ht)) fun _ => hR.pure _
  · exact hR.bind (hR.mapM fun t ht => hask.written (h t ht)) fun _ => hR.join _
  · exact hR.bind (hR.mapM fun t ht => hask.written (h t ht)) fun _ =>
      hR.intersection (hmembers _ _ rfl) _ _ _ _
  · refine hR.signature hask ?_ ?_ fun _ h => by cases h
    · exact fun p hp => h p (by simp [Node.children, hp])
    · exact fun t ht => h t (by simp [Node.children, Option.some.inj ht])
  · exact hR.bind (hR.writtenMembers hask _ _ h) fun _ => hR.newRecord _ _
  · split
    · exact hR.pure _
    · exact hask.written (h _ (by simp [Node.children]))
  · exact hvalue _ (by simp [valuesOf])
  · exact hR.referenced hask _ _ h
  · exact hR.pure _

/-- The members of an interface, if its heritage and its members may be asked about. -/
theorem interfaceMembers (properties : List (String × Ty)) (index : Option Ty)
    {declarations : List Node}
    (h : ∀ m modifiers name params heritage members,
      .interfaceDeclaration m modifiers name params heritage members ∈ declarations →
        (∀ base ∈ heritage, R (Option (List (String × Ty) × Option Ty))
          (ask (.written env base) >>= Typing.membersOf? ask)
          (ask' (.written env base) >>= Typing.membersOf? ask')) ∧ ∀ n ∈ members, S n) :
    R (List (String × Ty) × Option Ty) (interfaceMembers ask env properties index declarations)
      (interfaceMembers ask' env properties index declarations) := by
  have inherited (properties : List (String × Ty)) (index : Option Ty) {bases : List Node}
      (h : ∀ base ∈ bases, R (Option (List (String × Ty) × Option Ty))
        (ask (.written env base) >>= Typing.membersOf? ask)
        (ask' (.written env base) >>= Typing.membersOf? ask')) :
      R (List (String × Ty) × Option Ty) (inheritedMembers ask env properties index bases)
        (inheritedMembers ask' env properties index bases) := by
    induction bases generalizing properties index with
    | nil => exact hR.pure _
    | cons base rest ih =>
      obtain ⟨hbase, hrest⟩ := List.forall_mem_cons.mp h
      unfold inheritedMembers
      rw [← bind_assoc, ← bind_assoc]
      refine hR.bind hbase fun members => ?_
      split
      · exact ih _ _ hrest
      · exact ih _ _ hrest
  induction declarations generalizing properties index with
  | nil => exact hR.pure _
  | cons n rest ih =>
    have hrest (properties : List (String × Ty)) (index : Option Ty) := ih properties index
      fun m ms name params heritage members hd =>
        h m ms name params heritage members (List.mem_cons_of_mem _ hd)
    unfold Typing.interfaceMembers
    split
    · exact hR.pure _
    · rename_i heq
      cases heq
      obtain ⟨hheritage, hmembers⟩ := h _ _ _ _ _ _ List.mem_cons_self
      exact hR.bind (inherited _ _ hheritage) fun _ =>
        hR.bind (hR.writtenMembers hask _ _ hmembers) fun _ => hrest _ _
    · rename_i heq
      cases heq
      exact hrest _ _

end

/-! ## Values -/

section
variable {ask ask' : Asker} {S : Node → Prop} (hask : Answers R ask ask' S)
include hask

theorem widenedExpression {e : Node} (h : S e) :
    R Ty (ask (.expression e) >>= Typing.widened) (ask' (.expression e) >>= Typing.widened) :=
  hR.bind (hask.expression h) fun _ => hR.widened _

/-- What a function returns is found from values inside its body. -/
theorem inferReturn {body : Node} (h : S body) : R Ty (inferReturn ask body) (inferReturn ask' body) := by
  unfold Typing.inferReturn
  split
  · split
    · exact hR.pure _
    · refine hR.bind (hR.mapM fun value hvalue => ?_) fun _ => hR.join _
      cases value with
      | none => exact hR.pure _
      | some e => exact hR.widenedExpression hask (inside_returnedValues hask.inside h hvalue)
  · exact hR.widenedExpression hask h

/-- A signature whose parameters, result and body may be asked about. -/
theorem functionType (env : Env) {params : List Node} {result body : Option Node}
    (hparams : ∀ p ∈ params, S p) (hresult : ∀ t, result = some t → S t)
    (hbody : ∀ b, body = some b → S b) :
    R Ty (Typing.signature ask env params result body) (Typing.signature ask' env params result body) :=
  hR.signature (hask.types env) hparams hresult fun b hb => hR.inferReturn hask (hbody b hb)

theorem binaryType {left right : Node} (operator : String) (hleft : S left) (hright : S right) :
    R Ty (binaryType ask left operator right) (binaryType ask' left operator right) := by
  unfold Typing.binaryType
  split
  · exact hask.expression hright
  split
  · exact hR.pure _
  split
  · exact hR.pure _
  exact hR.bind (hask.expression hleft) fun _ =>
    hR.bind (hask.expression hright) fun _ => hR.combinedType _ _ _

theorem identType (i : Ident) : R Ty (identType ask i) (identType ask' i) := by
  refine hR.read ?_
  split
  · exact hask.symbol _
  · exact hR.pure _

theorem elementAccessType {target key : Node} (htarget : S target) (hkey : S key) :
    R Ty (elementAccessType ask target key) (elementAccessType ask' target key) := by
  refine hR.bind (hask.expression htarget) fun targetType =>
    hR.bind (hask.expression hkey) fun keyType => ?_
  dsimp only
  split
  · exact hR.propertyOf hask.members _ _
  · exact hR.propertyOf hask.members _ _
  · exact hR.propertyOf hask.members _ _
  · refine hR.bind (hR.membersOf? hask.members _) fun members => ?_
    split
    · exact hR.pure _
    · split
      · exact hR.elementOf _ _
      · exact hR.elementOf _ _

theorem arrayLiteralType {elements : List Node} (h : ∀ n ∈ elements, S n) :
    R Ty (arrayLiteralType ask elements) (arrayLiteralType ask' elements) := by
  have item {n : Node} (hn : S n) : R Ty (arrayItemType ask n) (arrayItemType ask' n) := by
    unfold arrayItemType
    split
    · exact hR.bind (hask.expression (hask.inside hn _ (by simp [Node.children]))) fun _ =>
        hR.elementOf _ _
    · exact hR.widenedExpression hask hn
  unfold Typing.arrayLiteralType
  split
  · exact hR.pure _
  · exact hR.bind (hR.mapM fun n hn => item (h n hn)) fun _ => hR.bind (hR.join _) fun _ => hR.pure _

theorem literalProperties (table : List (String × Ty)) {properties : List Node}
    (h : ∀ n ∈ properties, S n) :
    R (List (String × Ty)) (literalProperties ask table properties)
      (literalProperties ask' table properties) := by
  induction properties generalizing table with
  | nil => exact hR.pure _
  | cons n rest ih =>
    obtain ⟨hn, hrest⟩ := List.forall_mem_cons.mp h
    have value {e : Node} (he : e ∈ n.children) {f g : Ty → TypeM (List (String × Ty))}
        (hf : ∀ t, R (List (String × Ty)) (f t) (g t)) :
        R (List (String × Ty)) (ask (.expression e) >>= fun t => Typing.widened t >>= f)
          (ask' (.expression e) >>= fun t => Typing.widened t >>= g) :=
      hR.bind (hask.expression (hask.inside hn e he)) fun _ => hR.bind (hR.widened _) hf
    unfold Typing.literalProperties
    split
    · exact hR.pure _
    · rename_i heq
      cases heq
      refine hR.bind (hR.orNumeralFault _) fun key => ?_
      split
      · exact value (by simp [Node.children]) fun _ => ih _ hrest
      · exact ih _ hrest
    · rename_i heq
      cases heq
      exact value (by simp [Node.children]) fun _ => ih _ hrest
    · rename_i heq
      cases heq
      refine hR.bind (hR.orNumeralFault _) fun key => ?_
      split
      · refine hR.bind (hR.functionType hask _ ?_ ?_ ?_) fun _ => ih _ hrest
        · exact fun p hp => hask.inside hn p (by simp [Node.children, hp])
        · exact fun t ht => hask.inside hn t (by simp [Node.children, ht])
        · exact fun b hb => hask.inside hn b (by simp [Node.children, Option.some.inj hb])
      · exact ih _ hrest
    · rename_i heq
      cases heq
      refine hR.bind (hask.expression (hask.inside hn _ (by simp [Node.children]))) fun t =>
        hR.bind (hR.membersOf? hask.members _) fun members => ?_
      split
      · exact ih _ hrest
      · exact ih _ hrest
    · rename_i heq
      cases heq
      exact ih _ hrest

/-- An expression asks about what is directly inside it. -/
theorem inferExpression {e : Node} (h : ∀ k ∈ e.children, S k) :
    R Ty (inferExpression ask e) (inferExpression ask' e) := by
  cases e with
  | number => exact hR.bind (hR.orNumeralFault _) fun _ => hR.pure _
  | ident i => exact hR.identType hask i
  | asType m e type =>
    have he : S e := h e (by simp [Node.children])
    have htype : S type := h type (by simp [Node.children])
    cases type with
    | typeReference m name args =>
      simp only [Typing.inferExpression]
      split
      · exact hask.expression he
      · exact hask.written _ htype
    | _ => exact hask.written _ htype
  | nonNull m e =>
    exact hR.bind (hask.expression (h e (by simp [Node.children]))) fun _ => hR.withoutNullish _
  | prefixUnary m operator operand => exact hR.prefixType operator operand
  | binary m left operator right =>
    exact hR.binaryType hask operator (h _ (by simp [Node.children])) (h _ (by simp [Node.children]))
  | conditional m test whenTrue whenFalse =>
    exact hR.bind (hask.expression (h whenTrue (by simp [Node.children]))) fun _ =>
      hR.bind (hask.expression (h whenFalse (by simp [Node.children]))) fun _ => hR.join _
  | call m callee args isOptional =>
    exact hR.bind (hask.expression (h callee (by simp [Node.children]))) fun _ => hR.resultOf _
  | propertyAccess m target name isOptional =>
    exact hR.bind (hask.expression (h target (by simp [Node.children]))) fun _ =>
      hR.propertyOf hask.members _ _
  | elementAccess m target key isOptional =>
    exact hR.elementAccessType hask (h _ (by simp [Node.children])) (h _ (by simp [Node.children]))
  | arrow m params body result typeParams isAsync =>
    refine hR.functionType hask _ ?_ ?_ ?_
    · exact fun p hp => h p (by simp [Node.children, hp])
    · exact fun t ht => h t (by simp [Node.children, ht])
    · exact fun b hb => h b (by simp [Node.children, Option.some.inj hb])
  | function m name params body result typeParams isAsync isGenerator =>
    refine hR.functionType hask _ ?_ ?_ ?_
    · exact fun p hp => h p (by simp [Node.children, hp])
    · exact fun t ht => h t (by simp [Node.children, ht])
    · exact fun b hb => h b (by simp [Node.children, Option.some.inj hb])
  | array m elements => exact hR.arrayLiteralType hask h
  | object m properties =>
    exact hR.bind (hR.literalProperties hask _ h) fun _ => hR.newRecord _ _
  | parenthesized m e => exact hask.expression (h e (by simp [Node.children]))
  | satisfiesType m e type => exact hask.expression (h e (by simp [Node.children]))
  | awaitOf m e => exact hask.expression (h e (by simp [Node.children]))
  | spread m e => exact hask.expression (h e (by simp [Node.children]))
  | _ => exact hR.pure _

end

/-! ## Symbols -/

section
variable {ask ask' : Asker} {S : Node → Prop} (hask : Answers R ask ask' S)
include hask

/-- A symbol asks about its declaration and about what a loop goes over. -/
theorem inferSymbol (id : SymbolId) (hdeclared : S (program.bindings.symbol id).declaration)
    (hiterated : ∀ e, (program.bindings.symbol id).iterated = some e → S e) :
    R Ty (inferSymbol ask id) (inferSymbol ask' id) := by
  have found {m : Mark} {target : Node} {type value : Option Node}
      (h : (program.bindings.symbol id).declaration = .variableDeclaration m target type value) :
      R Ty
        (variableType ask (program.bindings.symbol id) type value >>= fun t =>
          Typing.followPath ask t (program.bindings.symbol id).path)
        (variableType ask' (program.bindings.symbol id) type value >>= fun t =>
          Typing.followPath ask' t (program.bindings.symbol id).path) := by
    rw [h] at hdeclared
    refine hR.bind ?_ fun _ => hR.followPath hask.members _ _
    unfold variableType
    split
    · exact hask.written _ (hask.inside hdeclared _ (by simp [Node.children]))
    · exact hR.bind (hask.expression (hiterated _ ‹_›)) fun _ => hR.elementOf _ _
    · refine hR.bind (hask.expression (hask.inside hdeclared _ (by simp [Node.children]))) fun t => ?_
      split
      · exact hR.pure _
      · exact hR.widened _
    · exact hR.pure _
  have function {m : Mark} {modifiers : List Modifier} {name : Option Ident} {params : List Node}
      {body result : Option Node} {typeParams : List Node} {isAsync isGenerator : Bool}
      (h : (program.bindings.symbol id).declaration =
        .functionDeclaration m modifiers name params body result typeParams isAsync isGenerator) :
      R Ty (Typing.signature ask [] params result body)
        (Typing.signature ask' [] params result body) := by
    rw [h] at hdeclared
    refine hR.functionType hask _ ?_ ?_ ?_
    · exact fun p hp => hask.inside hdeclared p (by simp [Node.children, hp])
    · exact fun t ht => hask.inside hdeclared t (by simp [Node.children, ht])
    · exact fun b hb => hask.inside hdeclared b (by simp [Node.children, hb])
  refine hR.read ?_
  dsimp only
  split
  · split
    · exact hR.newDeclared _ _ fun _ _ h => by cases h
    · exact hask.symbol _
    · exact hR.pure _
  · exact found ‹_›
  · exact found ‹_›
  · exact found ‹_›
  · rename_i heq
    rw [heq] at hdeclared
    exact hR.bind (hR.parameterType (hask.types []) hdeclared) fun _ => hR.followPath hask.members _ _
  · exact function ‹_›
  · exact function ‹_›
  · exact hR.newDeclared _ _ fun _ _ h => by cases h
  · rename_i heq
    rw [heq] at hdeclared
    exact hask.expression (hask.inside hdeclared _ (by simp [Node.children]))
  · exact hR.pure _

end

end Relational

end ScriptBridge.Typing
