import ScriptBridge.Proofs.Typing.Relational

/-!
# Properties of actions that the rules of the oracle have

A property of actions that is kept when actions are put together, and that the actions have which make
types, is a property of every rule whose questions are answered by actions that have it: it is a relation
of such an action to itself.

* `Compositional`: what a property has to be like.
* `AnswersTypes`, `Answers`: the questions about a set of nodes are answered by such actions.
* `Compositional.writtenType`, `.inferExpression`, `.inferSymbol`, `.findMembers`: the rules.
-/

namespace ScriptBridge.Typing

open ScriptBridge.Binding ScriptBridge.TypeScript

variable {α β : Type}

/-- A property of actions that is kept when actions are put together in a program, and that the actions
have which make types. -/
structure Compositional (program : Program) (P : (α : Type) → TypeM α → Prop) : Prop where
  pure : ∀ {α : Type} (a : α), P α (pure a)
  throw : ∀ {α : Type} {fault : TypeFault}, fault ≠ .outOfFuel → P α (throw fault)
  bind : ∀ {α β : Type} {x : TypeM α} {f : α → TypeM β}, P α x → (∀ a, P β (f a)) → P β (x >>= f)
  get : P Memory get
  read : ∀ {α : Type} {f : Program → TypeM α}, P α (f program) → P α (read >>= f)
  newRecord : ∀ properties index, P Ty (newRecord properties index)
  nameRecord : ∀ name t, P Unit (nameRecord name t)
  /-- A namespace or a module; an interface is made by `interfaceType` only. -/
  newDeclared : ∀ name source, (∀ id env, source ≠ .interfaces id env) →
    P Ty (newDeclared name source)
  interfaceType : ∀ id args, P Ty (interfaceType id args)

/-- Questions about type expressions from a set, with one meaning for type parameters, are answered by
actions with a property. -/
structure AnswersTypes (P : (α : Type) → TypeM α → Prop) (ask : Asker) (env : Env) (S : Node → Prop) :
    Prop where
  inside : ∀ {n}, S n → ∀ k ∈ n.children, S k
  written : ∀ {t}, S t → P Ty (ask (.written env t))
  value : ∀ {n}, S n → ∀ e ∈ valuesOf n, P Ty (ask (.expression e))
  named : ∀ id args, P Ty (namedType ask id args)

/-- Questions about expressions and type expressions from a set, about symbols and about members are
answered by actions with a property. -/
structure Answers (P : (α : Type) → TypeM α → Prop) (ask : Asker) (S : Node → Prop) : Prop where
  inside : ∀ {n}, S n → ∀ k ∈ n.children, S k
  written : ∀ env {t}, S t → P Ty (ask (.written env t))
  expression : ∀ {e}, S e → P Ty (ask (.expression e))
  symbol : ∀ id, P Ty (ask (.symbol id))
  members : ∀ id name, P Ty (ask (.members id name))
  named : ∀ id args, P Ty (namedType ask id args)

theorem Answers.types {P : (α : Type) → TypeM α → Prop} {ask : Asker} {S : Node → Prop}
    (h : Answers P ask S) (env : Env) : AnswersTypes P ask env S where
  inside := h.inside
  written := h.written env
  value hn e he := h.expression (h.inside hn e (mem_children_of_mem_valuesOf he))
  named := h.named

/-! ## Properties as relations -/

/-- Both actions have a property. -/
def Both (P : (α : Type) → TypeM α → Prop) (α : Type) (x y : TypeM α) : Prop :=
  P α x ∧ P α y

theorem AnswersTypes.both {P : (α : Type) → TypeM α → Prop} {ask : Asker} {env : Env}
    {S : Node → Prop} (h : AnswersTypes P ask env S) :
    Relational.AnswersTypes (Both P) ask ask env S where
  inside := h.inside
  written ht := ⟨h.written ht, h.written ht⟩
  value hn e he := ⟨h.value hn e he, h.value hn e he⟩
  named id args := ⟨h.named id args, h.named id args⟩

theorem Answers.both {P : (α : Type) → TypeM α → Prop} {ask : Asker} {S : Node → Prop}
    (h : Answers P ask S) : Relational.Answers (Both P) ask ask S where
  inside := h.inside
  written env _ ht := ⟨h.written env ht, h.written env ht⟩
  expression he := ⟨h.expression he, h.expression he⟩
  symbol id := ⟨h.symbol id, h.symbol id⟩
  members id name := ⟨h.members id name, h.members id name⟩
  named id args := ⟨h.named id args, h.named id args⟩

namespace Compositional
variable {program : Program} {P : (α : Type) → TypeM α → Prop} (hP : Compositional program P)
include hP

theorem both : Relational program (Both P) where
  pure a := ⟨hP.pure a, hP.pure a⟩
  throw h := ⟨hP.throw h, hP.throw h⟩
  bind h hf := ⟨hP.bind h.1 fun a => (hf a).1, hP.bind h.2 fun a => (hf a).2⟩
  get := ⟨hP.get, hP.get⟩
  read h := ⟨hP.read h.1, hP.read h.2⟩
  newRecord properties index := ⟨hP.newRecord properties index, hP.newRecord properties index⟩
  nameRecord name t := ⟨hP.nameRecord name t, hP.nameRecord name t⟩
  newDeclared name source h := ⟨hP.newDeclared name source h, hP.newDeclared name source h⟩
  interfaceType id args := ⟨hP.interfaceType id args, hP.interfaceType id args⟩

/-! ## The rules -/

theorem orFault {x : Except TypeFault α} (hx : Patient x) : P α (orFault x) :=
  (hP.both.orFault hx).1

theorem mapM {f : α → TypeM β} {as : List α} (hf : ∀ a ∈ as, P β (f a)) : P (List β) (as.mapM f) :=
  (hP.both.mapM fun a ha => ⟨hf a ha, hf a ha⟩).1

theorem isResolving (id : SymbolId) : P Bool (isResolving id) :=
  (hP.both.isResolving id).1

theorem membersOf? {ask : Asker} (hmembers : ∀ id name, P Ty (ask (.members id name))) (t : Ty) :
    P (Option (List (String × Ty) × Option Ty)) (membersOf? ask t) :=
  (hP.both.membersOf? (fun id name => ⟨hmembers id name, hmembers id name⟩) t).1

theorem findMembers {ask : Asker} (source : MemberSource) (hsymbol : ∀ id, P Ty (ask (.symbol id)))
    (hinterface : ∀ id env, source = .interfaces id env → P (List (String × Ty) × Option Ty)
      (Typing.interfaceMembers ask env [] none (program.bindings.symbol id).declarations)) :
    P (List (String × Ty) × Option Ty) (findMembers ask source) :=
  (hP.both.findMembers source (fun id => ⟨hsymbol id, hsymbol id⟩)
    fun id env h => ⟨hinterface id env h, hinterface id env h⟩).1

section
variable {ask : Asker} {env : Env} {S : Node → Prop} (hask : AnswersTypes P ask env S)
include hask

/-- A type expression asks about what is directly inside it; only an intersection asks for members. -/
theorem writtenType {type : Node} (h : ∀ k ∈ type.children, S k)
    (hvalue : ∀ e ∈ valuesOf type, P Ty (ask (.expression e)))
    (hmembers : ∀ m types, type = .intersectionType m types →
      ∀ id name, P Ty (ask (.members id name))) : P Ty (writtenType ask env type) :=
  (hP.both.writtenType hask.both h (fun e he => ⟨hvalue e he, hvalue e he⟩)
    fun m types ht id name => ⟨hmembers m types ht id name, hmembers m types ht id name⟩).1

/-- The members of an interface, if its heritage and its members may be asked about. -/
theorem interfaceMembers (properties : List (String × Ty)) (index : Option Ty)
    {declarations : List Node}
    (h : ∀ m modifiers name params heritage members,
      .interfaceDeclaration m modifiers name params heritage members ∈ declarations →
        (∀ base ∈ heritage, P (Option (List (String × Ty) × Option Ty))
          (ask (.written env base) >>= Typing.membersOf? ask)) ∧ ∀ n ∈ members, S n) :
    P (List (String × Ty) × Option Ty)
      (interfaceMembers ask env properties index declarations) := by
  refine (hP.both.interfaceMembers hask.both properties index fun m ms name params heritage members
    hd => ?_).1
  obtain ⟨hbases, hmembers⟩ := h m ms name params heritage members hd
  exact ⟨fun base hbase => ⟨hbases base hbase, hbases base hbase⟩, hmembers⟩

end

section
variable {ask : Asker} {S : Node → Prop} (hask : Answers P ask S)
include hask

/-- An expression asks about what is directly inside it. -/
theorem inferExpression {e : Node} (h : ∀ k ∈ e.children, S k) : P Ty (inferExpression ask e) :=
  (hP.both.inferExpression hask.both h).1

/-- A symbol asks about its declaration and about what a loop goes over. -/
theorem inferSymbol (id : SymbolId) (hdeclared : S (program.bindings.symbol id).declaration)
    (hiterated : ∀ e, (program.bindings.symbol id).iterated = some e → S e) :
    P Ty (inferSymbol ask id) :=
  (hP.both.inferSymbol hask.both id hdeclared hiterated).1

end

end Compositional

end ScriptBridge.Typing
