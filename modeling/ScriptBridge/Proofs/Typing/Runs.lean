import ScriptBridge.Proofs.Conversion.Results
import ScriptBridge.Proofs.Typing.Compositional

/-!
# What a run does to the memory

A run changes its memory in a few ways only: it makes object types and names records, it makes members
known, it remembers answers, and it guards symbols, each of which it releases again. A relation between
memories that composes and that each of these respects holds between the memory before and the memory
after any answer, whether that is a type or a fault.

* `whileResolving_of_ok`, `interfaceType_cases`, `loadMembers_pending`: what the actions do that change
  more than they say.
* `Respects`: a relation that each change respects.
* `Respects.answer`: it holds over every run.
-/

namespace ScriptBridge.Typing

open ScriptBridge.Binding ScriptBridge.TypeScript
open ScriptBridge.Conversion (bind_of_ok bind_of_error)

variable {α β : Type} {program : Program}

/-- The memory in which an action ends. -/
def memoryAfter : EStateM.Result TypeFault Memory α → Memory
  | .ok _ memory => memory
  | .error _ memory => memory

/-! ## Actions that change more than they say -/

/-- A guarded symbol is released again. -/
theorem whileResolving_of_ok {id : SymbolId} {x : TypeM α} {m m' : Memory} {a : α}
    (h : x program { m with resolving := id :: m.resolving } = .ok a m') :
    whileResolving id x program m = .ok a { m' with resolving := m'.resolving.erase id } := by
  unfold whileResolving
  rw [bind_of_ok (show (modify fun memory => { memory with resolving := id :: memory.resolving } :
    TypeM Unit) program m = .ok () { m with resolving := id :: m.resolving } from rfl)]
  have hcaught : (tryCatch x fun fault => do
      modify fun memory => { memory with resolving := memory.resolving.erase id }
      throw fault : TypeM α) program { m with resolving := id :: m.resolving } = .ok a m' := by
    simp only [tryCatch, tryCatchThe, MonadExceptOf.tryCatch]
    unfold EStateM.tryCatch
    rw [h]
  rw [bind_of_ok hcaught]
  rfl

/-- After a fault a guarded symbol is released too. -/
theorem whileResolving_of_error {id : SymbolId} {x : TypeM α} {m m' : Memory} {fault : TypeFault}
    (h : x program { m with resolving := id :: m.resolving } = .error fault m') :
    whileResolving id x program m =
      .error fault { m' with resolving := m'.resolving.erase id } := by
  unfold whileResolving
  rw [bind_of_ok (show (modify fun memory => { memory with resolving := id :: memory.resolving } :
    TypeM Unit) program m = .ok () { m with resolving := id :: m.resolving } from rfl)]
  have hcaught : (tryCatch x fun fault => do
      modify fun memory => { memory with resolving := memory.resolving.erase id }
      throw fault : TypeM α) program { m with resolving := id :: m.resolving } =
        .error fault { m' with resolving := m'.resolving.erase id } := by
    simp only [tryCatch, tryCatchThe, MonadExceptOf.tryCatch]
    unfold EStateM.tryCatch
    rw [h]
    rfl
  rw [bind_of_error hcaught]

/-- The memory with one more object type, that of an interface with arguments. -/
def Memory.instantiate (m : Memory) (id : SymbolId) (key name : String) (env : Env) : Memory :=
  { m with
    members := m.members.push (.pending (.interfaces id env))
    interfaces := m.interfaces.insert (id, key) (.declared m.members.size name) }

/-- The memory in which the members of a declared object type are known. -/
def Memory.fill (m : Memory) (id : ShapeId) (properties : List (String × Ty)) (index : Option Ty) :
    Memory :=
  { m with members := m.members.modify id fun _ => .known properties index }

/-- What the parameters of an interface stand for. -/
abbrev instanceEnv (program : Program) (id : SymbolId) (args : List Ty) : Env :=
  bindParams (interfaceParams (program.bindings.symbol id).declarations) args []

/-- An interface with arguments is known by the texts of the arguments. -/
def KeyOf (m : Memory) (args : List Ty) (key : String) : Prop :=
  ∃ texts, Ty.texts m.names args = .ok texts ∧ key = ", ".intercalate texts

theorem KeyOf.nil {m : Memory} {key : String} (h : KeyOf m [] key) : key = "" := by
  obtain ⟨texts, htexts, rfl⟩ := h
  cases htexts
  rfl

/-- An interface that was not given these arguments before is made. -/
theorem interfaceType_new (program : Program) {id : SymbolId} {args : List Ty} {m : Memory} {key : String}
    (hkey : KeyOf m args key) (hnew : m.interfaces[(id, key)]? = none) :
    ∃ name, interfaceType id args program m = .ok (.declared m.members.size name)
      (m.instantiate id key name (instanceEnv program id args)) := by
  obtain ⟨texts, htexts, rfl⟩ := hkey
  have hget : (get : TypeM Memory) program m = .ok m m := rfl
  have hok : (orFault (.ok texts) : TypeM (List String)) program m = .ok texts m := rfl
  rw [interfaceType, bind_of_ok hget, htexts, bind_of_ok hok]
  dsimp only
  rw [hnew]
  exact ⟨_, rfl⟩

/-- An interface with arguments is known, or is made, unless an argument has no text. -/
theorem interfaceType_cases (program : Program) (id : SymbolId) (args : List Ty) (m : Memory) :
    (∃ fault, interfaceType id args program m = .error fault m ∧ fault ≠ .outOfFuel) ∨
    (∃ (key : String) (t : Ty), KeyOf m args key ∧ m.interfaces[(id, key)]? = some t ∧
      interfaceType id args program m = .ok t m) ∨
    ∃ key name : String, KeyOf m args key ∧ m.interfaces[(id, key)]? = none ∧
      interfaceType id args program m = .ok (.declared m.members.size name)
        (m.instantiate id key name (instanceEnv program id args)) := by
  have hget : (get : TypeM Memory) program m = .ok m m := rfl
  cases htexts : Ty.texts m.names args with
  | error fault =>
    rw [interfaceType, bind_of_ok hget, htexts]
    exact .inl ⟨fault, rfl, fun h => patient_texts m.names args (by rw [htexts, h])⟩
  | ok texts =>
    have hkey : KeyOf m args (", ".intercalate texts) := ⟨texts, htexts, rfl⟩
    cases hknown : m.interfaces[(id, ", ".intercalate texts)]? with
    | some t =>
      have hok : (orFault (.ok texts) : TypeM (List String)) program m = .ok texts m := rfl
      refine .inr (.inl ⟨_, t, hkey, hknown, ?_⟩)
      rw [interfaceType, bind_of_ok hget, htexts, bind_of_ok hok]
      dsimp only
      rw [hknown]
      rfl
    | none =>
      obtain ⟨name, h⟩ := interfaceType_new program hkey hknown
      exact .inr (.inr ⟨_, name, hkey, hknown, h⟩)

/-- Members are made known once: first none, then those that are found. -/
theorem loadMembers_pending {ask : Asker} {id : ShapeId} {source : MemberSource} {m : Memory}
    (h : m.members[id]? = some (.pending source)) :
    loadMembers ask id program m =
      (findMembers ask source >>= fun found => setMembers id found.1 found.2) program
        (m.fill id [] none) := by
  have hget : (get : TypeM Memory) program m = .ok m m := rfl
  rw [loadMembers, bind_of_ok hget, h]
  rfl

theorem loadMembers_of_ne {ask : Asker} {id : ShapeId} {m : Memory}
    (h : ∀ source, m.members[id]? ≠ some (.pending source)) :
    loadMembers ask id program m = .ok () m := by
  have hget : (get : TypeM Memory) program m = .ok m m := rfl
  rw [loadMembers, bind_of_ok hget]
  cases hm : m.members[id]? with
  | none => rfl
  | some members =>
    cases members with
    | pending source => exact absurd hm (h source)
    | known properties index => rfl

/-! ## Relations that every run respects -/

/-- A relation between memories that every change of a run respects. -/
structure Respects (program : Program) (R : Memory → Memory → Prop) : Prop where
  refl : ∀ m, R m m
  trans : ∀ {m₁ m₂ m₃}, R m₁ m₂ → R m₂ m₃ → R m₁ m₃
  record : ∀ m, R m { m with names := m.names.push none }
  name : ∀ m id f, R m { m with names := m.names.modify id f }
  declare : ∀ m source, (∀ id env, source ≠ .interfaces id env) →
    R m { m with members := m.members.push (.pending source) }
  instantiate : ∀ m id key name args, m.interfaces[(id, key)]? = none →
    R m (m.instantiate id key name (instanceEnv program id args))
  fill : ∀ m id properties index, R m (m.fill id properties index)
  /-- The answer about an expression that was not known when it was asked about. -/
  remember : ∀ {m m'} (e : Node) t, m.expressions[e.id]? = none → R m m' →
    R m { m' with expressions := m'.expressions.insert e.id t }
  settle : ∀ m id t, R m { m with symbols := m.symbols.insert id t }
  /-- What is done while a symbol is guarded. -/
  guarded : ∀ {m m'} (id : SymbolId), R { m with resolving := id :: m.resolving } m' →
    R m { m' with resolving := m'.resolving.erase id }

theorem Respects.and {R S : Memory → Memory → Prop} (hR : Respects program R)
    (hS : Respects program S) : Respects program fun m m' => R m m' ∧ S m m' where
  refl m := ⟨hR.refl m, hS.refl m⟩
  trans h h' := ⟨hR.trans h.1 h'.1, hS.trans h.2 h'.2⟩
  record m := ⟨hR.record m, hS.record m⟩
  name m id f := ⟨hR.name m id f, hS.name m id f⟩
  declare m source h := ⟨hR.declare m source h, hS.declare m source h⟩
  instantiate m id key name args h :=
    ⟨hR.instantiate m id key name args h, hS.instantiate m id key name args h⟩
  fill m id properties index := ⟨hR.fill m id properties index, hS.fill m id properties index⟩
  remember e t hnew h := ⟨hR.remember e t hnew h.1, hS.remember e t hnew h.2⟩
  settle m id t := ⟨hR.settle m id t, hS.settle m id t⟩
  guarded id h := ⟨hR.guarded id h.1, hS.guarded id h.2⟩

/-- An action moves the memory along a relation, however it ends. -/
def Moves (program : Program) (R : Memory → Memory → Prop) (α : Type) (x : TypeM α) : Prop :=
  ∀ m, R m (memoryAfter (x program m))

namespace Respects
variable {R : Memory → Memory → Prop} (hR : Respects program R)
include hR

theorem pure (a : α) : Moves program R α (pure a) :=
  hR.refl

theorem bind {x : TypeM α} {f : α → TypeM β} (hx : Moves program R α x)
    (hf : ∀ a, Moves program R β (f a)) : Moves program R β (x >>= f) := by
  intro m
  have h := hx m
  simp only [Bind.bind, ReaderT.bind, EStateM.bind]
  cases hrun : x program m with
  | ok a m' =>
    rw [hrun] at h
    exact hR.trans h (hf a m')
  | error fault m' =>
    rw [hrun] at h
    exact h

theorem compositional : Compositional program (Moves program R) where
  pure := hR.pure
  throw _ := hR.refl
  bind := hR.bind
  get := hR.refl
  read h := h
  newRecord _ _ := hR.record
  nameRecord name t := by
    unfold nameRecord
    split
    · exact fun m => hR.name m _ _
    · exact hR.refl
  newDeclared _ source h m := hR.declare m source h
  interfaceType id args m := by
    obtain ⟨fault, h, -⟩ | ⟨key, t, -, -, h⟩ | ⟨key, name, -, hnew, h⟩ :=
      interfaceType_cases program id args m
    · rw [h]
      exact hR.refl m
    · rw [h]
      exact hR.refl m
    · rw [h]
      exact hR.instantiate m id key name args hnew

theorem whileResolving (id : SymbolId) {x : TypeM α} (hx : Moves program R α x) :
    Moves program R α (whileResolving id x) := by
  intro m
  have h := hx { m with resolving := id :: m.resolving }
  cases hrun : x program { m with resolving := id :: m.resolving } with
  | ok a m' =>
    rw [hrun] at h
    rw [whileResolving_of_ok hrun]
    exact hR.guarded id h
  | error fault m' =>
    rw [hrun] at h
    rw [whileResolving_of_error hrun]
    exact hR.guarded id h

section
variable {ask : Asker} (hask : ∀ q, Moves program R Ty (ask q))
include hask

theorem namedType (id : SymbolId) (args : List Ty) : Moves program R Ty (namedType ask id args) := by
  have hP := hR.compositional
  refine hP.read ?_
  dsimp only
  split
  · exact hP.interfaceType _ _
  · refine hP.bind (hP.isResolving _) fun resolving => ?_
    split
    · exact hP.pure _
    · exact hP.bind (hR.whileResolving _ (hask _)) fun _ =>
        hP.bind (hP.nameRecord _ _) fun _ => hP.pure _
  · exact hP.pure _

theorem answers : Answers (Moves program R) ask fun _ => True where
  inside _ _ _ := trivial
  written _ _ _ := hask _
  expression _ := hask _
  symbol _ := hask _
  members _ _ := hask _
  named := hR.namedType hask

theorem findMembers (source : MemberSource) :
    Moves program R (List (String × Ty) × Option Ty) (findMembers ask source) := by
  have hP := hR.compositional
  have hA := hR.answers hask
  refine hP.findMembers source hA.symbol fun id env _ => hP.interfaceMembers (hA.types env) _ _ ?_
  refine fun _ _ _ _ _ _ _ => ⟨fun base _ => ?_, fun _ _ => trivial⟩
  exact hP.bind (hask _) fun _ => hP.membersOf? hA.members _

theorem loadMembers (id : ShapeId) : Moves program R Unit (loadMembers ask id) := by
  intro m
  by_cases h : ∃ source, m.members[id]? = some (.pending source)
  · obtain ⟨source, h⟩ := h
    rw [loadMembers_pending h]
    refine hR.trans (hR.fill m id [] none) (hR.bind (hR.findMembers hask source) (fun found => ?_) _)
    exact fun m' => hR.fill m' id found.1 found.2
  · rw [loadMembers_of_ne (not_exists.mp h)]
    exact hR.refl m

theorem expressionType (e : Node) : Moves program R Ty (expressionType ask e) := by
  intro m
  have hget : (get : TypeM Memory) program m = .ok m m := rfl
  rw [Typing.expressionType, bind_of_ok hget]
  cases hknown : m.expressions[e.id]? with
  | some t => exact hR.refl m
  | none =>
    have hinfer := hR.compositional.inferExpression (hR.answers hask) (fun _ _ => trivial) (e := e) m
    simp only [Bind.bind, ReaderT.bind, EStateM.bind]
    cases hrun : inferExpression ask e program m with
    | ok t m' =>
      rw [hrun] at hinfer
      exact hR.remember e t hknown hinfer
    | error fault m' =>
      rw [hrun] at hinfer
      exact hinfer

theorem symbolType (id : SymbolId) : Moves program R Ty (symbolType ask id) := by
  have hP := hR.compositional
  have hinfer := hP.inferSymbol (hR.answers hask) id trivial fun _ _ => trivial
  refine hP.bind hP.get fun memory => ?_
  split
  · exact hP.pure _
  · refine hP.bind (hP.isResolving _) fun resolving => ?_
    split
    · exact hP.pure _
    · refine hP.bind (hR.whileResolving _ hinfer) fun t => hP.bind ?_ fun _ => hP.pure _
      exact fun m => hR.settle m id t

theorem step (q : Query) : Moves program R Ty (step ask q) := by
  have hP := hR.compositional
  cases q with
  | expression e => exact hR.expressionType hask e
  | symbol id => exact hR.symbolType hask id
  | written env type =>
    exact hP.writtenType ((hR.answers hask).types env) (fun _ _ => trivial) (fun _ _ => hask _)
      fun _ _ _ _ _ => hask _
  | members id name => exact hP.bind (hR.loadMembers hask id) fun _ => hP.pure _

end

/-- The relation holds between the memory before and after every answer. -/
theorem answer (n : Nat) (q : Query) : Moves program R Ty (answer n q) := by
  induction n generalizing q with
  | zero => exact hR.refl
  | succ n ih => exact hR.step ih q

end Respects

end ScriptBridge.Typing
