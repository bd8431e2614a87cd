import ScriptBridge.Proofs.Data.Assoc
import ScriptBridge.Proofs.Typing.Runs
import Std.Data.HashMap.Lemmas

/-!
# The type oracle keeps what it has found

An answer about an expression is remembered under the identity of its node, and no later question
changes it. `Keeps m`: the action `m` keeps every answer that was known before it. Only
`expressionType` adds answers about expressions, and it adds one where none was known.

An interface has one object type for the same arguments, and keeps it. The members of that object type,
once they are looked for, are those of the interface with the arguments for its parameters.

* `Extends`, `keeps_answer`: every question keeps what is known.
* `typeOf_remembered`, `typeOf_known`: an expression that was asked about has a known type, which is the
  answer when it is asked about again.
* `Onward`, `respects_onward`: object types that are there stay.
* `Orderly`, `respects_orderly`: object types of interfaces have the members of their interfaces; no run
  changes that, and there are none to begin with.
-/

namespace ScriptBridge.Typing

open ScriptBridge.Binding ScriptBridge.TypeScript
open ScriptBridge.Conversion (bind_ok bind_of_ok)

variable {α : Type} {program : Program}

/-! ## Answers -/

/-- A memory that has all answers about expressions that an earlier one has. -/
def Extends (before after : Memory) : Prop :=
  ∀ (id : Nat) (t : Ty), before.expressions[id]? = some t → after.expressions[id]? = some t

theorem Extends.refl (m : Memory) : Extends m m :=
  fun _ _ h => h

theorem Extends.trans {m₁ m₂ m₃ : Memory} (h : Extends m₁ m₂) (h' : Extends m₂ m₃) :
    Extends m₁ m₃ :=
  fun id t ht => h' id t (h id t ht)

theorem extends_of_eq {before after : Memory} (h : after.expressions = before.expressions) :
    Extends before after :=
  fun _ _ ht => h ▸ ht

/-- Every answer about an expression that is known before an action is known after it. -/
def Keeps (m : TypeM α) : Prop :=
  ∀ program before a after, m program before = .ok a after → Extends before after

/-- Only answers about expressions that were not known are added. -/
theorem respects_extends (program : Program) : Respects program Extends where
  refl := .refl
  trans := .trans
  record _ := extends_of_eq rfl
  name _ _ _ := extends_of_eq rfl
  declare _ _ _ := extends_of_eq rfl
  instantiate _ _ _ _ _ _ := extends_of_eq rfl
  fill _ _ _ _ := extends_of_eq rfl
  settle _ _ _ := extends_of_eq rfl
  guarded _ h := h
  remember {m m'} e t hnew h := by
    intro id u hu
    have hne : e.id ≠ id := fun he => by simp [he, hu] at hnew
    rw [Std.HashMap.getElem?_insert, if_neg (by simpa using hne)]
    exact h id u hu

theorem keeps_of_moves {m : TypeM α} (h : ∀ program, Moves program Extends α m) : Keeps m := by
  intro program before a after hrun
  have := h program before
  rwa [hrun] at this

/-- Every question keeps all answers that were known before it. -/
theorem keeps_answer (n : Nat) (q : Query) : Keeps (answer n q) :=
  keeps_of_moves fun program => (respects_extends program).answer n q

theorem keeps_typeText (t : Ty) : Keeps (typeText t) :=
  keeps_of_moves fun program =>
    have hP := (respects_extends program).compositional
    hP.bind hP.get fun _ => hP.orFault (patient_text _ t)

/-- Whatever is asked about an expression is remembered. -/
theorem expressionType_remembered {ask : Asker} {e : Node} {program : Program}
    {before after : Memory} {t : Ty} (h : expressionType ask e program before = .ok t after) :
    after.expressions[e.id]? = some t := by
  unfold expressionType at h
  obtain ⟨_, _, h₁, h⟩ := bind_ok h
  cases h₁
  cases hs : before.expressions[e.id]? with
  | some u =>
    simp only [hs] at h
    cases h
    exact hs
  | none =>
    simp only [hs] at h
    obtain ⟨u, s₁, h₂, h⟩ := bind_ok h
    cases h
    exact Std.HashMap.getElem?_insert_self

/-- The type of an expression that was asked about is known. -/
theorem typeOf_remembered {e : Node} {program : Program} {before after : Memory} {t : Ty}
    (h : typeOf e program before = .ok t after) : after.expressions[e.id]? = some t :=
  expressionType_remembered h

theorem answer_known (n : Nat) {e : Node} {memory : Memory} {t : Ty}
    (h : memory.expressions[e.id]? = some t) (program : Program) :
    answer (n + 1) (.expression e) program memory = .ok t memory := by
  have hget : (get : TypeM Memory) program memory = .ok memory memory := rfl
  rw [answer, step, expressionType, bind_of_ok hget, h]
  rfl

/-- A known type is the answer, and asking for it changes nothing. -/
theorem typeOf_known {e : Node} {memory : Memory} {t : Ty}
    (h : memory.expressions[e.id]? = some t) (program : Program) :
    typeOf e program memory = .ok t memory :=
  answer_known (patience - 1) h program

/-! ## Object types that stay -/

/-- Members that are there stay or become known, and interfaces keep their object types. -/
structure Onward (before after : Memory) : Prop where
  size : before.members.size ≤ after.members.size
  pending : ∀ {s : ShapeId} {source}, s < before.members.size →
    after.members[s]? = some (.pending source) → before.members[s]? = some (.pending source)
  interfaces : ∀ {id : SymbolId} {key : String} {t}, before.interfaces[(id, key)]? = some t →
    after.interfaces[(id, key)]? = some t

theorem onward_of_eq {before after : Memory} (hmembers : after.members = before.members)
    (hinterfaces : after.interfaces = before.interfaces) : Onward before after where
  size := Nat.le_of_eq (by rw [hmembers])
  pending _ hs := by rwa [hmembers] at hs
  interfaces h := by rwa [hinterfaces]

theorem onward_push (m : Memory) (members : Members) :
    Onward m { m with members := m.members.push members } where
  size := by simp
  pending hs h := by rwa [Array.getElem?_push_lt hs, ← Array.getElem?_eq_getElem hs] at h
  interfaces h := h

theorem onward_instantiate (m : Memory) {id : SymbolId} {key : String} (name : String) (env : Env)
    (hnew : m.interfaces[(id, key)]? = none) : Onward m (m.instantiate id key name env) where
  size := (onward_push m (.pending (.interfaces id env))).size
  pending := (onward_push m (.pending (.interfaces id env))).pending
  interfaces {other key' t} h := by
    simp only [Memory.instantiate, Std.HashMap.getElem?_insert]
    split
    · rename_i hkey
      rw [← eq_of_beq hkey, hnew] at h
      cases h
    · exact h

theorem onward_fill (m : Memory) (id : ShapeId) (properties : List (String × Ty)) (index : Option Ty) :
    Onward m (m.fill id properties index) where
  size := by simp [Memory.fill]
  pending {s source} hs h := by
    rw [Memory.fill, Array.getElem?_modify] at h
    split at h
    · cases hm : m.members[s]? <;> rw [hm] at h <;> cases h
    · exact h
  interfaces h := h

theorem respects_onward (program : Program) : Respects program Onward where
  refl _ := onward_of_eq rfl rfl
  trans h h' :=
    { size := Nat.le_trans h.size h'.size
      pending := fun hs hp => h.pending hs (h'.pending (Nat.lt_of_lt_of_le hs h.size) hp)
      interfaces := fun hmade => h'.interfaces (h.interfaces hmade) }
  record _ := onward_of_eq rfl rfl
  name _ _ _ := onward_of_eq rfl rfl
  declare m _ _ := onward_push m _
  instantiate m _ _ name _ hnew := onward_instantiate m name _ hnew
  fill := onward_fill
  remember _ _ _ h := ⟨h.size, h.pending, h.interfaces⟩
  settle _ _ _ := onward_of_eq rfl rfl
  guarded _ h := ⟨h.size, h.pending, h.interfaces⟩

/-! ## Where members come from -/

/-- Names that stand for something are among the parameters. -/
def StandsFor (env : Env) (params : List String) : Prop :=
  ∀ name, (env.lookup name).isSome → name ∈ params

/-- The object type of an interface has the members of that interface, with its parameters. -/
structure Orderly (program : Program) (m : Memory) : Prop where
  made : ∀ {id : SymbolId} {key : String} {t}, m.interfaces[(id, key)]? = some t →
    ∃ s name, t = .declared s name ∧ s < m.members.size ∧
      ∀ other env, m.members[s]? = some (.pending (.interfaces other env)) → other = id
  params : ∀ {s : ShapeId} {id env}, m.members[s]? = some (.pending (.interfaces id env)) →
    StandsFor env (interfaceParams (program.bindings.symbol id).declarations)

theorem orderly_empty (program : Program) : Orderly program {} where
  made h := by simp at h
  params h := by simp at h

theorem standsFor_bindParams (names : List String) (args : List Ty) {env : Env} {params : List String}
    (henv : StandsFor env params) (hnames : ∀ name ∈ names, name ∈ params) :
    StandsFor (bindParams names args env) params := by
  induction names generalizing args env with
  | nil => cases args <;> exact henv
  | cons name names ih =>
    obtain ⟨hname, hrest⟩ := List.forall_mem_cons.mp hnames
    have hset (t : Ty) : StandsFor (Assoc.set name t env) params := by
      intro other hother
      rw [Assoc.lookup_set] at hother
      split at hother
      · rename_i h
        exact h ▸ hname
      · exact henv other hother
    cases args with
    | nil => exact ih [] (hset _) hrest
    | cons t ts => exact ih ts (hset t) hrest

/-- Arguments stand for the parameters that they are given for. -/
theorem standsFor_params (params : List String) (args : List Ty) :
    StandsFor (bindParams params args []) params :=
  standsFor_bindParams params args (by simp [StandsFor]) fun _ h => h

/-- An orderly memory stays so where members only become known. -/
theorem Orderly.of_onward {before after : Memory} (h : Orderly program before)
    (hinterfaces : after.interfaces = before.interfaces)
    (hsize : after.members.size = before.members.size) (honward : Onward before after) :
    Orderly program after where
  made hmade := by
    rw [hinterfaces] at hmade
    obtain ⟨s, name, rfl, hs, hsource⟩ := h.made hmade
    exact ⟨s, name, rfl, by rwa [hsize], fun other env hp => hsource other env (honward.pending hs hp)⟩
  params {s id env} hp := by
    have hs : s < before.members.size := hsize ▸ (Array.getElem?_eq_some_iff.mp hp).1
    exact h.params (honward.pending hs hp)

theorem Orderly.push {m : Memory} (h : Orderly program m) {members : Members}
    (hparams : ∀ id env, members = .pending (.interfaces id env) →
      StandsFor env (interfaceParams (program.bindings.symbol id).declarations)) :
    Orderly program { m with members := m.members.push members } where
  made hmade := by
    obtain ⟨s, name, rfl, hs, hsource⟩ := h.made hmade
    have honward := onward_push m members
    exact ⟨s, name, rfl, Nat.lt_of_lt_of_le hs honward.size,
      fun other env hp => hsource other env (honward.pending hs hp)⟩
  params {s id env} hp := by
    simp only [Array.getElem?_push] at hp
    split at hp
    · exact hparams id env (Option.some.inj hp)
    · exact h.params hp

theorem Orderly.instantiate {m : Memory} (h : Orderly program m) (id : SymbolId) (key name : String)
    (args : List Ty) : Orderly program (m.instantiate id key name (instanceEnv program id args)) := by
  have hpush : Orderly program { m with
      members := m.members.push (.pending (.interfaces id (instanceEnv program id args))) } :=
    h.push <| by
      rintro _ _ ⟨⟩
      exact standsFor_params _ args
  refine ⟨fun {other key' t} hmade => ?_, hpush.params⟩
  simp only [Memory.instantiate, Std.HashMap.getElem?_insert] at hmade
  split at hmade
  · rename_i hkey
    cases hmade
    have hother : id = other := by simpa using And.left (by simpa using hkey)
    refine ⟨m.members.size, name, rfl, by simp [Memory.instantiate], fun owner env hp => ?_⟩
    simp only [Memory.instantiate, Array.getElem?_push_size, Option.some.injEq,
      Members.pending.injEq, MemberSource.interfaces.injEq] at hp
    exact hp.1.symm.trans hother
  · exact hpush.made hmade

theorem respects_orderly (program : Program) :
    Respects program fun m m' => Orderly program m → Orderly program m' where
  refl _ h := h
  trans h h' hm := h' (h hm)
  record _ h := ⟨h.made, h.params⟩
  name _ _ _ h := ⟨h.made, h.params⟩
  declare _ _ hsource h := h.push fun id env hp => absurd (Members.pending.inj hp) (hsource id env)
  instantiate _ id key name args _ h := h.instantiate id key name args
  fill m id properties index h :=
    h.of_onward rfl (by simp [Memory.fill]) (onward_fill m id properties index)
  remember _ _ _ h hm := ⟨(h hm).made, (h hm).params⟩
  settle _ _ _ h := ⟨h.made, h.params⟩
  guarded _ h hm := by
    have := h ⟨hm.made, hm.params⟩
    exact ⟨this.made, this.params⟩

end ScriptBridge.Typing
