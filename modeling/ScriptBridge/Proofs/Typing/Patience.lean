import ScriptBridge.Proofs.Typing.Lasting
import Std.Data.HashMap.Lemmas

/-!
# What patience is spent on

Questions that wait for each other are kept from going on for ever in three ways: the type of a symbol or
an alias that is being found is not asked for again, the members of an object type are looked for once,
and all else asks only about what is inside a node. So one of three things gets smaller from question to
question: the symbols that are not guarded, the interfaces whose members were never looked for, or the
node that is asked about. Only the second can get larger again, whenever an interface is given arguments
that it was never given before. That is the one way in which the oracle can go on for ever.

* `Later`: guards are released, and for each interface that comes to be unopened one is made.
* `spending`: the terms under which an action runs out of patience only after making too many interfaces.
* `lasts_answer`, `patience_le`: the patience that an answer needs, against the interfaces that it makes.
-/

namespace ScriptBridge.Typing

open ScriptBridge.Binding ScriptBridge.TypeScript

variable {program : Program}

/-! ## What is left to do -/

/-- Whether the members of an interface were never looked for. -/
def Members.isUnopened : Members → Bool
  | .pending (.interfaces ..) => true
  | _ => false

/-- How many interfaces have members that were never looked for. -/
def Memory.unopened (m : Memory) : Nat :=
  m.members.toList.countP Members.isUnopened

/-- The interfaces whose members may yet be looked for if no more than `limit` are made. -/
def Memory.spare (m : Memory) (limit : Nat) : Nat :=
  m.unopened + (limit - m.interfaces.size)

/-- The weight of a question among those that no guard and no interface comes between. -/
def Query.weight : Query → Nat
  | .symbol _ => 0
  | .members _ _ => 1
  | .written _ type => type.height + 1
  | .expression e => e.height + 1

@[simp]
theorem isUnopened_known (properties : List (String × Ty)) (index : Option Ty) :
    (Members.known properties index).isUnopened = false :=
  rfl

theorem countP_modify_known (ms : List Members) (id : Nat) (properties : List (String × Ty))
    (index : Option Ty) : (ms.modify id fun _ => .known properties index).countP Members.isUnopened +
      (if (ms[id]?.any Members.isUnopened) then 1 else 0) = ms.countP Members.isUnopened := by
  induction ms generalizing id with
  | nil => cases id <;> rfl
  | cons a ms ih =>
    cases id with
    | zero => simp [List.countP_cons]
    | succ id =>
      have := ih id
      simp only [List.modify_succ_cons, List.countP_cons, List.getElem?_cons_succ] at this ⊢
      omega

theorem unopened_fill (m : Memory) (id : ShapeId) (properties : List (String × Ty))
    (index : Option Ty) : (m.fill id properties index).unopened +
      (if (m.members[id]?.any Members.isUnopened) then 1 else 0) = m.unopened := by
  simpa [Memory.fill, Memory.unopened] using countP_modify_known m.members.toList id properties index

theorem unopened_push (m : Memory) (source : Members) :
    Memory.unopened { m with members := m.members.push source } =
      m.unopened + if source.isUnopened then 1 else 0 := by
  simp [Memory.unopened, List.countP_append, List.countP_cons]

/-! ## What a run leaves -/

/-- A memory after a run: what was guarded still is, and for each interface that came to be unopened one
was made. -/
structure Later (before after : Memory) : Prop where
  resolving : after.resolving = before.resolving
  instances : before.interfaces.size ≤ after.interfaces.size
  unopened : after.unopened + before.interfaces.size ≤ before.unopened + after.interfaces.size

theorem later_of_eq {before after : Memory} (hresolving : after.resolving = before.resolving)
    (hinterfaces : after.interfaces = before.interfaces) (hmembers : after.members = before.members) :
    Later before after where
  resolving := hresolving
  instances := Nat.le_of_eq (by rw [hinterfaces])
  unopened := Nat.le_of_eq (by rw [hinterfaces, Memory.unopened, Memory.unopened, hmembers])

theorem later_fill (m : Memory) (id : ShapeId) (properties : List (String × Ty))
    (index : Option Ty) : Later m (m.fill id properties index) where
  resolving := rfl
  instances := Nat.le_refl _
  unopened := Nat.add_le_add_right (by rw [← unopened_fill m id properties index]; omega) _

theorem later_instantiate (m : Memory) {id : SymbolId} {key : String} (name : String) (env : Env)
    (hnew : m.interfaces[(id, key)]? = none) : Later m (m.instantiate id key name env) := by
  have hsize : (m.instantiate id key name env).interfaces.size = m.interfaces.size + 1 := by
    have hmem : (id, key) ∉ m.interfaces := by simpa using hnew
    simp [Memory.instantiate, Std.HashMap.size_insert, hmem]
  have hunopened : (m.instantiate id key name env).unopened = m.unopened + 1 :=
    unopened_push m (.pending (.interfaces id env))
  exact ⟨rfl, by omega, by omega⟩

theorem respects_later (program : Program) : Respects program Later where
  refl _ := later_of_eq rfl rfl rfl
  trans h h' :=
    { resolving := h'.resolving.trans h.resolving
      instances := Nat.le_trans h.instances h'.instances
      unopened := by have := h.unopened; have := h'.unopened; omega }
  record _ := later_of_eq rfl rfl rfl
  name _ _ _ := later_of_eq rfl rfl rfl
  declare m source h :=
    { resolving := rfl
      instances := Nat.le_refl _
      unopened := by
        have hclosed : (Members.pending source).isUnopened = false := by
          cases source with
          | interfaces id env => exact absurd rfl (h id env)
          | _ => rfl
        rw [unopened_push, hclosed]
        simp }
  instantiate m _ _ name args hnew := later_instantiate m name _ hnew
  fill := later_fill
  remember _ _ _ h := ⟨h.resolving, h.instances, h.unopened⟩
  settle _ _ _ := later_of_eq rfl rfl rfl
  guarded id h :=
    { resolving := by rw [h.resolving, List.erase_cons_head]
      instances := h.instances
      unopened := h.unopened }

theorem Later.free_eq {m m' : Memory} (h : Later m m') : m'.free program = m.free program := by
  unfold Memory.free
  rw [h.resolving]

theorem Later.spare_le {m m' : Memory} (h : Later m m') {limit : Nat}
    (hlimit : m'.interfaces.size ≤ limit) : m'.spare limit ≤ m.spare limit := by
  have := h.instances
  have := h.unopened
  unfold Memory.spare
  omega

/-- An action lasts unless more than `limit` interfaces are made, where no more than `spare` may yet be
opened. -/
def spending (program : Program) (limit spare : Nat) : Terms program where
  Moved := Later
  respects := respects_later program
  Ready free m := m.free program ≤ free ∧ m.spare limit ≤ spare
  Excused m := limit < m.interfaces.size
  ready h hready := by
    rw [h.free_eq]
    refine (Nat.lt_or_ge limit _).symm.imp (fun hlimit => ⟨hready.1, ?_⟩) id
    exact Nat.le_trans (h.spare_le hlimit) hready.2
  excused h := fun hlimit => Nat.lt_of_lt_of_le hlimit h.instances
  guarded {free m id} hready hid hunguarded := by
    have hless := guarded_free_lt hid hunguarded
    exact ⟨free - 1, by omega, by omega, hready.2⟩
  released _ h := h

variable {limit free spare : Nat}

/-! ## The patience that an answer needs -/

/-- Questions that weigh no more than those about a declaration are answered lastingly, as long as there
is patience for all guards, all openings and the weight of the question. -/
def Enough (program : Program) (limit depth k : Nat) (ask : Asker) : Prop :=
  ∀ q free spare, q.weight ≤ depth + 1 → (free + spare) * (depth + 2) + q.weight < k →
    Lasts (spending program limit spare) free Ty (ask q)

/-- A guard or an opening leaves patience for any declaration. -/
theorem patience_left {depth k fewer spare' : Nat} (hless : fewer + spare' < free + spare)
    (hk : (free + spare) * (depth + 2) ≤ k) : (fewer + spare') * (depth + 2) + (depth + 1) < k := by
  have := Nat.mul_le_mul_right (depth + 2) (Nat.succ_le_of_lt hless)
  rw [Nat.succ_mul] at this
  omega

section
variable {ask : Asker} {depth k : Nat} (hdepth : depthOf program ≤ depth)
  (hmoves : ∀ q, Moves program Later Ty (ask q)) (hask : Enough program limit depth k ask)
include hdepth hmoves hask

/-- Questions about what is less deep than `height`. -/
theorem answers_lasts {height : Nat} (hpos : 0 < height) (hheight : height ≤ depth + 1)
    (hk : (free + spare) * (depth + 2) + height < k) :
    Answers (Lasts (spending program limit spare) free) ask fun n => n.height < height where
  inside hn k hk := Nat.lt_trans (Node.height_lt_of_mem_children hk) hn
  written env {t} ht := by
    have hweight : (Query.written env t).weight = t.height + 1 := rfl
    exact hask _ _ _ (by omega) (by omega)
  expression {e} he := by
    have hweight : (Query.expression e).weight = e.height + 1 := rfl
    exact hask _ _ _ (by omega) (by omega)
  symbol id := by
    have hweight : (Query.symbol id).weight = 0 := rfl
    exact hask _ _ _ (by omega) (by omega)
  members id name := by
    have hweight : (Query.members id name).weight = 1 := rfl
    exact hask _ _ _ (by omega) (by omega)
  named := lasts_namedType hmoves fun fewer hfewer env type htype => by
    have := patience_left (Nat.add_lt_add_right hfewer spare) (Nat.le_of_lt (Nat.lt_of_le_of_lt
      (Nat.le_add_right _ height) hk))
    have hweight : (Query.written env type).weight = type.height + 1 := rfl
    exact hask _ fewer spare (by omega) (by omega)

theorem lasts_interfaceMembers (hk : (free + spare) * (depth + 2) + (depth + 1) < k)
    (id : SymbolId) (env : Env) :
    Lasts (spending program limit spare) free (List (String × Ty) × Option Ty)
      (interfaceMembers ask env [] none (program.bindings.symbol id).declarations) := by
  have hA := answers_lasts hdepth hmoves hask (Nat.succ_pos depth) (Nat.le_refl _) hk
  refine compositional_lasts.interfaceMembers (hA.types env) _ _
    fun m ms name params heritage members h => ?_
  have inside {n : Node} (hn : n ∈ heritage ++ members) : n.height < depth + 1 := by
    have := declared_height_lt h hn
    omega
  refine ⟨fun base hbase => ?_, fun n hn => inside (List.mem_append_right _ hn)⟩
  exact compositional_lasts.bind (hA.written env (inside (List.mem_append_left _ hbase))) fun _ =>
    compositional_lasts.membersOf? hA.members _

/-- Looking for the members of an interface opens it. -/
theorem lasts_loadMembers (hk : (free + spare) * (depth + 2) < k) (id : ShapeId) :
    Lasts (spending program limit spare) free Unit (loadMembers ask id) where
  moves := (respects_later program).loadMembers hmoves id
  lasts m hready := lastsFrom_loadMembers fun source hsource => by
    obtain ⟨hfree, hspare⟩ := hready
    have hsymbol (free spare : Nat) (h : (free + spare) * (depth + 2) < k) (symbol : SymbolId) :
        Lasts (spending program limit spare) free Ty (ask (.symbol symbol)) :=
      hask _ _ _ (Nat.zero_le _) h
    have hopened := unopened_fill m id [] none
    rw [hsource, Option.any_some] at hopened
    have hspared (spare : Nat) (h : (m.fill id [] none).unopened + (m.spare limit - m.unopened) ≤ spare) :
        (m.fill id [] none).spare limit ≤ spare := by
      rwa [Memory.spare, Nat.add_sub_cancel_left] at h
    have hspare_eq : m.spare limit = m.unopened + (limit - m.interfaces.size) := rfl
    by_cases hclosed : (Members.pending source).isUnopened
    · -- One interface is open now, which is patience enough for its declarations.
      rw [if_pos hclosed] at hopened
      have hless : free + (spare - 1) < free + spare := by omega
      have hleft := patience_left hless (Nat.le_of_lt hk)
      refine (compositional_lasts.findMembers source (hsymbol free (spare - 1) (by omega)) ?_).lasts _
        ⟨hfree, hspared _ (by omega)⟩
      exact fun symbol env _ => lasts_interfaceMembers hdepth hmoves hask hleft symbol env
    · refine (compositional_lasts.findMembers source (hsymbol free spare hk) ?_).lasts _
        ⟨hfree, hspared _ (by omega)⟩
      rintro symbol env rfl
      exact absurd rfl hclosed

theorem lasts_step {q : Query} (hweight : q.weight ≤ depth + 1)
    (hk : (free + spare) * (depth + 2) + q.weight ≤ k) :
    Lasts (spending program limit spare) free Ty (step ask q) := by
  cases q with
  | symbol id =>
    refine lasts_symbolType hmoves (fun fewer hfewer => ?_) id
    have hA := answers_lasts hdepth hmoves hask (Nat.succ_pos depth) (Nat.le_refl _)
      (patience_left (Nat.add_lt_add_right hfewer spare) hk)
    have below {n : Node} (hn : n.height ≤ depthOf program) : n.height < depth + 1 := by omega
    exact {
      inside := fun hn k hk => Nat.le_trans (Nat.le_of_lt (Node.height_lt_of_mem_children hk)) hn
      written := fun env t ht => hA.written env (below ht)
      expression := fun ht => hA.expression (below ht)
      symbol := hA.symbol
      members := hA.members
      named := hA.named }
  | members id name =>
    have hload := lasts_loadMembers hdepth hmoves hask (Nat.lt_of_succ_le hk) id
    exact compositional_lasts.bind hload fun _ => compositional_lasts.pure _
  | expression e =>
    have hheight : e.height ≤ depth := Nat.le_of_succ_le_succ hweight
    exact lasts_expressionType hmoves
      (answers_lasts hdepth hmoves hask (height_pos e) (Nat.le_succ_of_le hheight) hk)
  | written env type =>
    have hA := answers_lasts hdepth hmoves hask (height_pos type)
      (Nat.le_of_succ_le hweight) hk
    have inside {n : Node} (h : n ∈ type.children) := Node.height_lt_of_mem_children h
    exact compositional_lasts.writtenType (hA.types env) (fun _ => inside)
      (fun _ he => hA.expression (inside (mem_children_of_mem_valuesOf he)))
      fun _ _ _ => hA.members

end

/-- An answer lasts if there is patience for guarding all free symbols and opening all interfaces, each
time for all of a declaration, and for the question. -/
theorem lasts_answer {depth : Nat} (hdepth : depthOf program ≤ depth) (n : Nat) :
    Enough program limit depth n (answer n) := by
  induction n with
  | zero => exact fun _ _ _ _ h => absurd h (Nat.not_lt_zero _)
  | succ n ih =>
    intro q free spare hweight hn
    exact lasts_step hdepth ((respects_later program).answer n) ih hweight (Nat.le_of_lt_succ hn)

/-- How deeply a question can lead into nodes. -/
def Query.depthIn (q : Query) (program : Program) : Nat :=
  max (depthOf program) (q.weight - 1)

/-- Whoever runs out of patience has made interfaces for it: one for every time that the patience is
more than it takes to guard all symbols, to open all interfaces and to go into a declaration. -/
theorem patience_le {n : Nat} {q : Query} {m after : Memory}
    (h : answer n q program m = .error .outOfFuel after) :
    n ≤ (m.free program + m.unopened + (after.interfaces.size - m.interfaces.size) + 1) *
      (q.depthIn program + 2) := by
  refine Nat.le_of_not_lt fun hn => ?_
  have hweight : q.weight ≤ q.depthIn program + 1 := by
    unfold Query.depthIn
    omega
  have henough : Enough program after.interfaces.size (q.depthIn program) n (answer n) :=
    lasts_answer (Nat.le_max_left _ _) n
  have hlasts := henough q (m.free program) (m.spare after.interfaces.size) hweight (by
    rw [Nat.succ_mul, Nat.add_assoc (m.free program)] at hn
    exact Nat.lt_of_le_of_lt (Nat.add_le_add_left (Nat.le_succ_of_le hweight) _) hn)
  exact Nat.lt_irrefl _ (hlasts.lasts m ⟨Nat.le_refl _, Nat.le_refl _⟩ after h)

end ScriptBridge.Typing
