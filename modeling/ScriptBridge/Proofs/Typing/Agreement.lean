import ScriptBridge.Proofs.Conversion.Results
import ScriptBridge.Proofs.Typing.Table

/-!
# The oracle agrees with a table

Each function of the oracle is run twice: by a run with a memory, asking the oracle, and from a blank
memory, asking a table. `Agree R w x y`: if both give a result, the results are related by `R`. The
numbers of the run may differ from those of the table, so `R` depends on the world of the run, which only
grows.

`Known` is what holds of the memory of a run at any time: every answer in it is what the table has, and
what is under way has a rank of at least that of the context. Nothing under way is asked for from below
that rank.

* `Known`, `Blank`: memories of a run, and of the table's side.
* `Agree`, `Agree.bind`: actions that agree.
* `agree_interfaceType`, `agree_newRecord`: object types, which are numbered as they are made.
-/

namespace ScriptBridge.Typing

open ScriptBridge.Binding ScriptBridge.TypeScript
open ScriptBridge.Conversion (bind_ok bind_of_ok)

namespace Table
variable (T : Table) (w : World)

/-- A type of a run is what a type of the table stands for. -/
abbrev Stands (t u : Ty) : Prop := Same w.reading T.reading t u

abbrev StandAll (ts us : List Ty) : Prop := SameAll w.reading T.reading ts us

abbrev StandNamed (ps qs : List (String × Ty)) : Prop := SameNamed w.reading T.reading ps qs

abbrev StandIndex (ix jx : Option Ty) : Prop := SameIndex w.reading T.reading ix jx

/-- The same members, apart from the numbers. -/
abbrev StandShape (a b : List (String × Ty) × Option Ty) : Prop :=
  T.StandNamed w a.1 b.1 ∧ T.StandIndex w a.2 b.2

/-- The same members, if there are any. -/
abbrev StandMembers (a b : Option (List (String × Ty) × Option Ty)) : Prop :=
  Option.Rel (T.StandShape w) a b

end Table

/-! ## Memories -/

/-- What is under way: the symbols that are being found, the declared types whose members are, and a rank
that they all have at least. -/
structure Context where
  rank : Nat
  resolving : List SymbolId
  loading : List ShapeId

/-- The memory of a run, in which every answer is what the table has. -/
structure Known (T : Table) (program : Program) (c : Context) (w : World) (m : Memory) : Prop where
  names : m.names = w.names
  size : m.members.size = w.labels.size
  arises : w.Arises program
  resolving : m.resolving = c.resolving
  resolvingAbove : ∀ id ∈ c.resolving, c.rank ≤ T.rank (.symbol id)
  loadingAbove : ∀ i ∈ c.loading, ∃ name, w.labels[i]? = some name ∧ c.rank ≤ T.rank (.members 0 name)
  expressions : ∀ {e : Node} {t u}, m.expressions[e.id]? = some t → T.types (.expression e) = some u →
    T.Stands w t u
  symbols : ∀ {id : SymbolId} {t u}, m.symbols[id]? = some t → T.types (.symbol id) = some u →
    T.Stands w t u
  interfaces : ∀ {id : SymbolId} {key : String} {t}, m.interfaces[(id, key)]? = some t →
    ∃ i : ShapeId, t = .declared i (instanceName program id key) ∧
      w.labels[i]? = some (instanceName program id key)
  pending : ∀ {i : ShapeId} {name source listed}, w.labels[i]? = some name →
    m.members[i]? = some (.pending source) → T.source name = some listed →
    SameSource w.reading T.reading source listed
  known : ∀ {i : ShapeId} {name ps ix listed}, w.labels[i]? = some name → i ∉ c.loading →
    m.members[i]? = some (.known ps ix) → T.members name = some listed →
    T.StandShape w (ps, ix) listed

/-- The memory of the table's side: nothing is under way, and its records are those of the table or have
no name. -/
structure Blank (T : Table) (program : Program) (m : Memory) : Prop where
  names : ∀ j : ShapeId, (m.names[j]?).join = (T.names[j]?).join
  size : T.names.size ≤ m.names.size
  resolving : m.resolving = []
  interfaces : ∀ {id : SymbolId} {key : String} {t}, m.interfaces[(id, key)]? = some t →
    ∃ j, t = .declared j (instanceName program id key)

variable {T : Table} {program : Program} {c : Context} {w w' : World} {m n : Memory} {α β γ δ : Type}

theorem World.Le.refl (w : World) : w.Le w :=
  ⟨id, id⟩

theorem World.Le.trans {w₁ w₂ w₃ : World} (h : w₁.Le w₂) (h' : w₂.Le w₃) : w₁.Le w₃ :=
  ⟨fun hi => h'.record (h.record hi), fun hi => h'.declared (h.declared hi)⟩

theorem SameSource.mono {source listed : MemberSource} (hw : w.Le w')
    (h : SameSource w.reading T.reading source listed) :
    SameSource w'.reading T.reading source listed := by
  cases h with
  | space id => exact .space id
  | file id => exact .file id
  | interfaces h => exact .interfaces (h.mono hw)

/-- One more declared type. -/
def World.declare (w : World) (name : String) : World :=
  { w with labels := w.labels.push name }

/-- One more record. -/
def World.enter (w : World) (name : Option String) : World :=
  { w with names := w.names.push name }

theorem World.le_declare (w : World) (name : String) : w.Le (w.declare name) where
  record h := h
  declared {i label} h := by
    have hi : i < w.labels.size := (Array.getElem?_eq_some_iff.mp h).1
    show (w.labels.push name)[i]? = some label
    rw [Array.getElem?_push_lt hi, ← h, Array.getElem?_eq_getElem hi]

theorem World.le_enter (w : World) (name : Option String) : w.Le (w.enter name) where
  declared h := h
  record {i label} h := by
    have hi : i < w.names.size := (Array.getElem?_eq_some_iff.mp h).1
    show (w.names.push name)[i]? = some label
    rw [Array.getElem?_push_lt hi, ← h, Array.getElem?_eq_getElem hi]

theorem World.reading_fits (w : World) : w.reading.Fits w.names := by
  intro i name h
  show (w.names[i]?).join = name
  rw [show w.names[i]? = some name from h]
  rfl

theorem Known.fits (hm : Known T program c w m) : w.reading.Fits m.names :=
  hm.names ▸ w.reading_fits

theorem Blank.fits (hn : Blank T program n) : T.reading.Fits n.names :=
  fun j _ h => (hn.names j).trans h

theorem Table.reading_functional (T : Table) : T.reading.Functional where
  record h h' := h.symm.trans h'

theorem blank_start (T : Table) (program : Program) : Blank T program T.start where
  names _ := rfl
  size := Nat.le_refl _
  resolving := rfl
  interfaces h := by simp [Table.start] at h

theorem instanceName_ne_empty {id : SymbolId} (h : (program.bindings.symbol id).name ≠ "")
    (key : String) : instanceName program id key ≠ "" := by
  unfold instanceName
  dsimp only
  split
  · exact h
  · simp

theorem World.Arises.named (H : T.Holds program) (hw : w.Arises program) : w.reading.Named where
  record {i name} h := by
    obtain ⟨id, hk, rfl⟩ := hw.names i name h
    exact H.named (.inr hk)
  declared {i name} h := by
    obtain ⟨id, rfl⟩ | ⟨id, rfl⟩ | ⟨id, key, hk, rfl⟩ := hw.labels i name h
    · simp [spaceName]
    · show "typeof import(\"" ++ (program.file id).source.fileName ++ "\")" ≠ ""
      simp
    · exact instanceName_ne_empty (H.named (.inl hk)) key

/-- A declared type with a name of its own is added. -/
theorem Known.declare (hm : Known T program c w m) {name : String} {source : MemberSource}
    (hname : (w.declare name).Arises program)
    (hsource : ∀ listed, T.source name = some listed → SameSource w.reading T.reading source listed) :
    Known T program c (w.declare name) { m with members := m.members.push (.pending source) } := by
  have hw := w.le_declare name
  have old {i : ShapeId} {label : String} (hi : (w.declare name).labels[i]? = some label) :
      (i = w.labels.size ∧ label = name) ∨ w.labels[i]? = some label ∧ i ≠ w.labels.size := by
    have hi : (w.labels.push name)[i]? = some label := hi
    rw [Array.getElem?_push] at hi
    split at hi
    · exact .inl ⟨‹_›, (Option.some.inj hi).symm⟩
    · exact .inr ⟨hi, ‹_›⟩
  exact {
    names := hm.names
    size := by simp only [Array.size_push, hm.size, World.declare]
    arises := hname
    resolving := hm.resolving
    resolvingAbove := hm.resolvingAbove
    loadingAbove := fun i hi => by
      obtain ⟨label, hl, hr⟩ := hm.loadingAbove i hi
      exact ⟨label, hw.declared hl, hr⟩
    expressions := fun h h' => (hm.expressions h h').mono hw
    symbols := fun h h' => (hm.symbols h h').mono hw
    interfaces := fun h => by
      obtain ⟨i, ht, hi⟩ := hm.interfaces h
      exact ⟨i, ht, hw.declared hi⟩
    pending := fun hi h hl => by
      simp only [Array.getElem?_push, hm.size] at h
      obtain ⟨rfl, rfl⟩ | ⟨hi, hne⟩ := old hi
      · rw [if_pos rfl] at h
        cases h
        exact (hsource _ hl).mono hw
      · rw [if_neg hne] at h
        exact (hm.pending hi h hl).mono hw
    known := fun hi hloading h hl => by
      simp only [Array.getElem?_push, hm.size] at h
      obtain ⟨rfl, rfl⟩ | ⟨hi, hne⟩ := old hi
      · rw [if_pos rfl] at h
        cases h
      · rw [if_neg hne] at h
        obtain ⟨hp, hx⟩ := hm.known hi hloading h hl
        exact ⟨hp.mono hw, hx.mono hw⟩ }

/-- A record is added. -/
theorem Known.enter (hm : Known T program c w m) {name : Option String}
    (hname : (w.enter name).Arises program) :
    Known T program c (w.enter name) { m with names := m.names.push name } := by
  have hw := w.le_enter name
  exact {
    names := congrArg (·.push name) hm.names
    size := hm.size
    arises := hname
    resolving := hm.resolving
    resolvingAbove := hm.resolvingAbove
    loadingAbove := hm.loadingAbove
    expressions := fun h h' => (hm.expressions h h').mono hw
    symbols := fun h h' => (hm.symbols h h').mono hw
    interfaces := hm.interfaces
    pending := fun hi h hl => (hm.pending hi h hl).mono hw
    known := fun hi hloading h hl => by
      obtain ⟨hp, hx⟩ := hm.known hi hloading h hl
      exact ⟨hp.mono hw, hx.mono hw⟩ }

theorem World.Arises.declare (h : w.Arises program) {name : String}
    (hname : (∃ id, name = spaceName program id) ∨ (∃ id, name = moduleName program id) ∨
      ∃ id key, (program.bindings.symbol id).kind = .interfaceType ∧ name = instanceName program id key) :
    (w.declare name).Arises program where
  labels i label hi := by
    have hi : (w.labels.push name)[i]? = some label := hi
    rw [Array.getElem?_push] at hi
    split at hi
    · exact Option.some.inj hi ▸ hname
    · exact h.labels i label hi
  names := h.names

theorem World.Arises.enter (h : w.Arises program) {name : Option String}
    (hname : ∀ label, name = some label →
      ∃ id, (program.bindings.symbol id).kind = .aliasType ∧ label = (program.bindings.symbol id).name) :
    (w.enter name).Arises program where
  labels := h.labels
  names i label hi := by
    have hi : (w.names.push name)[i]? = some (some label) := hi
    rw [Array.getElem?_push] at hi
    split at hi
    · exact hname label (Option.some.inj hi)
    · exact h.names i label hi

/-! ## Actions that agree -/

/-- If the action of the table's side gives a result, then so does that of the run: a related one, in a
world that may have grown. -/
def Agree (T : Table) (program : Program) (c : Context) (R : World → α → β → Prop) (w : World)
    (x : TypeM α) (y : TypeM β) : Prop :=
  ∀ m n b n', Known T program c w m → Blank T program n → y program n = .ok b n' →
    ∃ w' a m', w.Le w' ∧ x program m = .ok a m' ∧ Known T program c w' m' ∧ Blank T program n' ∧ R w' a b

section
variable {R : World → α → β → Prop} {S : World → γ → δ → Prop}

theorem agree_pure {a : α} {b : β} (h : R w a b) : Agree T program c R w (pure a) (pure b) := by
  intro m n b' n' hm hn hy
  cases hy
  exact ⟨w, a, m, .refl w, rfl, hm, hn, h⟩

theorem agree_throw (x : TypeM α) (fault : TypeFault) : Agree T program c R w x (throw fault) := by
  intro m n b n' hm hn hy
  cases hy

theorem Agree.bind {x : TypeM α} {y : TypeM β} {f : α → TypeM γ} {g : β → TypeM δ}
    (hx : Agree T program c R w x y)
    (hf : ∀ w' a b, w.Le w' → R w' a b → Agree T program c S w' (f a) (g b)) :
    Agree T program c S w (x >>= f) (y >>= g) := by
  intro m n b n' hm hn h
  obtain ⟨b₁, n₁, h₁, h₂⟩ := bind_ok h
  obtain ⟨w₁, a₁, m₁, hw₁, hx₁, hm₁, hn₁, hR⟩ := hx m n b₁ n₁ hm hn h₁
  obtain ⟨w₂, a₂, m₂, hw₂, hx₂, hm₂, hn₂, hS⟩ := hf w₁ a₁ b₁ hw₁ hR m₁ n₁ b n' hm₁ hn₁ h₂
  exact ⟨w₂, a₂, m₂, hw₁.trans hw₂, (bind_of_ok hx₁ f).trans hx₂, hm₂, hn₂, hS⟩

theorem agree_get_bind {f : Memory → TypeM α} {g : Memory → TypeM β}
    (h : ∀ m n, Known T program c w m → Blank T program n → Agree T program c R w (f m) (g n)) :
    Agree T program c R w (get >>= f) (get >>= g) :=
  fun m n b n' hm hn hy => h m n hm hn m n b n' hm hn hy

theorem agree_read_bind {f : Program → TypeM α} {g : Program → TypeM β}
    (h : Agree T program c R w (f program) (g program)) :
    Agree T program c R w (read >>= f) (read >>= g) :=
  fun m n b n' hm hn hy => h m n b n' hm hn hy

theorem agree_orFault {x : Except TypeFault α} {y : Except TypeFault β}
    (h : ∀ b, y = .ok b → ∃ a, x = .ok a ∧ R w a b) :
    Agree T program c R w (orFault x) (orFault y) := by
  cases y with
  | error fault => exact agree_throw _ _
  | ok b =>
    obtain ⟨a, rfl, hab⟩ := h b rfl
    exact agree_pure hab

theorem agree_orNumeralFault {x : Except NumeralFault α} {R : World → α → α → Prop}
    (h : ∀ a, R w a a) : Agree T program c R w (orNumeralFault x) (orNumeralFault x) := by
  cases x with
  | error fault => exact agree_throw _ _
  | ok a => exact agree_pure (h a)

theorem agree_mapM {f g : α → TypeM Ty}
    (h : ∀ w' a, w.Le w' → Agree T program c T.Stands w' (f a) (g a)) (as : List α) :
    Agree T program c (fun w' ts us => T.StandAll w' ts us ∧ us.length = as.length) w (as.mapM f)
      (as.mapM g) := by
  induction as generalizing w with
  | nil => exact agree_pure ⟨.nil, rfl⟩
  | cons a as ih =>
    rw [List.mapM_cons, List.mapM_cons]
    refine (h w a (.refl w)).bind fun w₁ t u hw₁ ht => ?_
    refine (ih fun w' a hw' => h w' a (hw₁.trans hw')).bind fun w₂ ts us hw₂ hts => ?_
    exact agree_pure ⟨.cons (ht.mono hw₂) hts.1, congrArg (· + 1) hts.2⟩

theorem agree_mapM_types {f g : Ty → TypeM Ty} {ts us : List Ty} (hts : T.StandAll w ts us)
    (h : ∀ w' t u, w.Le w' → T.Stands w' t u → Agree T program c T.Stands w' (f t) (g u)) :
    Agree T program c T.StandAll w (ts.mapM f) (us.mapM g) := by
  induction ts generalizing us w with
  | nil => cases hts; exact agree_pure .nil
  | cons t ts ih =>
    cases hts with
    | @cons _ u _ us ht hts =>
      rw [List.mapM_cons, List.mapM_cons]
      refine (h w t u (.refl w) ht).bind fun w₁ t' u' hw₁ ht' => ?_
      refine (ih (hts.mono hw₁) fun w' t u hw' => h w' t u (hw₁.trans hw')).bind
        fun w₂ ts' us' hw₂ hts' => ?_
      exact agree_pure (.cons (ht'.mono hw₂) hts')

end

/-! ## Making types -/

theorem agree_join {ts us : List Ty} (h : T.StandAll w ts us) :
    Agree T program c T.Stands w (join ts) (join us) :=
  agree_get_bind fun _ _ hm hn => agree_orFault fun _ hu => unionOf_same hm.fits hn.fits h hu

theorem agree_widened {t u : Ty} (h : T.Stands w t u) :
    Agree T program c T.Stands w (widened t) (widened u) :=
  agree_get_bind fun _ _ hm hn => agree_orFault fun _ hu => widen_same hm.fits hn.fits h hu

theorem agree_withoutNullish {t u : Ty} (h : T.Stands w t u) :
    Agree T program c T.Stands w (withoutNullish t) (withoutNullish u) :=
  agree_get_bind fun _ _ hm hn => agree_orFault fun _ hu => removeNullish_same hm.fits hn.fits h hu

theorem Blank.enter (hn : Blank T program n) : Blank T program { n with names := n.names.push none } where
  names j := by
    rw [Array.getElem?_push]
    split
    · rename_i hj
      rw [Array.getElem?_eq_none (hj ▸ hn.size)]
      rfl
    · exact hn.names j
  size := by
    rw [Array.size_push]
    exact Nat.le_succ_of_le hn.size
  resolving := hn.resolving
  interfaces := hn.interfaces

theorem agree_newRecord {ps qs : List (String × Ty)} {ix jx : Option Ty} (hp : T.StandNamed w ps qs)
    (hx : T.StandIndex w ix jx) :
    Agree T program c T.Stands w (newRecord ps ix) (newRecord qs jx) := by
  intro m n b n' hm hn hy
  cases hy
  have hw := w.le_enter none
  have hnone : (w.enter none).Arises program := hm.arises.enter fun _ h => by cases h
  have hknown := hm.enter hnone
  refine ⟨w.enter none, _, _, hw, rfl, hknown, hn.enter, ?_⟩
  have hi : (w.enter none).reading.record m.names.size none := by
    show (w.names.push none)[m.names.size]? = some none
    rw [hm.names, Array.getElem?_push_size]
  have hj : T.reading.record n.names.size none := by
    show (T.names[n.names.size]?).join = none
    rw [Array.getElem?_eq_none hn.size]
    rfl
  exact .record hi hj (hp.mono hw) (hx.mono hw)

/-! ## Interfaces -/

theorem key_eq_empty_iff {r s : Reading} {names : RecordNames} {args others : List Ty}
    {texts : List String} (hn : r.Named) (hr : r.Fits names) (h : SameAll r s args others)
    (ht : Ty.texts names args = .ok texts) : ", ".intercalate texts = "" ↔ args.isEmpty = true := by
  cases h with
  | nil =>
    cases ht
    exact ⟨fun _ => rfl, fun _ => rfl⟩
  | cons hfirst _ =>
    simp only [Ty.texts, bind, Except.bind] at ht
    split at ht
    · cases ht
    rename_i first hf
    split at ht
    · cases ht
    cases ht
    exact ⟨fun he => absurd he (intercalate_ne_empty (hfirst.text_ne_empty hn hr hf) _ _),
      fun he => by cases he⟩

/-- The name that an instance of an interface is given. -/
theorem instanceName_eq {id : SymbolId} {args : List Ty} {key : String}
    (h : key = "" ↔ args.isEmpty = true) :
    (if args.isEmpty then (program.bindings.symbol id).name
      else (program.bindings.symbol id).name ++ "<" ++ key ++ ">") = instanceName program id key := by
  unfold instanceName
  dsimp only
  by_cases hk : key = ""
  · rw [if_pos hk, if_pos (h.mp hk)]
  · rw [if_neg hk, if_neg (mt h.mpr hk)]

theorem orFault_ok {x : Except TypeFault α} {a : α} {m m' : Memory}
    (h : orFault x program m = .ok a m') : x = .ok a ∧ m' = m := by
  cases x with
  | error fault => cases h
  | ok b =>
    cases h
    exact ⟨rfl, rfl⟩

/-- An instance of an interface is remembered. -/
theorem Known.register (hm : Known T program c w m) {id : SymbolId} {key : String} {i : ShapeId}
    (hi : w.labels[i]? = some (instanceName program id key)) :
    Known T program c w { m with
      interfaces := m.interfaces.insert (id, key) (.declared i (instanceName program id key)) } :=
  { hm with
    interfaces := fun {other key' t} h => by
      rw [Std.HashMap.getElem?_insert] at h
      split at h
      · rename_i he
        obtain ⟨rfl, rfl⟩ := Prod.mk.inj (eq_of_beq he)
        cases h
        exact ⟨i, rfl, hi⟩
      · exact hm.interfaces h }

/-- In a run, an instance of an interface is a declared type that has its name. -/
theorem Known.interfaceType (H : T.Holds program) (hm : Known T program c w m) {id : SymbolId}
    {args us : List Ty} {texts : List String}
    (hk : (program.bindings.symbol id).kind = .interfaceType) (h : T.StandAll w args us)
    (htexts : Ty.texts m.names args = .ok texts) :
    ∃ w' i m', w.Le w' ∧ interfaceType id args program m =
        .ok (.declared i (instanceName program id (", ".intercalate texts))) m' ∧
      Known T program c w' m' ∧
      w'.labels[i]? = some (instanceName program id (", ".intercalate texts)) := by
  unfold Typing.interfaceType
  rw [bind_of_ok (show (get : TypeM Memory) program m = .ok m m from rfl), htexts,
    bind_of_ok (show orFault (.ok texts) program m = .ok texts m from rfl)]
  dsimp only
  cases hcached : m.interfaces[(id, ", ".intercalate texts)]? with
  | some t =>
    obtain ⟨i, rfl, hi⟩ := hm.interfaces hcached
    exact ⟨w, i, m, .refl w, rfl, hm, hi⟩
  | none =>
    have htexts' : Ty.texts w.names args = .ok texts := hm.names ▸ htexts
    have hknown := hm.declare (hm.arises.declare (.inr (.inr ⟨id, ", ".intercalate texts, hk, rfl⟩)))
      fun listed hl => H.source hm.arises (.interfaces hk h htexts') hl
    have hlabel : (w.declare (instanceName program id (", ".intercalate texts))).labels[m.members.size]? =
        some (instanceName program id (", ".intercalate texts)) := by
      rw [hm.size]
      exact Array.getElem?_push_size
    refine ⟨_, m.members.size, _, w.le_declare _, ?_, hknown.register hlabel, hlabel⟩
    rw [← instanceName_eq (key_eq_empty_iff (hm.arises.named H) hm.fits h htexts)]
    rfl

/-- On the table's side too. -/
theorem Blank.interfaceType (hn : Blank T program n) {id : SymbolId} {us : List Ty} {b : Ty}
    {n' : Memory} (hkey : ∀ texts, Ty.texts n.names us = .ok texts →
      (", ".intercalate texts = "" ↔ us.isEmpty = true))
    (hy : interfaceType id us program n = .ok b n') :
    ∃ texts j, Ty.texts n.names us = .ok texts ∧ Blank T program n' ∧
      b = .declared j (instanceName program id (", ".intercalate texts)) := by
  obtain ⟨_, _, h₁, hy⟩ := bind_ok hy
  cases h₁
  obtain ⟨texts, n₁, h₁, hy⟩ := bind_ok hy
  obtain ⟨htexts, rfl⟩ := orFault_ok h₁
  dsimp only at hy
  cases hcached : n₁.interfaces[(id, ", ".intercalate texts)]? with
  | some t =>
    rw [hcached] at hy
    cases hy
    obtain ⟨j, ht⟩ := hn.interfaces hcached
    exact ⟨texts, j, htexts, hn, ht⟩
  | none =>
    rw [hcached] at hy
    obtain ⟨_, _, h₁, hy⟩ := bind_ok hy
    cases h₁
    rw [instanceName_eq (hkey texts htexts)] at hy
    cases hy
    refine ⟨texts, n₁.members.size, htexts, ?_, rfl⟩
    exact {
      names := hn.names
      size := hn.size
      resolving := hn.resolving
      interfaces := fun {id' key' t} h => by
        rw [Std.HashMap.getElem?_insert] at h
        split at h
        · rename_i he
          obtain ⟨rfl, rfl⟩ := Prod.mk.inj (eq_of_beq he)
          cases h
          exact ⟨_, rfl⟩
        · exact hn.interfaces h }

theorem agree_interfaceType (H : T.Holds program) {id : SymbolId} {args us : List Ty}
    (hk : (program.bindings.symbol id).kind = .interfaceType) (h : T.StandAll w args us) :
    Agree T program c T.Stands w (interfaceType id args) (interfaceType id us) := by
  intro m n b n' hm hn hy
  have heq : Ty.texts n.names us = Ty.texts m.names args := (h.texts_eq hm.fits hn.fits).symm
  have hempty : args.isEmpty = us.isEmpty := by
    cases h <;> rfl
  obtain ⟨texts, j, htexts, hn', rfl⟩ := hn.interfaceType
    (fun texts ht => hempty ▸ key_eq_empty_iff (hm.arises.named H) hm.fits h (heq ▸ ht)) hy
  obtain ⟨w', i, m', hw, hx, hm', hi⟩ := hm.interfaceType H hk h (heq ▸ htexts)
  exact ⟨w', _, m', hw, hx, hm', hn', .declared hi trivial⟩

theorem agree_builtIn? (H : T.Holds program) (name : String) {args us : List Ty}
    (h : T.StandAll w args us) :
    Agree T program c T.StandIndex w (builtIn? name args) (builtIn? name us) := by
  refine agree_read_bind ?_
  dsimp only
  split
  · split
    · rename_i hk
      exact (agree_interfaceType H hk h).bind fun _ _ _ _ ht => agree_pure (.some ht)
    · exact agree_pure .none
  · exact agree_pure .none

theorem agree_propertyHolder? (H : T.Holds program) {t u : Ty} (h : T.Stands w t u) :
    Agree T program c T.StandIndex w (propertyHolder? t) (propertyHolder? u) := by
  cases h with
  | array h => exact agree_builtIn? H _ (.cons h .nil)
  | tuple h => exact (agree_join h).bind fun _ _ _ _ ht => agree_builtIn? H _ (.cons ht .nil)
  | textLiteral value => exact agree_builtIn? H _ .nil
  | numberLiteral value => exact agree_builtIn? H _ .nil
  | primitive p =>
    cases p with
    | string => exact agree_builtIn? H _ .nil
    | number => exact agree_builtIn? H _ .nil
    | _ => exact agree_pure .none
  | record hi hj hp hx => exact agree_pure (.some (.record hi hj hp hx))
  | declared hi hj => exact agree_pure (.some (.declared hi hj))
  | truthLiteral value => exact agree_pure .none
  | function hp h => exact agree_pure .none
  | union hl h => exact agree_pure .none

/-! ## Elements and calls -/

theorem agree_elementOfMember (index : Option Nat) {t u : Ty} (h : T.Stands w t u) :
    Agree T program c T.Stands w (elementOfMember index t) (elementOfMember index u) := by
  cases h with
  | array h => exact agree_pure h
  | @tuple ts us h =>
    simp only [elementOfMember]
    cases index with
    | none => exact agree_join h
    | some i =>
      have hi := h.getElem? i
      simp only [Option.bind_some]
      revert hi
      generalize ts[i]? = a, us[i]? = b
      rintro (_ | hi)
      · exact agree_join h
      · exact agree_pure hi
  | textLiteral value => exact agree_pure (.primitive .string)
  | primitive p =>
    cases p with
    | string => exact agree_pure (.primitive .string)
    | _ => exact agree_pure (.primitive .any)
  | _ => exact agree_pure (.primitive .any)

theorem agree_elementOf (index : Option Nat) {t u : Ty} (h : T.Stands w t u) :
    Agree T program c T.Stands w (elementOf index t) (elementOf index u) := by
  cases h with
  | union hl h =>
    exact (agree_mapM_types h.present fun _ _ _ _ ht => agree_elementOfMember index ht).bind
      fun _ _ _ _ hts => agree_join hts
  | array h => exact agree_elementOfMember index (.array h)
  | tuple h => exact agree_elementOfMember index (.tuple h)
  | textLiteral value => exact agree_elementOfMember index (.textLiteral value)
  | primitive p => exact agree_elementOfMember index (.primitive p)
  | _ => exact agree_pure (.primitive .any)

theorem agree_resultOf {t u : Ty} (h : T.Stands w t u) :
    Agree T program c T.Stands w (resultOf t) (resultOf u) := by
  cases h with
  | function hp h => exact agree_pure h
  | union hl h =>
    have hresults := h.results?
    simp only [resultOf]
    revert hresults
    generalize results? _ = a, results? _ = b
    rintro (hts | _)
    · exact agree_join hts
    · exact agree_pure (.primitive .any)
  | _ => exact agree_pure (.primitive .any)

theorem agree_prefixType (operator : String) (operand : Node) :
    Agree T program c T.Stands w (prefixType operator operand) (prefixType operator operand) := by
  unfold prefixType
  split
  · exact agree_pure (.primitive .boolean)
  split
  · split
    · exact (agree_orNumeralFault (R := fun _ a b => a = b) fun _ => rfl).bind fun _ a b _ h => by
        cases (show a = b from h)
        exact agree_pure (.numberLiteral _)
    · split
      · exact (agree_orNumeralFault (R := fun _ a b => a = b) fun _ => rfl).bind fun _ a b _ h => by
          cases (show a = b from h)
          exact agree_pure (.numberLiteral _)
      · exact agree_pure (.primitive .number)
  · exact agree_pure (.primitive .number)

/-- What a name stands for that is not that of an alias. -/
theorem agree_namedType (H : T.Holds program) {id : SymbolId} {args us : List Ty}
    (halias : ∀ m modifiers name params type, (program.bindings.symbol id).kind = .aliasType →
      (program.bindings.symbol id).declaration ≠ .typeAlias m modifiers name params type)
    (h : T.StandAll w args us) (ask ask' : Asker) :
    Agree T program c T.Stands w (namedType ask id args) (namedType ask' id us) := by
  refine agree_read_bind ?_
  dsimp only
  split
  · exact agree_interfaceType H ‹_› h
  · rename_i hk hd
    exact absurd hd (halias _ _ _ _ _ hk)
  · exact agree_pure (.primitive .any)

theorem agree_combinedType (operator : String) {t u t' u' : Ty} (h : T.Stands w t u)
    (h' : T.Stands w t' u') :
    Agree T program c T.Stands w (combinedType operator t t') (combinedType operator u u') := by
  have sum : T.Stands w (sumType t t') (sumType u u') := by
    have hmakes {t u : Ty} (h : T.Stands w t u) : makesString t = makesString u := by
      simp only [makesString, h.fits_eq, h.isNever_eq, h.isNullish_eq]
    simp only [sumType, h.isAny_eq, h'.isAny_eq, hmakes h, hmakes h', h.fits_eq, h'.fits_eq]
    split
    · exact .primitive .any
    split
    · exact .primitive .string
    split
    · exact .primitive .number
    · exact .primitive .any
  have both : Agree T program c T.Stands w
      (if t.isBoolean && t'.isBoolean then pure (.primitive .boolean) else join [t, t'])
      (if u.isBoolean && u'.isBoolean then pure (.primitive .boolean) else join [u, u']) := by
    rw [h.isBoolean_eq, h'.isBoolean_eq]
    split
    · exact agree_pure (.primitive .boolean)
    · exact agree_join (.cons h (.cons h' .nil))
  have either : Agree T program c T.Stands w (do join [← withoutNullish t, t'])
      (do join [← withoutNullish u, u']) :=
    (agree_withoutNullish h).bind fun _ _ _ hw ht => agree_join (.cons ht (.cons (h'.mono hw) .nil))
  unfold combinedType
  split
  · exact agree_pure sum
  · exact agree_pure sum
  · exact both
  · exact both
  · exact either
  · exact either
  · exact either
  · exact either
  · exact agree_pure (.primitive .any)

theorem agree_newDeclared {name : String} {source : MemberSource}
    (hname : (∃ id, name = spaceName program id) ∨ (∃ id, name = moduleName program id) ∨
      ∃ id key, (program.bindings.symbol id).kind = .interfaceType ∧ name = instanceName program id key)
    (hsource : ∀ w : World, w.Arises program → ∀ listed, T.source name = some listed →
      SameSource w.reading T.reading source listed) :
    Agree T program c T.Stands w (newDeclared name source) (newDeclared name source) := by
  intro m n b n' hm hn hy
  cases hy
  have hknown := hm.declare (hm.arises.declare hname) (hsource w hm.arises)
  refine ⟨_, _, _, w.le_declare name, rfl, hknown, ?_, ?_⟩
  · exact { names := hn.names, size := hn.size, resolving := hn.resolving, interfaces := hn.interfaces }
  · refine .declared ?_ trivial
    show (w.labels.push name)[m.members.size]? = some name
    rw [hm.size, Array.getElem?_push_size]

end ScriptBridge.Typing
