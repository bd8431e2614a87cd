import ScriptBridge.Proofs.Typing.Patience
import ScriptBridge.Proofs.Typing.Ranking

/-!
# Ranked programs take no more patience than they have declarations

Where the interfaces of a program are ranked, each question leads to one about fewer symbols that are not
guarded, about fewer interfaces without arguments whose members were never looked for, about an
interface of lower rank, or about what is inside a node. None of these can get larger again, whatever
interfaces are made meanwhile.

* `Memory.closed`: the interfaces without arguments that are left to be opened.
* `descending`: the terms under which nothing runs out of patience.
* `Ranking.suffices_answer`, `Ranking.patience_le`: the patience that an answer takes at most.
-/

namespace ScriptBridge.Typing

open ScriptBridge.Binding ScriptBridge.TypeScript

variable {α : Type} {program : Program}

/-! ## Interfaces without arguments -/

/-- Whether the members of an interface without arguments were looked for. -/
def Memory.isOpened (m : Memory) (id : SymbolId) : Bool :=
  match m.interfaces[(id, "")]? with
  | some (.declared s _) => m.members[s]?.any fun
    | .known .. => true
    | .pending _ => false
  | _ => false

/-- How many interfaces without arguments are left to be opened. -/
def Memory.closed (m : Memory) (program : Program) : Nat :=
  (List.range program.bindings.symbols.size).countP (!m.isOpened ·)

theorem isOpened_iff {m : Memory} {id : SymbolId} : m.isOpened id = true ↔
    ∃ s name properties index, m.interfaces[(id, "")]? = some (.declared s name) ∧
      m.members[s]? = some (.known properties index) := by
  constructor
  · intro h
    unfold Memory.isOpened at h
    split at h
    · rename_i s name hmade
      cases hs : m.members[s]? with
      | none =>
        rw [hs] at h
        cases h
      | some members =>
        rw [hs] at h
        cases members with
        | pending => cases h
        | known properties index => exact ⟨s, name, properties, index, hmade, hs⟩
    · cases h
  · rintro ⟨s, name, properties, index, hmade, hs⟩
    rw [Memory.isOpened, hmade]
    dsimp only
    rw [hs]
    rfl

/-- What was opened stays open. -/
theorem Onward.isOpened {m m' : Memory} (h : Onward m m') {id : SymbolId} (hopened : m.isOpened id = true) :
    m'.isOpened id = true := by
  obtain ⟨s, name, properties, index, hmade, hs⟩ := isOpened_iff.mp hopened
  obtain ⟨hlt, -⟩ := Array.getElem?_eq_some_iff.mp hs
  have hlt' : s < m'.members.size := Nat.lt_of_lt_of_le hlt h.size
  cases hafter : m'.members[s]? with
  | none => exact absurd (Array.getElem?_eq_none_iff.mp hafter) (Nat.not_le_of_lt hlt')
  | some members =>
    cases members with
    | pending source =>
      rw [h.pending hlt hafter] at hs
      cases hs
    | known properties index =>
      exact isOpened_iff.mpr ⟨s, name, properties, index, h.interfaces hmade, hafter⟩

theorem Onward.closed_le {m m' : Memory} (h : Onward m m') : m'.closed program ≤ m.closed program :=
  List.countP_mono_left fun id _ hclosed => by
    rw [Bool.not_eq_true'] at hclosed ⊢
    exact Bool.eq_false_iff.mpr fun hopened => Bool.eq_false_iff.mp hclosed (h.isOpened hopened)

/-- Opening an interface without arguments leaves one fewer. -/
theorem opened_closed_lt {m : Memory} {id : SymbolId} {s : ShapeId} {name : String} {source : MemberSource}
    (hid : id < program.bindings.symbols.size)
    (hmade : m.interfaces[(id, "")]? = some (.declared s name))
    (hs : m.members[s]? = some (.pending source)) :
    (m.fill s [] none).closed program < m.closed program := by
  have hafter : (m.fill s [] none).isOpened id = true :=
    isOpened_iff.mpr ⟨s, name, [], none, hmade, by simp [Memory.fill, Array.getElem?_modify, hs]⟩
  have hbefore : m.isOpened id = false := Bool.eq_false_iff.mpr fun hopened => by
    obtain ⟨s', name', properties, index, hmade', hs'⟩ := isOpened_iff.mp hopened
    rw [hmade] at hmade'
    cases hmade'
    rw [hs] at hs'
    cases hs'
  refine countP_lt (fun other _ h => ?_) (List.mem_range.mpr hid) (by simp [hafter]) (by simp [hbefore])
  rw [Bool.not_eq_true'] at h ⊢
  exact Bool.eq_false_iff.mpr fun hopened =>
    Bool.eq_false_iff.mp h ((onward_fill m s [] none).isOpened hopened)

/-! ## Terms without excuses -/

/-- An action lasts from every orderly memory in which no more than a number of symbols are not guarded
and interfaces without arguments are not opened. -/
def descending (program : Program) : Terms program where
  Moved m m' := Later m m' ∧ Onward m m' ∧ (Orderly program m → Orderly program m')
  respects := (respects_later program).and ((respects_onward program).and (respects_orderly program))
  Ready free m := Orderly program m ∧ m.free program + m.closed program ≤ free
  Excused _ := False
  ready := by
    rintro free m m' ⟨hlater, honward, horderly⟩ ⟨hm, hfree⟩
    refine .inl ⟨horderly hm, Nat.le_trans ?_ hfree⟩
    rw [hlater.free_eq]
    exact Nat.add_le_add_left honward.closed_le _
  excused _ h := h
  guarded {free m id} hready hid hunguarded := by
    have hless := guarded_free_lt hid hunguarded
    have hclosed : Memory.closed { m with resolving := id :: m.resolving } program = m.closed program :=
      rfl
    have := hready.2
    exact ⟨free - 1, by omega, ⟨hready.1.made, hready.1.params⟩, by omega⟩
  released _ h := h

/-- What is left after an action that has ended. -/
theorem ready_after {x : TypeM α} (hx : Moves program (descending program).Moved α x) {free : Nat}
    {m m' : Memory} (hready : (descending program).Ready free m) {a : α}
    (hrun : x program m = .ok a m') : (descending program).Ready free m' ∧ Onward m m' := by
  have hmoved := hx m
  rw [hrun] at hmoved
  exact ⟨((descending program).ready hmoved hready).resolve_right id, hmoved.2.1⟩

namespace Ranking
variable (R : Ranking program)

/-- The questions that may be asked while the members of an interface of a rank are looked for. -/
def Allows (rank : Nat) (m : Memory) : Query → Prop
  | .symbol _ => True
  | .expression e => rank = R.top + 1 ∨ isName e = true
  | .written env type =>
    rank = R.top + 1 ∨ ∃ params, StandsFor env params ∧ IsTame program R.rank params rank type
  | .members s _ => OpensBelow R.rank rank m s

/-- The patience for guarding symbols, for opening interfaces without arguments and for going down from a
rank, each time for all of a declaration. -/
def stock (free rank depth : Nat) : Nat :=
  (free * (R.top + 2) + rank) * (depth + 2)

/-- Allowed questions that weigh no more than those about a declaration are answered lastingly if there is
patience for them. -/
def Suffices (depth k : Nat) (ask : Asker) : Prop :=
  ∀ {q free rank m}, q.weight ≤ depth + 1 → rank ≤ R.top + 1 →
    R.stock free rank depth + q.weight < k → (descending program).Ready free m → R.Allows rank m q →
      LastsFrom (descending program) m (ask q)

/-- At the top every object type may be opened. -/
theorem opensBelow_top (m : Memory) (s : ShapeId) : OpensBelow R.rank (R.top + 1) m s :=
  fun id _ _ => .inl (Nat.lt_succ_of_le (R.rank_le id))

variable {R} {free rank depth n : Nat}

/-- A guard leaves patience for any declaration. -/
theorem stock_guarded {fewer rank' k : Nat} (hless : fewer < free) (hrank : rank' ≤ R.top + 1)
    (hk : R.stock free rank depth ≤ k) : R.stock fewer rank' depth + (depth + 1) < k := by
  have hleft : fewer * (R.top + 2) + rank' < free * (R.top + 2) + rank := by
    have := Nat.mul_le_mul_right (R.top + 2) (Nat.succ_le_of_lt hless)
    rw [Nat.succ_mul] at this
    omega
  exact patience_left hleft hk

/-- So does a lower rank. -/
theorem stock_lower {lower k : Nat} (hless : lower < rank) (hk : R.stock free rank depth ≤ k) :
    R.stock free lower depth + (depth + 1) < k :=
  patience_left (Nat.add_lt_add_left hless _) hk

section
variable (hask : R.Suffices depth n (answer n))
include hask

theorem lasts_of_allowed {q : Query} (hweight : q.weight ≤ depth + 1) (hrank : rank ≤ R.top + 1)
    (hn : R.stock free rank depth + q.weight < n) (hallows : ∀ m, R.Allows rank m q) :
    Lasts (descending program) free Ty (answer n q) where
  moves := (descending program).respects.answer n q
  lasts m hready := hask hweight hrank hn hready (hallows m)

/-- Aliases are guarded. -/
theorem lasts_named (hdepth : depthOf program ≤ depth) (hn : R.stock free rank depth < n)
    (id : SymbolId) (args : List Ty) :
    Lasts (descending program) free Ty (namedType (answer n) id args) := by
  refine lasts_namedType ((descending program).respects.answer n) (fun fewer hfewer env type htype => ?_)
    id args
  have hleft : R.stock fewer (R.top + 1) depth + (depth + 1) < n :=
    stock_guarded hfewer (Nat.le_refl _) (Nat.le_of_lt hn)
  have hweight : (Query.written env type).weight = type.height + 1 := rfl
  exact lasts_of_allowed hask (by omega) (Nat.le_refl _) (by omega) fun _ => .inl rfl

/-- Outside of interfaces all may be asked. -/
theorem answers_top (hdepth : depthOf program ≤ depth) {height : Nat} (hpos : 0 < height)
    (hheight : height ≤ depth + 1) (hn : R.stock free (R.top + 1) depth + height < n) :
    Answers (Lasts (descending program) free) (answer n) fun n => n.height < height where
  inside hn k hk := Nat.lt_trans (Node.height_lt_of_mem_children hk) hn
  written env {t} ht := by
    have hweight : (Query.written env t).weight = t.height + 1 := rfl
    exact lasts_of_allowed hask (by omega) (Nat.le_refl _) (by omega) fun _ => .inl rfl
  expression {e} he := by
    have hweight : (Query.expression e).weight = e.height + 1 := rfl
    exact lasts_of_allowed hask (by omega) (Nat.le_refl _) (by omega) fun _ => .inl rfl
  symbol id := by
    have hweight : (Query.symbol id).weight = 0 := rfl
    exact lasts_of_allowed hask (by omega) (Nat.le_refl _) (by omega) fun _ => trivial
  members id name := by
    have hweight : (Query.members id name).weight = 1 := rfl
    exact lasts_of_allowed hask (by omega) (Nat.le_refl _) (by omega) fun m =>
      R.opensBelow_top m id
  named := lasts_named hask hdepth (Nat.lt_of_le_of_lt (Nat.le_add_right _ _) hn)

/-- In the declarations of an interface nothing is asked but about parts that are tame. -/
theorem answers_tame (hdepth : depthOf program ≤ depth) {height : Nat} {params : List String}
    {env : Env} (henv : StandsFor env params) (hrank : rank ≤ R.top + 1) (hheight : height ≤ depth + 1)
    (hn : R.stock free rank depth + height < n) :
    AnswersTypes (Lasts (descending program) free) (answer n) env
      fun n => n.height < height ∧ IsTame program R.rank params rank n where
  inside hn k hk := ⟨Nat.lt_trans (Node.height_lt_of_mem_children hk) hn.1, hn.2.inside hk⟩
  written {t} ht := by
    have hweight : (Query.written env t).weight = t.height + 1 := rfl
    have := ht.1
    exact lasts_of_allowed hask (by omega) hrank (by omega) fun _ => .inr ⟨params, henv, ht.2⟩
  value {k} hk e he := by
    have hweight : (Query.expression e).weight = e.height + 1 := rfl
    have := hk.1
    have := Node.height_lt_of_mem_children (mem_children_of_mem_valuesOf he)
    exact lasts_of_allowed hask (by omega) hrank (by omega) fun _ =>
      .inr ((hk.2 k (Node.mem_preorder_self k)).1 e he)
  named := lasts_named hask hdepth (Nat.lt_of_le_of_lt (Nat.le_add_right _ _) hn)

/-! ## Members below a rank -/

theorem lastsFrom_membersOf? {m : Memory} (hrank : rank ≤ R.top + 1)
    (hn : R.stock free rank depth + 1 < n) (hready : (descending program).Ready free m) {t : Ty}
    (ht : Below R.rank rank m t) : LastsFrom (descending program) m (membersOf? (answer n) t) := by
  cases t with
  | declared s name =>
    have hallows : R.Allows rank m (.members s name) := (ht s name .self).2
    have hmembers : LastsFrom (descending program) m (answer n (.members s name)) :=
      hask (Nat.succ_le_succ (Nat.zero_le _)) hrank hn hready hallows
    have hdiscard : LastsFrom (descending program) m (discard (answer n (.members s name))) :=
      hmembers.total fun _ m' => ⟨_, _, rfl⟩
    refine hdiscard.next fun _ m' _ => lastsFrom_get ?_
    split
    · exact lastsFrom_of_ok rfl
    · exact lastsFrom_of_ok rfl
  | _ => exact lastsFrom_of_ok rfl

theorem lastsFrom_intersection {m : Memory} (hrank : rank ≤ R.top + 1)
    (hn : R.stock free rank depth + 1 < n) (hready : (descending program).Ready free m) (count : Nat)
    (properties : List (String × Ty)) (index : Option Ty) {ts : List Ty}
    (hts : ∀ t ∈ ts, Below R.rank rank m t) :
    LastsFrom (descending program) m (intersection (answer n) count properties index ts) := by
  induction ts generalizing m properties index with
  | nil => exact lastsFrom_of_ok rfl
  | cons t rest ih =>
    obtain ⟨ht, hrest⟩ := List.forall_mem_cons.mp hts
    refine (lastsFrom_membersOf? hask hrank hn hready ht).next fun members m' hrun => ?_
    have hmoves : Moves program (descending program).Moved _ (membersOf? (answer n) t) :=
      (descending program).respects.compositional.membersOf?
        (fun id name => (descending program).respects.answer n _) t
    obtain ⟨hready', honward⟩ := ready_after hmoves hready hrun
    split
    · exact ih hready' _ _ fun t ht => (hrest t ht).mono honward
    · exact lastsFrom_of_ok rfl

theorem lasts_tameType (hdepth : depthOf program ≤ depth) {params : List String} {env : Env}
    (henv : StandsFor env params) (hrank : rank ≤ R.top + 1) {type : Node}
    (htame : IsTame program R.rank params rank type) (hheight : type.height ≤ depth)
    (hn : R.stock free rank depth + type.height < n) :
    Lasts (descending program) free Ty (writtenType (answer n) env type) := by
  have hA := answers_tame hask hdepth henv hrank (Nat.le_succ_of_le hheight) hn
  have inside {k : Node} (hk : k ∈ type.children) :
      k.height < type.height ∧ IsTame program R.rank params rank k :=
    ⟨Node.height_lt_of_mem_children hk, htame.inside hk⟩
  have hmoves : Moves program (descending program).Moved Ty (writtenType (answer n) env type) :=
    (descending program).respects.step ((descending program).respects.answer n) (.written env type)
  by_cases hintersection : ∃ mark types, type = .intersectionType mark types
  · obtain ⟨mark, types, rfl⟩ := hintersection
    refine ⟨hmoves, fun m hready => ?_⟩
    have htypes : Lasts (descending program) free (List Ty)
        (types.mapM fun t => answer n (.written env t)) :=
      compositional_lasts.mapM fun t ht => hA.written (inside ht)
    refine (htypes.lasts m hready).next fun ts m' hrun => ?_
    obtain ⟨hready', -⟩ := ready_after htypes.moves hready hrun
    have hpos : 0 < (Node.intersectionType mark types).height := height_pos _
    refine lastsFrom_intersection hask hrank (by omega) hready' _ _ _ ?_
    refine below_mapM ((respects_orderly program).answer n) ((respects_onward program).answer n)
      (fun t ht m hm => endsBelow_written ?_ n henv hm) hready.1 hrun
    exact (htame _ (Node.mem_preorder_self _)).2 mark types rfl t ht
  · refine compositional_lasts.writtenType hA (fun _ => inside) (fun e he => ?_)
      fun mark types h => absurd ⟨mark, types, h⟩ hintersection
    have hweight : (Query.expression e).weight = e.height + 1 := rfl
    have := Node.height_lt_of_mem_children (mem_children_of_mem_valuesOf he)
    exact lasts_of_allowed hask (by omega) hrank (by omega) fun _ =>
      .inr ((htame type (Node.mem_preorder_self type)).1 e he)

/-- The members of an interface are found among what is below its rank. -/
theorem lasts_interfaceMembers (hdepth : depthOf program ≤ depth) {id : SymbolId} {env : Env}
    (henv : StandsFor env (interfaceParams (program.bindings.symbol id).declarations))
    (hn : R.stock free (R.rank id) depth + (depth + 1) < n) :
    Lasts (descending program) free (List (String × Ty) × Option Ty)
      (interfaceMembers (answer n) env [] none (program.bindings.symbol id).declarations) := by
  have hrank : R.rank id ≤ R.top + 1 := Nat.le_succ_of_le (R.rank_le id)
  have hA := answers_tame hask hdepth henv hrank (Nat.le_refl _) hn
  refine compositional_lasts.interfaceMembers hA _ _ fun m ms name params heritage members h => ?_
  have inside {k : Node} (hk : k ∈ heritage ++ members) : k.height < depth + 1 := by
    have := declared_height_lt h hk
    omega
  refine ⟨fun base hbase => ?_, fun k hk =>
    ⟨inside (List.mem_append_right _ hk), R.tame h k (List.mem_append_right _ hk)⟩⟩
  have hbase' := List.mem_append_left members hbase
  have hwritten := hA.written ⟨inside hbase', R.tame h base hbase'⟩
  refine ⟨(descending program).respects.bind hwritten.moves fun t => ?_, fun m hready => ?_⟩
  · exact (descending program).respects.compositional.membersOf?
      (fun id name => (descending program).respects.answer n _) t
  · refine (hwritten.lasts m hready).next fun t m' hrun => ?_
    have hbelow := endsBelow_written (R.heritage h base hbase) n henv hready.1 t m' hrun
    exact lastsFrom_membersOf? hask hrank (by omega) (ready_after hwritten.moves hready hrun).1 hbelow

theorem lastsFrom_findMembers (hdepth : depthOf program ≤ depth) {id : SymbolId} {env : Env} {m : Memory}
    (henv : StandsFor env (interfaceParams (program.bindings.symbol id).declarations))
    (hn : R.stock free (R.rank id) depth + (depth + 1) < n) (hready : (descending program).Ready free m) :
    LastsFrom (descending program) m (findMembers (answer n) (.interfaces id env)) := by
  have hrank : R.rank id ≤ R.top + 1 := Nat.le_succ_of_le (R.rank_le id)
  refine (compositional_lasts.findMembers (.interfaces id env) (fun symbol => ?_) ?_).lasts m hready
  · have hweight : (Query.symbol symbol).weight = 0 := rfl
    exact lasts_of_allowed hask (by omega) hrank (by omega) fun _ => trivial
  · rintro _ _ ⟨⟩
    exact lasts_interfaceMembers hask hdepth henv hn

/-- Looking for the members of an object type opens an interface of lower rank or one without arguments. -/
theorem lastsFrom_loadMembers_below (hdepth : depthOf program ≤ depth) {m : Memory} {s : ShapeId}
    (hrank : rank ≤ R.top + 1) (hn : R.stock free rank depth < n)
    (hready : (descending program).Ready free m) (hopens : OpensBelow R.rank rank m s) :
    LastsFrom (descending program) m (loadMembers (answer n) s) := by
  refine lastsFrom_loadMembers fun source hsource => ?_
  obtain ⟨hm, hfree⟩ := hready
  have hmoved := (descending program).respects.fill m s [] none
  have horderly : Orderly program (m.fill s [] none) := hmoved.2.2 hm
  have hguards : (m.fill s [] none).free program = m.free program := hmoved.1.free_eq
  have hsymbol (symbol : SymbolId) :
      Lasts (descending program) free Ty (answer n (.symbol symbol)) :=
    lasts_of_allowed hask (Nat.zero_le _) hrank hn fun _ => trivial
  have hready' : (descending program).Ready free (m.fill s [] none) :=
    ((descending program).ready hmoved ⟨hm, hfree⟩).resolve_right id
  cases source with
  | interfaces id env =>
    have henv := hm.params hsource
    obtain hlower | ⟨name, hplain⟩ := hopens id env hsource
    · exact lastsFrom_findMembers hask hdepth henv (stock_lower hlower (Nat.le_of_lt hn)) hready'
    by_cases hid : id < program.bindings.symbols.size
    · have hclosed := opened_closed_lt hid hplain hsource
      have hleft : R.stock (free - 1) (R.rank id) depth + (depth + 1) < n :=
        stock_guarded (by omega) (Nat.le_succ_of_le (R.rank_le id)) (Nat.le_of_lt hn)
      exact lastsFrom_findMembers hask hdepth henv hleft ⟨horderly, by omega⟩
    · -- What is no symbol declares nothing.
      refine (compositional_lasts.findMembers _ hsymbol ?_).lasts _ hready'
      rintro _ _ ⟨⟩
      rw [symbol_of_le hid]
      exact compositional_lasts.pure _
  | space id => exact (compositional_lasts.findMembers _ hsymbol fun _ _ h => by cases h).lasts _ hready'
  | file id => exact (compositional_lasts.findMembers _ hsymbol fun _ _ h => by cases h).lasts _ hready'

/-! ## The patience that an answer takes -/

theorem lastsFrom_step (hdepth : depthOf program ≤ depth) {q : Query} {m : Memory}
    (hweight : q.weight ≤ depth + 1) (hrank : rank ≤ R.top + 1)
    (hn : R.stock free rank depth + q.weight ≤ n) (hready : (descending program).Ready free m)
    (hallows : R.Allows rank m q) : LastsFrom (descending program) m (step (answer n) q) := by
  have hmoves (q : Query) : Moves program (descending program).Moved Ty (answer n q) :=
    (descending program).respects.answer n q
  cases q with
  | symbol id =>
    refine (lasts_symbolType hmoves (fun fewer hfewer => ?_) id).lasts m hready
    have hleft : R.stock fewer (R.top + 1) depth + (depth + 1) < n :=
      stock_guarded hfewer (Nat.le_refl _) hn
    have hA := answers_top hask hdepth (Nat.succ_pos depth) (Nat.le_refl _) hleft
    have below {k : Node} (hk : k.height ≤ depthOf program) : k.height < depth + 1 := by omega
    exact {
      inside := fun hk j hj => Nat.le_trans (Nat.le_of_lt (Node.height_lt_of_mem_children hj)) hk
      written := fun env t ht => hA.written env (below ht)
      expression := fun ht => hA.expression (below ht)
      symbol := hA.symbol
      members := hA.members
      named := hA.named }
  | members id name =>
    have hload := lastsFrom_loadMembers_below hask hdepth hrank (Nat.lt_of_succ_le hn) hready hallows
    exact hload.total fun _ m' => ⟨_, _, rfl⟩
  | expression e =>
    have hheight : e.height ≤ depth := Nat.le_of_succ_le_succ hweight
    obtain rfl | hname := hallows
    · have hlt : R.stock free (R.top + 1) depth + e.height < n := hn
      have hA := answers_top hask hdepth (height_pos e) (Nat.le_succ_of_le hheight) hlt
      exact (lasts_expressionType hmoves hA).lasts m hready
    · -- A name asks about its symbol, which is guarded.
      cases e with
      | ident i =>
        refine lastsFrom_get ?_
        split
        · exact lastsFrom_of_ok rfl
        refine LastsFrom.total ?_ fun t m' => ⟨_, _, rfl⟩
        refine lastsFrom_read ?_
        split
        · rename_i id _
          refine hask (q := .symbol id) (Nat.zero_le _) hrank ?_ hready trivial
          exact Nat.lt_of_lt_of_le (Nat.lt_add_of_pos_right (Nat.succ_pos _)) hn
        · exact lastsFrom_of_ok rfl
      | _ => cases hname
  | written env type =>
    have hheight : type.height ≤ depth := Nat.le_of_succ_le_succ hweight
    obtain rfl | ⟨params, henv, htame⟩ := hallows
    · have hlt : R.stock free (R.top + 1) depth + type.height < n := hn
      have hA := answers_top hask hdepth (height_pos type) (Nat.le_succ_of_le hheight) hlt
      have inside {k : Node} (h : k ∈ type.children) := Node.height_lt_of_mem_children h
      refine (compositional_lasts.writtenType (hA.types env) (fun _ => inside) (fun _ he => ?_)
        fun _ _ _ => hA.members).lasts m hready
      exact hA.expression (inside (mem_children_of_mem_valuesOf he))
    · exact (lasts_tameType hask hdepth henv hrank htame hheight hn).lasts m hready

end

theorem suffices_answer (R : Ranking program) (hdepth : depthOf program ≤ depth) (n : Nat) :
    R.Suffices depth n (answer n) := by
  induction n with
  | zero => exact fun _ _ h => absurd h (Nat.not_lt_zero _)
  | succ n ih =>
    intro q free rank m hweight hrank hn hready hallows
    exact lastsFrom_step ih hdepth hweight hrank (Nat.le_of_lt_succ hn) hready hallows

end Ranking

/-- In a ranked program no question takes more patience than it takes to guard all symbols and to open all
interfaces without arguments, each time going down through all ranks with all of a declaration. -/
theorem Ranking.patience_le (R : Ranking program) {n : Nat} {q : Query} {m after : Memory}
    (hm : Orderly program m) (h : answer n q program m = .error .outOfFuel after) :
    n ≤ (m.free program + m.closed program + 1) * (R.top + 2) * (q.depthIn program + 2) := by
  refine Nat.le_of_not_lt fun hn => ?_
  have hweight : q.weight ≤ q.depthIn program + 1 := by
    unfold Query.depthIn
    omega
  have hallows : R.Allows (R.top + 1) m q := by
    cases q with
    | symbol id => trivial
    | expression e => exact .inl rfl
    | written env type => exact .inl rfl
    | members id name => exact R.opensBelow_top m id
  refine R.suffices_answer (Nat.le_max_left _ _) n hweight (Nat.le_refl _) ?_ ⟨hm, Nat.le_refl _⟩ hallows
    after h
  have hstock : (m.free program + m.closed program + 1) * (R.top + 2) =
      (m.free program + m.closed program) * (R.top + 2) + (R.top + 1) + 1 := Nat.succ_mul _ _
  rw [hstock, Nat.succ_mul] at hn
  exact Nat.lt_of_le_of_lt (Nat.add_le_add_left (Nat.le_succ_of_le hweight) _) hn

end ScriptBridge.Typing
