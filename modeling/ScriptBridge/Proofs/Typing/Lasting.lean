import ScriptBridge.Proofs.Typing.Runs

/-!
# Actions that do not run out of patience

Patience is the number of questions that may wait for each other. `Lasts T free x`: wherever the terms `T`
are met and at most `free` symbols are not guarded, the action `x` does not run out of patience, unless
something happened that the terms count as an excuse. Actions that last are put together to actions that
last (`compositional_lasts`). A guard leaves one symbol fewer, so what is guarded needs to last for fewer
symbols only: that is what keeps the symbols and the aliases of a program from asking for each other for
ever.

* `Terms`, `Lasts`: what an action may assume and what it does.
* `lasts_namedType`, `lasts_symbolType`: what is guarded may ask about any declaration.
* `lasts_expressionType`: an expression asks about what is inside it.
-/

namespace ScriptBridge.Typing

open ScriptBridge.Binding ScriptBridge.TypeScript
open ScriptBridge.Conversion (bind_of_ok)

variable {α β : Type} {program : Program}

/-! ## Symbols and their declarations -/

/-- The symbols that are not guarded. -/
def Memory.free (m : Memory) (program : Program) : Nat :=
  (List.range program.bindings.symbols.size).countP (!m.resolving.contains ·)

/-- What is read of a symbol. -/
def nodesOf (s : Symbol) : List Node :=
  s.declaration :: s.declarations ++ s.iterated.toList

/-- How deeply nodes are nested in the declarations of a program. -/
def depthOf (program : Program) : Nat :=
  ((program.bindings.symbols.toList.flatMap nodesOf).map Node.height).foldl max 0

theorem height_pos (n : Node) : 0 < n.height := by
  rw [Node.height_eq]
  exact Nat.succ_pos _

theorem symbol_of_le {id : SymbolId} (h : ¬ id < program.bindings.symbols.size) :
    program.bindings.symbol id = default := by
  rw [Bindings.symbol, Array.getElem?_eq_none (Nat.le_of_not_lt h)]
  rfl

theorem height_le_depthOf {id : SymbolId} (hid : id < program.bindings.symbols.size) {n : Node}
    (hn : n ∈ nodesOf (program.bindings.symbol id)) : n.height ≤ depthOf program := by
  have hmem : program.bindings.symbol id ∈ program.bindings.symbols.toList := by
    rw [Bindings.symbol, Array.getElem?_eq_getElem hid]
    exact Array.getElem_mem_toList hid
  exact (Node.le_foldl_max _ 0).2 _ (List.mem_map_of_mem (List.mem_flatMap.mpr ⟨_, hmem, hn⟩))

/-- The heritage and the members of an interface are inside a declaration. -/
theorem declared_height_lt {id : SymbolId} {m : Mark} {modifiers : List Modifier} {name : Ident}
    {params heritage members : List Node}
    (h : .interfaceDeclaration m modifiers name params heritage members ∈
      (program.bindings.symbol id).declarations) {n : Node} (hn : n ∈ heritage ++ members) :
    n.height < depthOf program := by
  have hchild :
      n ∈ (Node.interfaceDeclaration m modifiers name params heritage members).children := by
    obtain hn | hn := List.mem_append.mp hn <;> simp [Node.children, hn]
  refine Nat.lt_of_lt_of_le (Node.height_lt_of_mem_children hchild) ?_
  by_cases hid : id < program.bindings.symbols.size
  · exact height_le_depthOf hid (by simp [nodesOf, h])
  · rw [symbol_of_le hid] at h
    cases h

theorem countP_lt {p q : α → Bool} {as : List α} (h : ∀ a ∈ as, p a = true → q a = true) {a : α}
    (ha : a ∈ as) (hp : p a = false) (hq : q a = true) : as.countP p < as.countP q := by
  induction as with
  | nil => cases ha
  | cons b as ih =>
    obtain ⟨hb, hrest⟩ := List.forall_mem_cons.mp h
    obtain rfl | ha := List.mem_cons.mp ha
    · rw [List.countP_cons_of_neg (by simp [hp]), List.countP_cons_of_pos hq]
      exact Nat.lt_succ_of_le (List.countP_mono_left hrest)
    · have := ih hrest ha
      rw [List.countP_cons, List.countP_cons]
      by_cases hpb : p b = true
      · simpa [hpb, hb hpb] using this
      · rw [if_neg hpb]
        exact Nat.lt_of_lt_of_le this (Nat.le_add_right _ _)

/-- Guarding a symbol leaves one fewer. -/
theorem guarded_free_lt {m : Memory} {id : SymbolId} (hid : id < program.bindings.symbols.size)
    (hfree : id ∉ m.resolving) :
    Memory.free { m with resolving := id :: m.resolving } program < m.free program := by
  refine countP_lt (fun other _ h => ?_) (List.mem_range.mpr hid) (by simp) (by simp [hfree])
  simp_all

/-! ## Lasting actions -/

/-- What actions may assume of the memory while no more than a number of symbols are free, and what
excuses them from that for all that follows. -/
structure Terms (program : Program) where
  Moved : Memory → Memory → Prop
  respects : Respects program Moved
  Ready : Nat → Memory → Prop
  Excused : Memory → Prop
  ready : ∀ {free m m'}, Moved m m' → Ready free m → Ready free m' ∨ Excused m'
  excused : ∀ {m m'}, Moved m m' → Excused m → Excused m'
  guarded : ∀ {free m id}, Ready free m → id < program.bindings.symbols.size → id ∉ m.resolving →
    ∃ fewer < free, Ready fewer { m with resolving := id :: m.resolving }
  released : ∀ {m} resolving, Excused m → Excused { m with resolving := resolving }

variable {T : Terms program} {free : Nat}

/-- From a memory, an action runs out of patience only with an excuse. -/
def LastsFrom (T : Terms program) (m : Memory) (x : TypeM α) : Prop :=
  ∀ after, x program m = .error .outOfFuel after → T.Excused after

/-- Where the terms are met, an action runs out of patience only with an excuse. -/
structure Lasts (T : Terms program) (free : Nat) (α : Type) (x : TypeM α) : Prop where
  moves : Moves program T.Moved α x
  lasts : ∀ m, T.Ready free m → LastsFrom T m x

theorem lastsFrom_of_ok {m m' : Memory} {x : TypeM α} {a : α} (h : x program m = .ok a m') :
    LastsFrom T m x := by
  intro after herror
  rw [h] at herror
  cases herror

theorem lastsFrom_get {m : Memory} {f : Memory → TypeM α} (h : LastsFrom T m (f m)) :
    LastsFrom T m (get >>= f) :=
  h

theorem lastsFrom_read {m : Memory} {f : Program → TypeM α} (h : LastsFrom T m (f program)) :
    LastsFrom T m (read >>= f) :=
  h

/-- An action and what follows it, from the memory in which it ends. -/
theorem LastsFrom.next {m : Memory} {x : TypeM α} {f : α → TypeM β} (hx : LastsFrom T m x)
    (hf : ∀ a m', x program m = .ok a m' → LastsFrom T m' (f a)) : LastsFrom T m (x >>= f) := by
  intro after herror
  simp only [Bind.bind, ReaderT.bind, EStateM.bind] at herror
  cases hrun : x program m with
  | ok a m' =>
    rw [hrun] at herror
    exact hf a m' hrun after herror
  | error fault m' =>
    rw [hrun] at herror
    cases herror
    exact hx _ hrun

/-- What cannot fail takes no patience. -/
theorem LastsFrom.total {m : Memory} {x : TypeM α} {f : α → TypeM β} (hx : LastsFrom T m x)
    (hf : ∀ a m', ∃ b after, f a program m' = .ok b after) : LastsFrom T m (x >>= f) :=
  hx.next fun a m' _ => by
    obtain ⟨b, after, h⟩ := hf a m'
    exact lastsFrom_of_ok h

theorem LastsFrom.bind {m : Memory} {x : TypeM α} {f : α → TypeM β} (hx : LastsFrom T m x)
    (hmoves : Moves program T.Moved α x) (hf : ∀ a, Lasts T free β (f a)) (hready : T.Ready free m) :
    LastsFrom T m (x >>= f) := by
  refine hx.next fun a m' hrun => ?_
  have hm := hmoves m
  rw [hrun] at hm
  -- An excuse that came up in the first action still holds after the second.
  obtain hready | hexcused := T.ready hm hready
  · exact (hf a).lasts m' hready
  · intro after herror
    have hlater := (hf a).moves m'
    rw [herror] at hlater
    exact T.excused hlater hexcused

theorem lasts_of_total {x : TypeM α} (hmoves : Moves program T.Moved α x)
    (h : ∀ m, ∃ a after, x program m = .ok a after) : Lasts T free α x where
  moves := hmoves
  lasts m _ := by
    obtain ⟨a, after, h⟩ := h m
    exact lastsFrom_of_ok h

theorem compositional_lasts : Compositional program (Lasts T free) where
  pure a := lasts_of_total (T.respects.pure a) fun m => ⟨a, m, rfl⟩
  throw {α fault} h :=
    { moves := T.respects.compositional.throw h
      lasts := fun m _ after herror => by
        cases herror
        exact absurd rfl h }
  bind hx hf :=
    { moves := T.respects.bind hx.moves fun a => (hf a).moves
      lasts := fun m hready => (hx.lasts m hready).bind hx.moves hf hready }
  get := lasts_of_total T.respects.compositional.get fun m => ⟨m, m, rfl⟩
  read h := ⟨h.moves, h.lasts⟩
  newRecord ps ix := lasts_of_total (T.respects.compositional.newRecord ps ix) fun m => ⟨_, _, rfl⟩
  nameRecord name t := by
    refine lasts_of_total (T.respects.compositional.nameRecord name t) fun m => ?_
    cases t <;> exact ⟨_, _, rfl⟩
  newDeclared name source h :=
    lasts_of_total (T.respects.compositional.newDeclared name source h) fun m => ⟨_, _, rfl⟩
  interfaceType id args :=
    { moves := T.respects.compositional.interfaceType id args
      lasts := fun m _ after herror => by
        obtain ⟨fault, h, hfault⟩ | ⟨key, t, -, -, h⟩ | ⟨key, name, -, -, h⟩ :=
          interfaceType_cases program id args m
        · rw [h] at herror
          cases herror
          exact absurd rfl hfault
        · rw [h] at herror
          cases herror
        · rw [h] at herror
          cases herror }

/-- What is guarded needs to last for fewer symbols. -/
theorem LastsFrom.whileResolving {m : Memory} {id : SymbolId} {x : TypeM α}
    (hid : id < program.bindings.symbols.size) (hunguarded : id ∉ m.resolving)
    (hx : ∀ fewer, fewer < free → Lasts T fewer α x) (hready : T.Ready free m) :
    LastsFrom T m (whileResolving id x) := by
  intro after herror
  obtain ⟨fewer, hfewer, hguarded⟩ := T.guarded hready hid hunguarded
  have hlasts := (hx fewer hfewer).lasts _ hguarded
  cases hrun : x program { m with resolving := id :: m.resolving } with
  | ok a m' =>
    rw [whileResolving_of_ok hrun] at herror
    cases herror
  | error fault m' =>
    rw [whileResolving_of_error hrun] at herror
    cases herror
    exact T.released _ (hlasts m' hrun)

/-- Members are looked for in the memory in which they are known to be none. -/
theorem lastsFrom_loadMembers {ask : Asker} {id : ShapeId} {m : Memory}
    (hfind : ∀ source, m.members[id]? = some (.pending source) →
      LastsFrom T (m.fill id [] none) (findMembers ask source)) :
    LastsFrom T m (loadMembers ask id) := by
  by_cases hpending : ∃ source, m.members[id]? = some (.pending source)
  · obtain ⟨source, hsource⟩ := hpending
    intro after herror
    rw [loadMembers_pending hsource] at herror
    exact (hfind source hsource).total (f := fun found => setMembers id found.1 found.2)
      (fun found m' => ⟨_, _, rfl⟩) after herror
  · exact lastsFrom_of_ok (loadMembers_of_ne (not_exists.mp hpending))

/-! ## Guarded questions -/

section
variable {ask : Asker} (hmoves : ∀ q, Moves program T.Moved Ty (ask q))
include hmoves

theorem lasts_namedType
    (hbody : ∀ fewer, fewer < free → ∀ env {type : Node}, type.height < depthOf program →
      Lasts T fewer Ty (ask (.written env type))) (id : SymbolId) (args : List Ty) :
    Lasts T free Ty (namedType ask id args) where
  moves := T.respects.namedType hmoves id args
  lasts m hready := by
    refine lastsFrom_read ?_
    dsimp only
    split
    · exact (compositional_lasts.interfaceType id args).lasts m hready
    · rename_i params type hkind hdeclaration
      refine lastsFrom_get ?_
      show LastsFrom T m (if m.resolving.contains id then pure Ty.any else
        whileResolving id (ask (.written (bindParams (paramNames params) args []) type)) >>= _)
      have hid : id < program.bindings.symbols.size := Decidable.byContradiction fun h => by
        rw [symbol_of_le h] at hkind
        cases hkind
      have htype : type.height < depthOf program := by
        refine Nat.lt_of_lt_of_le (Node.height_lt_of_mem_children ?_)
          (height_le_depthOf hid List.mem_cons_self)
        simp [hdeclaration, Node.children]
      split
      · exact lastsFrom_of_ok rfl
      · rename_i hunguarded
        refine (LastsFrom.whileResolving hid (by simpa using hunguarded)
          (fun fewer hfewer => hbody fewer hfewer _ htype) hready).total fun t m' => ?_
        cases t <;> exact ⟨_, _, rfl⟩
    · exact lastsFrom_of_ok rfl

theorem lasts_symbolType
    (hask : ∀ fewer, fewer < free → Answers (Lasts T fewer) ask fun n => n.height ≤ depthOf program)
    (id : SymbolId) : Lasts T free Ty (symbolType ask id) where
  moves := T.respects.symbolType hmoves id
  lasts m hready := by
    refine lastsFrom_get ?_
    split
    · exact lastsFrom_of_ok rfl
    show LastsFrom T m (if m.resolving.contains id then pure Ty.any else
      whileResolving id (inferSymbol ask id) >>= _)
    split
    · exact lastsFrom_of_ok rfl
    rename_i hunguarded
    refine LastsFrom.total ?_ fun t m' => ⟨_, _, rfl⟩
    by_cases hid : id < program.bindings.symbols.size
    · refine LastsFrom.whileResolving hid (by simpa using hunguarded) (fun fewer hfewer => ?_) hready
      exact compositional_lasts.inferSymbol (hask fewer hfewer) id
        (height_le_depthOf hid List.mem_cons_self) fun e he =>
          height_le_depthOf hid (by simp [nodesOf, he])
    · -- There is no such symbol, and nothing is asked about it.
      have hany (m' : Memory) : inferSymbol ask id program m' = .ok .any m' := by
        have hread : (read : TypeM Program) program m' = .ok program m' := rfl
        rw [inferSymbol, bind_of_ok hread]
        dsimp only
        rw [symbol_of_le hid]
        rfl
      exact lastsFrom_of_ok (whileResolving_of_ok (hany _))

theorem lasts_expressionType {e : Node}
    (hask : Answers (Lasts T free) ask fun n => n.height < e.height) :
    Lasts T free Ty (expressionType ask e) where
  moves := T.respects.expressionType hmoves e
  lasts m hready := by
    refine lastsFrom_get ?_
    split
    · exact lastsFrom_of_ok rfl
    · have hinfer := compositional_lasts.inferExpression hask fun _ => Node.height_lt_of_mem_children
      exact (hinfer.lasts m hready).total fun t m' => ⟨_, _, rfl⟩

end

end ScriptBridge.Typing
