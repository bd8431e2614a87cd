import ScriptBridge.Proofs.Typing.Rules
import ScriptBridge.Proofs.Typing.Runs

/-!
# The oracle answers as a table does

A run knows what it has answered, and what it is about to answer is under way (`Known`). Every question
goes through the memory of the run first; what is not found there is found by a rule, while the question
counts as being under way. Ranks keep the rules from asking for what is under way, and the number of
questions that may wait is spent by rank.

An alias is the one place where the memory is changed after a question has been answered: the record that
it is written as gets a name. In the table these are two records (`Table.Renames.given`), so the two are
compared once the name is given.

* `asks_answer`: the oracle answers as the table does, below the number of questions that may wait.
-/

namespace ScriptBridge.Typing

open ScriptBridge.Binding ScriptBridge.TypeScript
open ScriptBridge.Conversion (bind_ok bind_of_ok)

variable {T : Table} {program : Program} {c : Context} {w w' : World} {m n : Memory}

/-! ## What the table answers -/

theorem ask_ok {rank : Nat} {q : Query} (hq : ∀ id name, q ≠ .members id name) {u : Ty} {n' : Memory}
    (h : T.ask rank q program n = .ok u n') : T.rank q < rank ∧ T.types q = some u ∧ n' = n := by
  have hask : T.ask rank q =
      if T.rank q < rank then orUnknown (T.types q) else throw .outOfFuel := by
    cases q with
    | members id name => exact absurd rfl (hq id name)
    | _ => rfl
  rw [hask] at h
  split at h
  · cases ht : T.types q with
    | none =>
      rw [ht] at h
      cases h
    | some t =>
      rw [ht] at h
      cases h
      exact ⟨‹_›, rfl, rfl⟩
  · cases h

variable (program) in
theorem ask_of_listed {rank : Nat} {q : Query} (hq : ∀ id name, q ≠ .members id name) {u : Ty}
    (hr : T.rank q < rank) (hu : T.types q = some u) (n : Memory) :
    T.ask rank q program n = .ok u n := by
  have hask : T.ask rank q =
      if T.rank q < rank then orUnknown (T.types q) else throw .outOfFuel := by
    cases q with
    | members id name => exact absurd rfl (hq id name)
    | _ => rfl
  rw [hask, if_pos hr, hu]
  rfl

theorem membersOf?_ask_ok {rank : Nat} {j : ShapeId} {name : String}
    {b : Option (List (String × Ty) × Option Ty)} {n' : Memory} (hn : Blank T program n)
    (h : membersOf? (T.ask rank) (.declared j name) program n = .ok b n') :
    T.rank (.members 0 name) < rank ∧ (∃ listed, T.members name = some listed ∧ b = some listed) ∧
      Blank T program n' := by
  obtain ⟨_, n₁, hdiscard, h⟩ := bind_ok h
  have hdiscard : (T.ask rank (.members j name) >>= fun _ => pure ()) program n = .ok () n₁ := hdiscard
  obtain ⟨u, n₂, hask, hu⟩ := bind_ok hdiscard
  cases hu
  obtain ⟨_, _, hget, h⟩ := bind_ok h
  cases hget
  simp only [Table.ask] at hask
  split at hask
  · rename_i hr
    cases hl : T.members name with
    | none =>
      rw [hl] at hask
      cases hask
    | some listed =>
      rw [hl] at hask
      cases hask
      simp only [Array.getElem?_replicate, if_pos (Nat.lt_succ_self j)] at h
      cases h
      exact ⟨hr, ⟨listed, rfl, rfl⟩, { hn with }⟩
  · cases hask

/-! ## Memories of a run -/

/-- What is below what is under way is below more. -/
theorem Known.lower (hm : Known T program c w m) {rank : Nat} (hr : rank ≤ c.rank) :
    Known T program { c with rank } w m :=
  { hm with
    resolvingAbove := fun id hid => Nat.le_trans hr (hm.resolvingAbove id hid)
    loadingAbove := fun i hi => by
      obtain ⟨name, hl, hn⟩ := hm.loadingAbove i hi
      exact ⟨name, hl, Nat.le_trans hr hn⟩ }

/-- Back to what was under way before. -/
theorem Known.restore (hm : Known T program c w m) {rank : Nat} {m' : Memory} (hw : w.Le w')
    (hm' : Known T program { c with rank } w' m') : Known T program c w' m' :=
  { hm' with
    resolvingAbove := hm.resolvingAbove
    loadingAbove := fun i hi => by
      obtain ⟨name, hl, hn⟩ := hm.loadingAbove i hi
      exact ⟨name, hw.declared hl, hn⟩ }

theorem Known.remember (H : T.Holds program) (hm : Known T program c w m) {e : Node} {t u : Ty}
    (hu : T.types (.expression e) = some u) (h : T.Stands w t u) :
    Known T program c w { m with expressions := m.expressions.insert e.id t } :=
  { hm with
    expressions := fun {e' t' u'} ht hu' => by
      rw [Std.HashMap.getElem?_insert] at ht
      split at ht
      · rename_i he
        have hsame : e = e' := by rw [← H.node hu, ← H.node hu', eq_of_beq he]
        cases ht
        cases hsame
        rw [hu] at hu'
        cases hu'
        exact h
      · exact hm.expressions ht hu' }

theorem Known.rememberSymbol (hm : Known T program c w m) {id : SymbolId} {t u : Ty}
    (hu : T.types (.symbol id) = some u) (h : T.Stands w t u) :
    Known T program c w { m with symbols := m.symbols.insert id t } :=
  { hm with
    symbols := fun {id' t' u'} ht hu' => by
      rw [Std.HashMap.getElem?_insert] at ht
      split at ht
      · rename_i he
        cases eq_of_beq he
        cases ht
        rw [hu] at hu'
        cases hu'
        exact h
      · exact hm.symbols ht hu' }

/-- A symbol is begun. -/
theorem Known.resolve (hm : Known T program c w m) {id : SymbolId} (hr : T.rank (.symbol id) ≤ c.rank) :
    Known T program ⟨T.rank (.symbol id), id :: c.resolving, c.loading⟩ w
      { m with resolving := id :: m.resolving } :=
  { hm with
    resolving := congrArg (id :: ·) hm.resolving
    resolvingAbove := fun id' h => by
      cases List.mem_cons.mp h with
      | inl h => rw [h]
      | inr h => exact Nat.le_trans hr (hm.resolvingAbove id' h)
    loadingAbove := (hm.lower hr).loadingAbove }

/-- A symbol is done. -/
theorem Known.release (hm : Known T program c w m) {id : SymbolId} {m' : Memory} (hw : w.Le w')
    (hm' : Known T program ⟨T.rank (.symbol id), id :: c.resolving, c.loading⟩ w' m') :
    Known T program c w' { m' with resolving := m'.resolving.erase id } :=
  { hm' with
    resolving := by
      rw [hm'.resolving]
      exact List.erase_cons_head id c.resolving
    resolvingAbove := hm.resolvingAbove
    loadingAbove := fun i hi => by
      obtain ⟨name, hl, hn⟩ := hm.loadingAbove i hi
      exact ⟨name, hw.declared hl, hn⟩ }

theorem Known.isResolving (hm : Known T program c w m) {id : SymbolId}
    (hr : T.rank (.symbol id) < c.rank) : isResolving id program m = .ok false m := by
  have hfree : m.resolving.contains id = false := by
    rw [hm.resolving, List.contains_eq_mem, decide_eq_false_iff_not]
    intro hid
    exact absurd (hm.resolvingAbove id hid) (Nat.not_le.mpr hr)
  show EStateM.Result.ok (m.resolving.contains id) m = _
  rw [hfree]

/-- What the rules give in a run is what the table has. -/
theorem Agree.gives {rank : Nat} {x : TypeM Ty} (rule : Asker → TypeM Ty) {t : Ty}
    (h : Agree T program c T.Stands w x (rule (T.ask rank))) (hm : Known T program c w m)
    (hg : T.Gives program rank rule t) :
    ∃ w' a m', w.Le w' ∧ x program m = .ok a m' ∧ Known T program c w' m' ∧ T.Stands w' a t := by
  obtain ⟨u, n', hy, hu⟩ := hg
  obtain ⟨w', a, m', hw, hx, hm', -, ha⟩ := h m T.start u n' hm (blank_start T program) hy
  exact ⟨w', a, m', hw, hx, hm', ha.trans T.reading_functional hu⟩

/-! ## One question -/

section
variable (H : T.Holds program) {k : Nat}
include H

theorem agree_expression (ih : ∀ c : Context, c.rank ≤ k → Asks T program c (answer k))
    (hc : c.rank ≤ k + 1) (e : Node) : Agree T program c T.Stands w
      (answer (k + 1) (.expression e)) (T.ask c.rank (.expression e)) := by
  intro m n u n' hm hn hy
  obtain ⟨hr, hu, rfl⟩ := ask_ok (fun _ _ h => by cases h) hy
  have hget : (get : TypeM Memory) program m = .ok m m := rfl
  rw [answer, step, expressionType, bind_of_ok hget]
  cases ht : m.expressions[e.id]? with
  | some t => exact ⟨w, t, m, .refl w, rfl, hm, hn, hm.expressions ht hu⟩
  | none =>
    have hk : T.rank (.expression e) ≤ k := Nat.le_of_lt_succ (Nat.lt_of_lt_of_le hr hc)
    obtain ⟨w', t, m', hw, hx, hm', h⟩ :=
      (agree_inferExpression (ih { c with rank := T.rank (.expression e) } hk) H e).gives
        (inferExpression · e) (hm.lower (Nat.le_of_lt hr)) (H.expression hu)
    refine ⟨w', t, _, hw, bind_of_ok hx _, (hm.restore hw hm').remember H hu h, hn, h⟩

theorem agree_symbol (ih : ∀ c : Context, c.rank ≤ k → Asks T program c (answer k))
    (hc : c.rank ≤ k + 1) (id : SymbolId) : Agree T program c T.Stands w
      (answer (k + 1) (.symbol id)) (T.ask c.rank (.symbol id)) := by
  intro m n u n' hm hn hy
  obtain ⟨hr, hu, rfl⟩ := ask_ok (fun _ _ h => by cases h) hy
  have hget : (get : TypeM Memory) program m = .ok m m := rfl
  rw [answer, step, symbolType, bind_of_ok hget]
  cases ht : m.symbols[id]? with
  | some t => exact ⟨w, t, m, .refl w, rfl, hm, hn, hm.symbols ht hu⟩
  | none =>
    have hk : T.rank (.symbol id) ≤ k := Nat.le_of_lt_succ (Nat.lt_of_lt_of_le hr hc)
    obtain ⟨w', t, m', hw, hx, hm', h⟩ :=
      (agree_inferSymbol (ih ⟨_, id :: c.resolving, c.loading⟩ hk) H id).gives
        (inferSymbol · id) (hm.resolve (Nat.le_of_lt hr)) (H.symbol hu)
    have hrun := whileResolving_of_ok hx
    dsimp only
    rw [bind_of_ok (hm.isResolving hr)]
    refine ⟨w', t, _, hw, bind_of_ok hrun _, (hm.release hw hm').rememberSymbol hu h, hn, h⟩

/-! ### Members -/

omit H in
/-- While the members of a declared type are found it has none. -/
theorem Known.load (hm : Known T program c w m) {i : ShapeId} {name : String}
    (hi : w.labels[i]? = some name) (hr : T.rank (.members 0 name) ≤ c.rank) :
    Known T program ⟨T.rank (.members 0 name), c.resolving, i :: c.loading⟩ w
      { m with members := m.members.modify i fun _ => .known [] none } :=
  { hm with
    size := by rw [Array.size_modify, hm.size]
    resolvingAbove := (hm.lower hr).resolvingAbove
    loadingAbove := fun j hj => by
      cases List.mem_cons.mp hj with
      | inl hj => exact ⟨name, hj ▸ hi, Nat.le_refl _⟩
      | inr hj => exact (hm.lower hr).loadingAbove j hj
    pending := fun {j label source listed} hj hs hl => by
      rw [Array.getElem?_modify] at hs
      split at hs
      · cases hx : m.members[j]? with
        | none => rw [hx] at hs; cases hs
        | some x => rw [hx] at hs; cases hs
      · exact hm.pending hj hs hl
    known := fun {j label ps ix listed} hj hloading hs hl => by
      rw [List.mem_cons, not_or] at hloading
      rw [Array.getElem?_modify, if_neg fun he => hloading.1 he.symm] at hs
      exact hm.known hj hloading.2 hs hl }

omit H in
/-- The members of a declared type have been found. -/
theorem Known.loaded (hm : Known T program c w m) {i : ShapeId} {name : String} {m' : Memory}
    {ps : List (String × Ty)} {ix : Option Ty} {listed : List (String × Ty) × Option Ty} (hw : w.Le w')
    (hi : w.labels[i]? = some name) (hl : T.members name = some listed)
    (hshape : T.StandShape w' (ps, ix) listed)
    (hm' : Known T program ⟨T.rank (.members 0 name), c.resolving, i :: c.loading⟩ w' m') :
    Known T program c w' { m' with members := m'.members.modify i fun _ => .known ps ix } :=
  { hm' with
    size := by rw [Array.size_modify, hm'.size]
    resolvingAbove := hm.resolvingAbove
    loadingAbove := fun j hj => by
      obtain ⟨label, hlabel, hn⟩ := hm.loadingAbove j hj
      exact ⟨label, hw.declared hlabel, hn⟩
    pending := fun {j label source other} hj hs ho => by
      rw [Array.getElem?_modify] at hs
      split at hs
      · cases hx : m'.members[j]? with
        | none => rw [hx] at hs; cases hs
        | some x => rw [hx] at hs; cases hs
      · exact hm'.pending hj hs ho
    known := fun {j label qs jx other} hj hloading hs ho => by
      rw [Array.getElem?_modify] at hs
      split at hs
      · rename_i he
        obtain rfl : label = name := Option.some.inj (hj.symm.trans (he ▸ hw.declared hi))
        rw [hl] at ho
        cases ho
        cases hx : m'.members[j]? with
        | none => rw [hx] at hs; cases hs
        | some x =>
          rw [hx] at hs
          cases hs
          exact hshape
      · rename_i he
        exact hm'.known hj (by simp [hloading, Ne.symm he]) hs ho }

theorem agree_members (ih : ∀ c : Context, c.rank ≤ k → Asks T program c (answer k))
    (hc : c.rank ≤ k + 1) {i j : ShapeId} {name : String} (hi : w.labels[i]? = some name) :
    Agree T program c T.StandMembers w (membersOf? (answer (k + 1)) (.declared i name))
      (membersOf? (T.ask c.rank) (.declared j name)) := by
  intro m n b n' hm hn hy
  obtain ⟨hr, ⟨listed, hl, rfl⟩, hn'⟩ := membersOf?_ask_ok hn hy
  have hfree : i ∉ c.loading := fun hloading => by
    obtain ⟨label, hlabel, hle⟩ := hm.loadingAbove i hloading
    rw [hi] at hlabel
    cases hlabel
    exact absurd hle (Nat.not_le.mpr hr)
  have hlt : i < m.members.size := hm.size ▸ (Array.getElem?_eq_some_iff.mp hi).1
  -- It is enough that the members are known after the question.
  have done {w' : World} {m' : Memory} {ps : List (String × Ty)} {ix : Option Ty}
      (hload : loadMembers (answer k) i program m = .ok () m') (hw : w.Le w')
      (hm' : Known T program c w' m') (hs : m'.members[i]? = some (.known ps ix))
      (hshape : T.StandShape w' (ps, ix) listed) :
      ∃ w' a m', w.Le w' ∧ membersOf? (answer (k + 1)) (.declared i name) program m = .ok a m' ∧
        Known T program c w' m' ∧ Blank T program n' ∧ T.StandMembers w' a (some listed) := by
    refine ⟨w', some (ps, ix), m', hw, ?_, hm', hn', .some hshape⟩
    have hask : answer (k + 1) (.members i name) program m = .ok (.declared i name) m' :=
      bind_of_ok hload _
    have hdiscard : (discard (answer (k + 1) (.members i name)) : TypeM Unit) program m = .ok () m' :=
      bind_of_ok hask fun _ => pure ()
    rw [membersOf?, bind_of_ok hdiscard,
      bind_of_ok (show (get : TypeM Memory) program m' = .ok m' m' from rfl), hs]
    rfl
  have hget : (get : TypeM Memory) program m = .ok m m := rfl
  cases hx : m.members[i]? with
  | none => exact absurd hlt (Nat.not_lt.mpr (Array.getElem?_eq_none_iff.mp hx))
  | some x =>
    cases x with
    | known ps ix =>
      refine done (?_ : _ = EStateM.Result.ok () m) (.refl w) hm hx (hm.known hi hfree hx hl)
      rw [loadMembers, bind_of_ok hget, hx]
      rfl
    | pending source =>
      obtain ⟨found, qs, jx, n₁, hsource, hfind, hq, hj⟩ := H.members hl
      have hk : T.rank (.members 0 name) ≤ k := Nat.le_of_lt_succ (Nat.lt_of_lt_of_le hr hc)
      obtain ⟨w', ⟨ps, ix⟩, m', hw, hrun, hm', -, hp, hx'⟩ :=
        agree_findMembers (ih ⟨_, c.resolving, i :: c.loading⟩ hk) (hm.pending hi hx hsource) _ _ _ _
          (hm.load hi (Nat.le_of_lt hr)) (blank_start T program) hfind
      have hshape : T.StandShape w' (ps, ix) listed :=
        ⟨hp.trans T.reading_functional hq, hx'.trans T.reading_functional hj⟩
      refine done ?_ hw (hm.loaded hw hi hl hshape hm') ?_ hshape
      · rw [loadMembers, bind_of_ok hget, hx]
        exact (bind_of_ok (show setMembers i [] none program m = .ok () _ from rfl) _).trans
          (bind_of_ok hrun _)
      · have hlt : i < m'.members.size := hm'.size ▸ (Array.getElem?_eq_some_iff.mp (hw.declared hi)).1
        rw [Array.getElem?_modify, if_pos rfl, Array.getElem?_eq_getElem hlt]
        rfl

/-! ### Annotations -/

omit H in
theorem aliasUse?_eq_some {env : Env} {type : Node} {use : AliasUse}
    (h : aliasUse? program env type = some use) :
    ∃ m name, type = .typeReference m name use.args ∧ env.lookup name = none ∧
      ¬ (use.args.length = 1 ∧ (name == "Array" || name == "ReadonlyArray") = true) ∧
      program.origin? m.id = some (.symbol use.id) ∧
      (program.bindings.symbol use.id).kind = .aliasType ∧
      ∃ m' modifiers i, (program.bindings.symbol use.id).declaration =
        .typeAlias m' modifiers i use.params use.type := by
  unfold aliasUse? at h
  split at h
  · rename_i m name args
    split at h
    · cases h
    rename_i hplain
    split at h
    · rename_i id ho
      dsimp only at h
      split at h
      · rename_i m' modifiers i params type hk hd
        cases h
        simp only [Bool.or_eq_true, not_or, Bool.not_eq_true, Option.isSome_eq_false_iff,
          Option.isNone_iff_eq_none] at hplain
        refine ⟨m, name, rfl, hplain.1, ?_, ho, hk, m', modifiers, i, hd⟩
        rintro ⟨hlength, hname⟩
        simp [hlength, hname] at hplain
      · cases h
    · cases h
  · cases h

omit H in
/-- A reference to an alias runs its arguments and then what it names. -/
theorem referenced_of_alias {ask : Asker} {env : Env} {nodeId : Nat} {name : String}
    {args : List Node} {ts : List Ty} {id : SymbolId} {m₁ : Memory}
    (hlookup : env.lookup name = none) (hlength : ts.length = args.length)
    (hplain : ¬ (args.length = 1 ∧ (name == "Array" || name == "ReadonlyArray") = true))
    (ho : program.origin? nodeId = some (.symbol id))
    (hargs : (args.mapM fun arg => ask (.written env arg)) program m = .ok ts m₁) :
    referenced ask env nodeId name args program m = namedType ask id ts program m₁ := by
  have hnamed : originType ask nodeId ts program m₁ = namedType ask id ts program m₁ := by
    rw [originType, bind_of_ok (show (read : TypeM Program) program m₁ = .ok program m₁ from rfl), ho]
  rw [referenced, hlookup]
  dsimp only
  rw [bind_of_ok hargs]
  cases ts with
  | nil => exact hnamed
  | cons t rest =>
    cases rest with
    | nil =>
      dsimp only
      rw [if_neg fun hs => hplain ⟨hlength.symm, hs⟩]
      exact hnamed
    | cons => exact hnamed

omit H in
/-- What an alias that is not under way stands for: what it is written as, with a name. -/
theorem namedType_of_alias {ask : Asker} {id : SymbolId} {ts : List Ty} {params : List Node}
    {type : Node} {a : Ty} {m₁ : Memory} {mark : Mark} {modifiers : List Modifier} {i : Ident}
    (hk : (program.bindings.symbol id).kind = .aliasType)
    (hd : (program.bindings.symbol id).declaration = .typeAlias mark modifiers i params type)
    (hfree : isResolving id program m = .ok false m)
    (hx : ask (.written (bindParams (paramNames params) ts []) type) program
      { m with resolving := id :: m.resolving } = .ok a m₁) :
    namedType ask id ts program m =
      (do nameRecord (program.bindings.symbol id).name a; return a) program
        { m₁ with resolving := m₁.resolving.erase id } := by
  unfold namedType
  rw [bind_of_ok (show (read : TypeM Program) program m = .ok program m from rfl)]
  simp only [hk, hd]
  exact (bind_of_ok hfree _).trans (bind_of_ok (whileResolving_of_ok hx) _)

omit H in
/-- A record that was made last is named as if it had been made with the name. -/
theorem modify_push_none (names : RecordNames) (name : String) :
    (names.push none).modify names.size (·.or (some name)) = names.push (some name) := by
  refine Array.ext_getElem? fun l => ?_
  rw [Array.getElem?_modify, Array.getElem?_push, Array.getElem?_push]
  split
  · rename_i he
    rw [if_pos he.symm, if_pos he.symm]
    rfl
  · rename_i he
    rw [if_neg (Ne.symm he), if_neg (Ne.symm he)]

omit H in
/-- A record that has a name keeps it. -/
theorem nameRecord_kept (hm : Known T program c w m) {a u : Ty} (h : T.Stands w a u)
    (hu : ∀ j ps ix, u = .record j ps ix → (T.names[j]?).join ≠ none) (name : String) :
    nameRecord name a program m = .ok () m := by
  cases h with
  | @record i j label ps qs ix jx hi hj _ _ =>
    cases label with
    | none => exact absurd hj (hu j qs jx rfl)
    | some label =>
      have hi : m.names[i]? = some (some label) := by
        rw [hm.names]
        exact hi
      have hsame : m.names.modify i (·.or (some name)) = m.names := by
        refine Array.ext_getElem? fun l => ?_
        rw [Array.getElem?_modify]
        split
        · rename_i he
          rw [← he, hi]
          rfl
        · rfl
      show EStateM.Result.ok () { m with names := m.names.modify i (·.or (some name)) } = _
      rw [hsame]
  | _ => rfl

theorem agree_written (ih : ∀ j ≤ k, ∀ c : Context, c.rank ≤ j → Asks T program c (answer j))
    (hc : c.rank ≤ k + 1) {env env' : Env} (henv : T.StandNamed w env env') (type : Node) :
    Agree T program c T.Stands w (answer (k + 1) (.written env type))
      (T.ask c.rank (.written env' type)) := by
  intro m n u n' hm hn hy
  obtain ⟨hr, hu, rfl⟩ := ask_ok (fun _ _ h => by cases h) hy
  have hk : T.rank (.written env' type) ≤ k := Nat.le_of_lt_succ (Nat.lt_of_lt_of_le hr hc)
  have hasks := ih k (Nat.le_refl k) { c with rank := T.rank (.written env' type) } hk
  cases halias : aliasUse? program env' type with
  | none =>
    obtain ⟨w', t, m', hw, hx, hm', h⟩ := (agree_writtenType hasks H henv halias).gives
      (writtenType · env' type) (hm.lower (Nat.le_of_lt hr)) (H.written hu halias)
    exact ⟨w', t, m', hw, hx, hm.restore hw hm', hn, h⟩
  | some use =>
    obtain ⟨us, n₁, v, hargs, hv, hbody, huse, hrenames⟩ := H.aliased hu halias
    obtain ⟨mark, name, rfl, hlookup, hplain, ho, hkind, m', modifiers, i, hd⟩ :=
      aliasUse?_eq_some halias
    obtain ⟨id, params, written, args⟩ := use
    dsimp only at *
    have hlookup' : env.lookup name = none := by
      have h := (henv.lookup name).isSome_eq
      rw [hlookup] at h
      simpa using h
    obtain ⟨w₁, ts, m₁, hw₁, hxargs, hm₁, -, hts, hlength⟩ :=
      agree_mapM (fun w' n hw => hasks.written w' env env' n (henv.mono hw)) args _ _ _ _
        (hm.lower (Nat.le_of_lt hr)) (blank_start T program) hargs
    have hm₁ := hm.restore hw₁ hm₁
    have hsymbol : T.rank (.symbol id) < c.rank := Nat.lt_of_le_of_lt huse hr
    have hm₂ := hm₁.resolve (Nat.le_of_lt hsymbol)
    have henv₁ : T.StandNamed w₁ (bindParams (paramNames params) ts [])
      (bindParams (paramNames params) us []) := SameNamed.bindParams _ hts .nil
    -- What is left is to find what the alias is written as, and to name it.
    have finish {w₂ : World} {a : Ty} {m₂ m₃ : Memory} (hw₂ : w₁.Le w₂)
        (hx : answer k (.written (bindParams (paramNames params) ts []) written) program
          { m₁ with resolving := id :: m₁.resolving } = .ok a m₂)
        (hname : nameRecord (program.bindings.symbol id).name a program
          { m₂ with resolving := m₂.resolving.erase id } = .ok () m₃)
        (hm₃ : Known T program c w₂ m₃) (ha : T.Stands w₂ a u) :
        ∃ w' a m', w.Le w' ∧
          answer (k + 1) (.written env (.typeReference mark name args)) program m = .ok a m' ∧
          Known T program c w' m' ∧ Blank T program n' ∧ T.Stands w' a u := by
      refine ⟨w₂, a, m₃, hw₁.trans hw₂, ?_, hm₃, hn, ha⟩
      have href := referenced_of_alias hlookup' (hts.length_eq.trans hlength) hplain ho hxargs
      have hnamed := namedType_of_alias hkind hd (hm₁.isResolving hsymbol) hx
      exact (href.trans hnamed).trans (bind_of_ok hname _)
    cases hrenames with
    | kept hkept hsame =>
      have hasks₂ := ih k (Nat.le_refl k) ⟨T.rank (.symbol id), id :: c.resolving, c.loading⟩
        (Nat.le_trans huse hk)
      have hlisted := ask_of_listed program (fun _ _ h => by cases h) hbody hv T.start
      obtain ⟨w₂, a, m₃, hw₂, hx, hm₃, -, ha⟩ := hasks₂.written w₁ _ _ written henv₁ _ _ _ _ hm₂
        (blank_start T program) hlisted
      have hm₄ := hm₁.release hw₂ hm₃
      exact finish hw₂ hx (nameRecord_kept hm₄ ha hkept _) hm₄
        (ha.trans T.reading_functional hsame)
    | @given literal members _ j ps qs ix jx hi hj hp hx =>
      obtain ⟨v, n₂, hrule, hv⟩ := H.written hv rfl
      obtain ⟨⟨qs', jx'⟩, n₃, hmembers, hrecord⟩ := bind_ok hrule
      cases hrecord
      cases hv with
      | record _ _ hp' hx' =>
        have hlt := Nat.lt_of_lt_of_le hbody (Nat.le_trans huse hk)
        obtain ⟨l, rfl⟩ : ∃ l, k = l + 1 :=
          Nat.exists_eq_succ_of_ne_zero (Nat.ne_zero_of_lt hlt)
        obtain ⟨w₂, ⟨ps', ix'⟩, m₃, hw₂, hfound, hm₃, -, hpp, hxx⟩ :=
          agree_writtenMembers (ih l (Nat.le_succ l) ⟨_, id :: c.resolving, c.loading⟩
            (Nat.le_of_lt_succ hlt)) henv₁ .nil .none members _ _ _ _
            (hm₂.lower (Nat.le_of_lt hbody)) (blank_start T program) hmembers
        have hm₃ := hm₂.restore hw₂ hm₃
        have hw₃ := w₂.le_enter (some (program.bindings.symbol id).name)
        have hm₄ := hm₁.release (hw₂.trans hw₃)
          (hm₃.enter (hm₃.arises.enter fun label hl => ⟨id, hkind, (Option.some.inj hl).symm⟩))
        refine finish (hw₂.trans hw₃) ((bind_of_ok hfound _).trans rfl) ?_ hm₄ ?_
        · show EStateM.Result.ok () _ = _
          simp only [modify_push_none]
        · have hi : (w₂.enter (some (program.bindings.symbol id).name)).reading.record m₃.names.size
              (some (program.bindings.symbol id).name) := by
            rw [hm₃.names]
            exact Array.getElem?_push_size
          have hps := (hpp.trans T.reading_functional hp').trans T.reading_functional hp
          have hxs := (hxx.trans T.reading_functional hx').trans T.reading_functional hx
          exact .record hi hj (hps.mono hw₃) (hxs.mono hw₃)

/-! ## The oracle -/

/-- The oracle answers as the table does, with a question waiting for each rank at most. -/
theorem asks_answer (n : Nat) : ∀ c : Context, c.rank ≤ n → Asks T program c (answer n) := by
  induction n using Nat.strong_induction_on with
  | _ n ih =>
    intro c hc
    cases n with
    | zero =>
      have none {q : Query} {r : Prop} (h : T.rank q < c.rank) : r :=
        absurd h (Nat.not_lt.mpr (Nat.le_trans hc (Nat.zero_le _)))
      exact {
        expression := fun w e m n u n' _ _ hy => none (ask_ok (fun _ _ h => by cases h) hy).1
        symbol := fun w id m n u n' _ _ hy => none (ask_ok (fun _ _ h => by cases h) hy).1
        written := fun w env env' type _ m n u n' _ _ hy => none (ask_ok (fun _ _ h => by cases h) hy).1
        members := fun w i j name _ m n b n' _ hn hy => none (membersOf?_ask_ok hn hy).1 }
    | succ k =>
      have hbelow := ih k (Nat.lt_succ_self k)
      exact {
        expression := fun w e => agree_expression H hbelow hc e
        symbol := fun w id => agree_symbol H hbelow hc id
        written := fun w env env' type henv =>
          agree_written H (fun j hj => ih j (Nat.lt_succ_of_le hj)) hc henv type
        members := fun w i j name hi => agree_members H hbelow hc hi }

end

end ScriptBridge.Typing
