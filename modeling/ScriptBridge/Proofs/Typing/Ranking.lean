import ScriptBridge.Proofs.Typing.Remembered

/-!
# Interfaces that lead to lower ones

The members of an interface are looked for together with those of the interfaces that it extends, and
an intersection among them has the members of its parts looked for at once. A `Ranking` gives interfaces
ranks such that what is looked for in this way ranks lower, unless it is an interface without arguments,
which has one object type only.

The object type that a type expression of such a form stands for is then that of a lower interface or of
one without arguments (`endsBelow_written`).

* `LeadsBelow`, `IsTame`, `Ranking`: ranks, and what they say about heritage and intersections.
* `OpensBelow`, `Below`: object types and types whose members are looked for below a rank.
* `endsBelow_written`: what leads below a rank stands for a type below it.
-/

namespace ScriptBridge.Typing

open ScriptBridge.Binding ScriptBridge.TypeScript
open ScriptBridge.Conversion (bind_ok)

variable {α : Type} {program : Program}

/-! ## Rankings -/

/-- Type expressions that stand for no interface, however they are nested. -/
def isOutright : Node → Bool
  | .keywordType .. | .literalType .. | .arrayType .. | .tupleType .. | .functionType ..
  | .typeLiteral .. => true
  | .intersectionType _ types => types.length != 1
  | _ => false

/-- A type expression that stands for no type parameter, and for no interface of a rank or above but those
without arguments. -/
inductive LeadsBelow (program : Program) (rankOf : SymbolId → Nat) (rank : Nat) :
    List String → Node → Prop
  | outright {params : List String} {n : Node} (h : isOutright n = true) :
    LeadsBelow program rankOf rank params n
  | operator {params : List String} {m : Mark} {operator : String} {type : Node}
    (h : LeadsBelow program rankOf rank params type) :
    LeadsBelow program rankOf rank params (.typeOperator m operator type)
  | union {params : List String} {m : Mark} {types : List Node}
    (h : ∀ t ∈ types, LeadsBelow program rankOf rank params t) :
    LeadsBelow program rankOf rank params (.unionType m types)
  | reference {params : List String} {m : Mark} {name : String} {args : List Node}
    (hname : name ∉ params)
    (hinterface : ∀ id, program.origin? m.id = some (.symbol id) →
      (program.bindings.symbol id).kind = .interfaceType → args = [] ∨ rankOf id < rank)
    (halias : ∀ id m' modifiers ident params' type, program.origin? m.id = some (.symbol id) →
      (program.bindings.symbol id).declaration = .typeAlias m' modifiers ident params' type →
        LeadsBelow program rankOf rank (paramNames params') type) :
    LeadsBelow program rankOf rank params (.typeReference m name args)

/-- Whether an expression is a name. -/
def isName : Node → Bool
  | .ident _ => true
  | _ => false

/-- A type expression in which nothing is asked about values but names, and each part of an intersection
leads below a rank. -/
def IsTame (program : Program) (rankOf : SymbolId → Nat) (params : List String) (rank : Nat)
    (n : Node) : Prop :=
  ∀ k ∈ n.preorder, (∀ e ∈ valuesOf k, isName e = true) ∧
    ∀ m types, k = .intersectionType m types → ∀ t ∈ types, LeadsBelow program rankOf rank params t

/-- Ranks of the interfaces of a program: an interface with arguments is extended only by those of higher
rank, and so it is with the parts of intersections in their members. -/
structure Ranking (program : Program) where
  rank : SymbolId → Nat
  top : Nat
  rank_le : ∀ id, rank id ≤ top
  heritage : ∀ {id m modifiers name params heritage members},
    .interfaceDeclaration m modifiers name params heritage members ∈
      (program.bindings.symbol id).declarations →
    ∀ base ∈ heritage, LeadsBelow program rank (rank id)
      (interfaceParams (program.bindings.symbol id).declarations) base
  tame : ∀ {id m modifiers name params heritage members},
    .interfaceDeclaration m modifiers name params heritage members ∈
      (program.bindings.symbol id).declarations →
    ∀ n ∈ heritage ++ members, IsTame program rank
      (interfaceParams (program.bindings.symbol id).declarations) (rank id) n

theorem IsTame.inside {rankOf : SymbolId → Nat} {params : List String} {rank : Nat} {n k : Node}
    (h : IsTame program rankOf params rank n) (hk : k ∈ n.children) :
    IsTame program rankOf params rank k :=
  fun j hj => h j (Node.mem_preorder_of_children hk hj)

theorem isTame_of_children {rankOf : SymbolId → Nat} {params : List String} {rank : Nat} {n : Node}
    (hvalues : ∀ e ∈ valuesOf n, isName e = true)
    (hparts : ∀ m types, n = .intersectionType m types →
      ∀ t ∈ types, LeadsBelow program rankOf rank params t)
    (h : ∀ k ∈ n.children, IsTame program rankOf params rank k) :
    IsTame program rankOf params rank n := by
  intro k hk
  obtain rfl | ⟨child, hchild, hk⟩ := Node.mem_preorder.mp hk
  · exact ⟨hvalues, hparts⟩
  · exact h child hchild k hk

/-! ## Members of unions -/

/-- A type among those of a union, or that type itself. -/
inductive Among (u : Ty) : Ty → Prop
  | self : Among u u
  | member {ms : List Ty} {t : Ty} (hmem : t ∈ ms) (h : Among u t) : Among u (.union ms)

theorem Among.of_members {u t v : Ty} (h : Among u v) (hv : v ∈ t.members) : Among u t := by
  cases t with
  | union ms => exact .member hv h
  | _ =>
    rw [List.mem_singleton.mp hv] at h
    exact h

theorem mem_of_distinct {names : RecordNames} {seen keys : List String} {kept ts found : List Ty}
    (h : distinct names seen kept ts = .ok (some (found, keys))) {t : Ty} (ht : t ∈ found) :
    t ∈ kept ∨ t ∈ ts := by
  induction ts generalizing seen kept with
  | nil =>
    cases h
    exact .inl ht
  | cons u ts ih =>
    unfold distinct at h
    split at h
    · cases h
    split at h
    · exact (ih h).imp_right (List.mem_cons_of_mem u)
    cases hkey : u.text names with
    | error fault =>
      rw [hkey] at h
      cases h
    | ok key =>
      rw [hkey] at h
      change (if seen.contains key then _ else _) = _ at h
      split at h
      · exact (ih h).imp_right (List.mem_cons_of_mem u)
      · obtain hkept | hts := ih h
        · obtain hkept | hu := List.mem_append.mp hkept
          · exact .inl hkept
          · exact .inr (List.mem_singleton.mp hu ▸ List.mem_cons_self)
        · exact .inr (List.mem_cons_of_mem u hts)

theorem mem_of_settled {keys : List String} {members : List Ty} {t : Ty}
    (h : t ∈ absorbTruths (joinTruths keys members)) : t ∈ members ∨ t = .primitive .boolean := by
  have hjoined : t ∈ joinTruths keys members := by
    unfold absorbTruths at h
    split at h
    · exact (List.mem_filter.mp h).1
    · exact h
  unfold joinTruths at hjoined
  split at hjoined
  · refine (List.mem_append.mp hjoined).imp (fun hold => (List.mem_filter.mp hold).1) ?_
    exact List.mem_singleton.mp
  · exact .inl hjoined

theorem among_of_ofMembers {s : ShapeId} {name : String} {ts : List Ty}
    (h : Among (.declared s name) (ofMembers ts)) : ∃ t ∈ ts, Among (.declared s name) t := by
  rcases ts with _ | ⟨t, _ | ⟨t', rest⟩⟩
  · cases h
  · exact ⟨t, List.mem_cons_self, h⟩
  · cases h with
    | member hmem h => exact ⟨_, hmem, h⟩

/-- An object type in a union comes from the types that are joined. -/
theorem among_unionOf {names : RecordNames} {ts : List Ty} {t : Ty} (h : unionOf names ts = .ok t)
    {s : ShapeId} {name : String} (ht : Among (.declared s name) t) :
    ∃ u ∈ ts, Among (.declared s name) u := by
  have primitive {p : Primitive} (h : Among (.declared s name) (.primitive p)) : False := by cases h
  cases hdistinct : distinct names [] [] (ts.flatMap Ty.members) with
  | error fault =>
    rw [unionOf, hdistinct] at h
    cases h
  | ok found =>
    rw [unionOf, hdistinct] at h
    cases found with
    | none =>
      cases h
      exact (primitive ht).elim
    | some found =>
      obtain ⟨members, keys⟩ := found
      change (if hasPrimitive .unknown members then _ else _) = Except.ok t at h
      split at h
      · cases h
        exact (primitive ht).elim
      cases h
      obtain ⟨v, hv, hs⟩ := among_of_ofMembers ht
      obtain hmember | rfl := mem_of_settled hv
      · obtain hnil | hflat := mem_of_distinct hdistinct hmember
        · cases hnil
        · obtain ⟨u, hu, hvu⟩ := List.mem_flatMap.mp hflat
          exact ⟨u, hu, hs.of_members hvu⟩
      · exact (primitive hs).elim

/-! ## Types below a rank -/

/-- An object type whose members, if they are to be looked for, come from an interface below a rank or
from one without arguments. -/
def OpensBelow (rankOf : SymbolId → Nat) (rank : Nat) (m : Memory) (s : ShapeId) : Prop :=
  ∀ id env, m.members[s]? = some (.pending (.interfaces id env)) →
    rankOf id < rank ∨ ∃ name, m.interfaces[(id, "")]? = some (.declared s name)

/-- A type whose object types are below a rank. -/
def Below (rankOf : SymbolId → Nat) (rank : Nat) (m : Memory) (t : Ty) : Prop :=
  ∀ s name, Among (.declared s name) t → s < m.members.size ∧ OpensBelow rankOf rank m s

/-- A type that is no object type of an interface and has none in a union. -/
def Shapeless (t : Ty) : Prop :=
  ∀ s name, ¬ Among (.declared s name) t

section
variable {rankOf : SymbolId → Nat} {rank : Nat} {m : Memory}

theorem Below.mono {m' : Memory} {t : Ty} (h : Below rankOf rank m t) (honward : Onward m m') :
    Below rankOf rank m' t := by
  intro s name ht
  obtain ⟨hs, hopens⟩ := h s name ht
  refine ⟨Nat.lt_of_lt_of_le hs honward.size, fun id env hp => ?_⟩
  refine (hopens id env (honward.pending hs hp)).imp_right fun hplain => ?_
  obtain ⟨name', hplain⟩ := hplain
  exact ⟨name', honward.interfaces hplain⟩

theorem Shapeless.below {t : Ty} (h : Shapeless t) : Below rankOf rank m t :=
  fun s name ht => absurd ht (h s name)

theorem shapeless_any : Shapeless .any :=
  fun _ _ h => by cases h

/-- From a memory, an action gives types below a rank. -/
def EndsBelow (program : Program) (rankOf : SymbolId → Nat) (rank : Nat) (m : Memory)
    (x : TypeM Ty) : Prop :=
  ∀ t m', x program m = .ok t m' → Below rankOf rank m' t

theorem EndsBelow.bind {x : TypeM α} {f : α → TypeM Ty}
    (h : ∀ a m', x program m = .ok a m' → EndsBelow program rankOf rank m' (f a)) :
    EndsBelow program rankOf rank m (x >>= f) := by
  intro t m' hrun
  obtain ⟨a, m₁, hx, hf⟩ := bind_ok hrun
  exact h a m₁ hx t m' hf

theorem EndsBelow.read {f : Program → TypeM Ty} (h : EndsBelow program rankOf rank m (f program)) :
    EndsBelow program rankOf rank m (read >>= f) :=
  h

theorem endsBelow_pure {t : Ty} (h : Below rankOf rank m t) :
    EndsBelow program rankOf rank m (pure t) := by
  rintro t' m' ⟨⟩
  exact h

theorem endsBelow_any : EndsBelow program rankOf rank m (pure .any) :=
  endsBelow_pure shapeless_any.below

theorem endsBelow_made {x : TypeM α} {f : α → Ty} (h : ∀ a, Shapeless (f a)) :
    EndsBelow program rankOf rank m (x >>= fun a => pure (f a)) :=
  EndsBelow.bind fun a _ _ => endsBelow_pure (h a).below

/-! ## What type expressions stand for -/

/-- An intersection of more than one type, or of none, has its members in it. -/
theorem endsBelow_intersection {ask : Asker} {count : Nat} (hcount : count ≠ 1)
    (properties : List (String × Ty)) (index : Option Ty) (types : List Ty) :
    EndsBelow program rankOf rank m (intersection ask count properties index types) := by
  induction types generalizing properties index m with
  | nil =>
    rintro t m' ⟨⟩
    exact Shapeless.below fun _ _ h => by cases h
  | cons u rest ih =>
    refine EndsBelow.bind fun members m₁ _ => ?_
    split
    · exact ih _ _
    · rw [if_neg hcount]
      exact endsBelow_any

theorem mapM_length {β : Type} {f : β → TypeM α} {bs : List β} {as : List α} {m' : Memory}
    (h : bs.mapM f program m = .ok as m') : as.length = bs.length := by
  induction bs generalizing as m m' with
  | nil =>
    cases h
    rfl
  | cons b bs ih =>
    rw [List.mapM_cons] at h
    obtain ⟨a, m₁, -, h⟩ := bind_ok h
    obtain ⟨as', m₂, hrest, h⟩ := bind_ok h
    cases h
    rw [List.length_cons, List.length_cons, ih hrest]

theorem endsBelow_outright {k : Nat} {env : Env} {type : Node} (h : isOutright type = true) :
    EndsBelow program rankOf rank m (answer k (.written env type)) := by
  cases k with
  | zero => exact fun t m' hrun => by cases hrun
  | succ k =>
    show EndsBelow program rankOf rank m (writtenType (answer k) env type)
    unfold isOutright at h
    split at h
    · exact endsBelow_pure (Shapeless.below fun _ _ h => by cases h)
    · rename_i value
      exact endsBelow_pure (Shapeless.below fun _ _ h => by cases value <;> cases h)
    · exact endsBelow_made fun _ _ _ h => by cases h
    · exact endsBelow_made fun _ _ _ h => by cases h
    · exact EndsBelow.bind fun _ _ _ => endsBelow_made fun _ _ _ h => by cases h
    · exact EndsBelow.bind fun _ _ _ t m' hrun => by
        cases hrun
        exact Shapeless.below fun _ _ h => by cases h
    · refine EndsBelow.bind fun types m₁ hrun => endsBelow_intersection ?_ _ _ _
      rw [mapM_length hrun]
      simpa using h
    · cases h

/-- The object type of an interface has its rank. -/
theorem endsBelow_interfaceType (hm : Orderly program m) {id : SymbolId} {args : List Ty}
    (hid : args = [] ∨ rankOf id < rank) :
    EndsBelow program rankOf rank m (interfaceType id args) := by
  intro t m' hrun
  obtain ⟨fault, h, -⟩ | ⟨key, u, hkey, hknown, h⟩ | ⟨key, name, hkey, -, h⟩ :=
    interfaceType_cases program id args m
  · rw [h] at hrun
    cases hrun
  · rw [h] at hrun
    cases hrun
    obtain ⟨s, name, rfl, hs, hsource⟩ := hm.made hknown
    rintro _ _ ⟨⟩
    refine ⟨hs, fun other env hp => ?_⟩
    rw [hsource other env hp]
    refine hid.symm.imp_right fun hargs => ⟨name, ?_⟩
    subst hargs
    rwa [hkey.nil] at hknown
  · rw [h] at hrun
    cases hrun
    rintro _ _ ⟨⟩
    refine ⟨by simp [Memory.instantiate], fun other env hp => ?_⟩
    simp only [Memory.instantiate, Array.getElem?_push_size, Option.some.injEq,
      Members.pending.injEq, MemberSource.interfaces.injEq] at hp
    rw [← hp.1]
    refine hid.symm.imp_right fun hargs => ⟨name, ?_⟩
    subst hargs
    rw [hkey.nil]
    simp [Memory.instantiate]

/-- What is asked first leaves an orderly memory. -/
theorem orderly_after {x : TypeM α} (hx : Moves program (fun m m' => Orderly program m → Orderly program m')
    α x) (hm : Orderly program m) {a : α} {m' : Memory} (hrun : x program m = .ok a m') :
    Orderly program m' := by
  have := hx m
  rw [hrun] at this
  exact this hm

theorem onward_after {x : TypeM α} (hx : Moves program Onward α x) {a : α} {m' : Memory}
    (hrun : x program m = .ok a m') : Onward m m' := by
  have := hx m
  rwa [hrun] at this

/-- Types that are found one after the other are below a rank if each is. -/
theorem below_mapM {ask : Asker} {env : Env} {types : List Node}
    (horderly : ∀ q, Moves program (fun m m' => Orderly program m → Orderly program m') Ty (ask q))
    (honward : ∀ q, Moves program Onward Ty (ask q))
    (h : ∀ t ∈ types, ∀ m, Orderly program m →
      EndsBelow program rankOf rank m (ask (.written env t)))
    (hm : Orderly program m) {ts : List Ty} {m' : Memory}
    (hrun : types.mapM (fun t => ask (.written env t)) program m = .ok ts m') :
    ∀ t ∈ ts, Below rankOf rank m' t := by
  induction types generalizing m ts with
  | nil =>
    cases hrun
    exact fun _ h => by cases h
  | cons type types ih =>
    obtain ⟨htype, hrest⟩ := List.forall_mem_cons.mp h
    rw [List.mapM_cons] at hrun
    obtain ⟨t, m₁, hfirst, hrun⟩ := bind_ok hrun
    obtain ⟨ts', m₂, hmapM, hrun⟩ := bind_ok hrun
    cases hrun
    have hmoves : Moves program Onward (List Ty) (types.mapM fun t => ask (.written env t)) :=
      (respects_onward program).compositional.mapM fun t _ => honward _
    refine List.forall_mem_cons.mpr ⟨?_, ih hrest (orderly_after (horderly _) hm hfirst) hmapM⟩
    exact (htype m hm t m₁ hfirst).mono (onward_after hmoves hmapM)

theorem endsBelow_whileResolving {id : SymbolId} {x : TypeM Ty}
    (h : EndsBelow program rankOf rank { m with resolving := id :: m.resolving } x) :
    EndsBelow program rankOf rank m (whileResolving id x) := by
  intro t m' hrun
  cases hx : x program { m with resolving := id :: m.resolving } with
  | ok u m₁ =>
    rw [whileResolving_of_ok hx] at hrun
    cases hrun
    exact h t m₁ hx
  | error fault m₁ =>
    rw [whileResolving_of_error hx] at hrun
    cases hrun

theorem endsBelow_namedType {k : Nat} (id : SymbolId) (args : List Ty) (hm : Orderly program m)
    (hinterface : (program.bindings.symbol id).kind = .interfaceType → args = [] ∨ rankOf id < rank)
    (halias : ∀ m' modifiers ident params type,
      (program.bindings.symbol id).declaration = .typeAlias m' modifiers ident params type →
        ∀ env, StandsFor env (paramNames params) → ∀ m, Orderly program m →
          EndsBelow program rankOf rank m (answer k (.written env type))) :
    EndsBelow program rankOf rank m (namedType (answer k) id args) := by
  refine EndsBelow.read ?_
  dsimp only
  split
  · exact endsBelow_interfaceType hm (hinterface ‹_›)
  · rename_i params type _ hdeclaration
    refine EndsBelow.bind fun resolving m₁ hresolving => ?_
    cases hresolving
    split
    · exact endsBelow_any
    · -- What the alias stands for is given a name at most.
      refine EndsBelow.bind fun t m₂ hrun => EndsBelow.bind fun _ m₃ hname => endsBelow_pure ?_
      have hbody := halias _ _ _ _ _ hdeclaration _ (standsFor_params _ args)
        { m with resolving := id :: m.resolving } ⟨hm.made, hm.params⟩
      refine (endsBelow_whileResolving hbody t m₂ hrun).mono (onward_after ?_ hname)
      exact (respects_onward program).compositional.nameRecord _ t
  · exact endsBelow_any

/-- What leads below a rank stands for a type below it. -/
theorem endsBelow_written {params : List String} {type : Node}
    (hleads : LeadsBelow program rankOf rank params type) (k : Nat) {env : Env}
    (henv : StandsFor env params) (hm : Orderly program m) :
    EndsBelow program rankOf rank m (answer k (.written env type)) := by
  induction hleads generalizing k env m with
  | outright h => exact endsBelow_outright h
  | @operator params mark operator type h ih =>
    cases k with
    | zero => exact fun t m' hrun => by cases hrun
    | succ k =>
      show EndsBelow program rankOf rank m
        (if operator == "keyof" then pure (.primitive .string) else answer k (.written env type))
      split
      · exact endsBelow_pure (Shapeless.below fun _ _ h => by cases h)
      · exact ih k henv hm
  | @union params mark types h ih =>
    cases k with
    | zero => exact fun t m' hrun => by cases hrun
    | succ k =>
      show EndsBelow program rankOf rank m
        (types.mapM (fun t => answer k (.written env t)) >>= join)
      refine EndsBelow.bind fun ts m₁ hrun t m₂ hjoin => ?_
      have hbelow := below_mapM ((respects_orderly program).answer k) ((respects_onward program).answer k)
        (fun t ht m hm => ih t ht k henv hm) hm hrun
      have hget : (get : TypeM Memory) program m₁ = .ok m₁ m₁ := rfl
      rw [join, Conversion.bind_of_ok hget] at hjoin
      cases hunion : unionOf m₁.names ts with
      | error fault =>
        rw [hunion] at hjoin
        cases hjoin
      | ok u =>
        rw [hunion] at hjoin
        cases hjoin
        intro s name hs
        obtain ⟨v, hv, hs⟩ := among_unionOf hunion hs
        exact hbelow v hv s name hs
  | @reference params mark name args hname hinterface halias ih =>
    cases k with
    | zero => exact fun t m' hrun => by cases hrun
    | succ k =>
      have hfree : env.lookup name = none := by
        cases h : env.lookup name with
        | none => rfl
        | some t => exact absurd (henv name (by simp [h])) hname
      show EndsBelow program rankOf rank m (referenced (answer k) env mark.id name args)
      unfold referenced
      rw [hfree]
      refine EndsBelow.bind fun ts m₁ hargs => ?_
      have hm₁ : Orderly program m₁ := orderly_after
        ((respects_orderly program).compositional.mapM fun arg _ =>
          (respects_orderly program).answer k (.written env arg)) hm hargs
      have hplain : args = [] → ts = [] := fun h => by
        subst h
        exact List.eq_nil_of_length_eq_zero (mapM_length hargs)
      have named {id : SymbolId} (horigin : program.origin? mark.id = some (.symbol id)) :
          EndsBelow program rankOf rank m₁ (namedType (answer k) id ts) :=
        endsBelow_namedType id ts hm₁ (fun h => (hinterface id horigin h).imp_left hplain)
          fun _ _ _ _ _ h _ henv _ hm => ih id _ _ _ _ _ horigin h k henv hm
      dsimp only
      split
      · split
        · exact endsBelow_pure (Shapeless.below fun _ _ h => by cases h)
        · refine EndsBelow.read ?_
          split
          · exact named ‹_›
          · exact endsBelow_any
      · refine EndsBelow.read ?_
        split
        · exact named ‹_›
        · exact endsBelow_any

end

end ScriptBridge.Typing
