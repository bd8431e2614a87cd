import ScriptBridge.Proofs.Typing.Descent

/-!
# When the type oracle finishes

Patience limits how many questions wait for each other and nothing else. An action that has more of it
does the same, in the memory as well, unless with less it runs out (`Outlasts`). So an answer that was
found is found again, whatever the patience beyond.

Without an answer at any patience the oracle makes interfaces without end, since it takes a new one for
every further question that has to wait (`patience_le`). So it finishes exactly if the interfaces that it
makes are bounded, which they are in every program whose interfaces can be ranked. They are not where the
members of an interface are looked for together with those that it has for a larger argument: members are
looked for late, but those that an interface inherits and those of an intersection are looked for at once.

* `Outlasts`, `outlasts_answer`: what more patience changes.
* `FinishesAt`, `Finishes`: an answer that more patience does not change.
* `typeText_finishes`: when a type and its text are found.
* `growing_never_finishes`: interfaces for which they are not.
-/

namespace ScriptBridge.Typing

open ScriptBridge.Binding ScriptBridge.TypeScript
open ScriptBridge.Conversion (bind_of_ok bind_of_error)

section
variable {α β : Type} {program : Program}

/-! ## More patience -/

/-- A result that is want of patience. -/
def Impatient (result : EStateM.Result TypeFault Memory α) : Prop :=
  ∃ after, result = .error .outOfFuel after

/-- The second action does what the first one does, unless that runs out of patience. -/
def Outlasts (program : Program) (α : Type) (x y : TypeM α) : Prop :=
  ∀ m, Impatient (x program m) ∨ x program m = y program m

theorem Outlasts.refl (x : TypeM α) : Outlasts program α x x :=
  fun _ => .inr rfl

theorem Outlasts.trans {x y z : TypeM α} (h : Outlasts program α x y) (h' : Outlasts program α y z) :
    Outlasts program α x z := by
  intro m
  obtain himpatient | hxy := h m
  · exact .inl himpatient
  · rw [hxy]
    exact h' m

theorem Outlasts.bind {x y : TypeM α} {f g : α → TypeM β} (h : Outlasts program α x y)
    (hf : ∀ a, Outlasts program β (f a) (g a)) : Outlasts program β (x >>= f) (y >>= g) := by
  intro m
  obtain ⟨after, himpatient⟩ | hxy := h m
  · exact .inl ⟨after, bind_of_error himpatient _⟩
  cases hrun : y program m with
  | ok a m' =>
    rw [bind_of_ok (hxy.trans hrun), bind_of_ok hrun]
    exact hf a m'
  | error fault m' =>
    rw [bind_of_error (hxy.trans hrun), bind_of_error hrun]
    exact .inr rfl

theorem relational_outlasts : Relational program (Outlasts program) where
  pure _ := .refl _
  throw _ := .refl _
  bind := Outlasts.bind
  get := .refl _
  read h := h
  newRecord _ _ := .refl _
  nameRecord _ _ := .refl _
  newDeclared _ _ _ := .refl _
  interfaceType _ _ := .refl _

theorem Outlasts.whileResolving {x y : TypeM α} (h : Outlasts program α x y) (id : SymbolId) :
    Outlasts program α (whileResolving id x) (whileResolving id y) := by
  intro m
  obtain ⟨after, himpatient⟩ | hxy := h { m with resolving := id :: m.resolving }
  · exact .inl ⟨_, whileResolving_of_error himpatient⟩
  right
  cases hrun : y program { m with resolving := id :: m.resolving } with
  | ok a m' => rw [whileResolving_of_ok (hxy.trans hrun), whileResolving_of_ok hrun]
  | error fault m' => rw [whileResolving_of_error (hxy.trans hrun), whileResolving_of_error hrun]

section
variable {ask ask' : Asker} (hask : ∀ q, Outlasts program Ty (ask q) (ask' q))
include hask

theorem outlasts_namedType (id : SymbolId) (args : List Ty) :
    Outlasts program Ty (namedType ask id args) (namedType ask' id args) := by
  have hR : Relational program (Outlasts program) := relational_outlasts
  refine hR.read ?_
  dsimp only
  split
  · exact hR.interfaceType _ _
  · refine hR.bind (hR.isResolving _) fun resolving => ?_
    split
    · exact hR.pure _
    · exact hR.bind ((hask _).whileResolving _) fun _ => hR.bind (hR.nameRecord _ _) fun _ => hR.pure _
  · exact hR.pure _

theorem outlasts_answers : Relational.Answers (Outlasts program) ask ask' fun _ => True where
  inside _ _ _ := trivial
  written _ _ _ := hask _
  expression _ := hask _
  symbol _ := hask _
  members _ _ := hask _
  named := outlasts_namedType hask

theorem outlasts_loadMembers (id : ShapeId) :
    Outlasts program Unit (loadMembers ask id) (loadMembers ask' id) := by
  have hR : Relational program (Outlasts program) := relational_outlasts
  have hA := outlasts_answers hask
  have hfound (source : MemberSource) : Outlasts program (List (String × Ty) × Option Ty)
      (findMembers ask source) (findMembers ask' source) := by
    refine hR.findMembers source hA.symbol fun id env _ => hR.interfaceMembers (hA.types env) _ _ ?_
    refine fun _ _ _ _ _ _ _ => ⟨fun base _ => ?_, fun _ _ => trivial⟩
    exact hR.bind (hask _) fun _ => hR.membersOf? hA.members _
  intro m
  by_cases h : ∃ source, m.members[id]? = some (.pending source)
  · obtain ⟨source, h⟩ := h
    rw [loadMembers_pending h, loadMembers_pending h]
    exact (hfound source).bind (fun _ => .refl _) _
  · rw [loadMembers_of_ne (not_exists.mp h), loadMembers_of_ne (not_exists.mp h)]
    exact .inr rfl

theorem outlasts_expressionType (e : Node) :
    Outlasts program Ty (expressionType ask e) (expressionType ask' e) := by
  refine Outlasts.bind (.refl _) fun memory => ?_
  split
  · exact .refl _
  · exact Outlasts.bind (relational_outlasts.inferExpression (outlasts_answers hask) fun _ _ => trivial)
      fun _ => .refl _

theorem outlasts_symbolType (id : SymbolId) :
    Outlasts program Ty (symbolType ask id) (symbolType ask' id) := by
  refine Outlasts.bind (.refl _) fun memory => ?_
  split
  · exact .refl _
  refine Outlasts.bind (.refl _) fun resolving => ?_
  split
  · exact .refl _
  have hinfer : Outlasts program Ty (inferSymbol ask id) (inferSymbol ask' id) :=
    relational_outlasts.inferSymbol (outlasts_answers hask) id trivial fun _ _ => trivial
  exact (hinfer.whileResolving id).bind fun _ => .refl _

theorem outlasts_step (q : Query) : Outlasts program Ty (step ask q) (step ask' q) := by
  cases q with
  | expression e => exact outlasts_expressionType hask e
  | symbol id => exact outlasts_symbolType hask id
  | written env type =>
    exact relational_outlasts.writtenType ((outlasts_answers hask).types env) (fun _ _ => trivial)
      (fun _ _ => hask _) fun _ _ _ _ _ => hask _
  | members id name => exact (outlasts_loadMembers hask id).bind fun _ => .refl _

end

/-- A question that is answered with some patience is answered alike with more. -/
theorem outlasts_answer {n k : Nat} (h : n ≤ k) (q : Query) :
    Outlasts program Ty (answer n q) (answer k q) := by
  have next (n : Nat) (q : Query) : Outlasts program Ty (answer n q) (answer (n + 1) q) := by
    induction n generalizing q with
    | zero => exact fun m => .inl ⟨m, rfl⟩
    | succ n ih => exact outlasts_step ih q
  induction h with
  | refl => exact .refl _
  | step _ ih => exact ih.trans (next _ q)

/-! ## Answers that are found -/

/-- With so much patience an action does not run out of it, and with more it does the same. -/
def FinishesAt (n : Nat) (x : Nat → TypeM α) (program : Program) (m : Memory) : Prop :=
  ¬ Impatient (x n program m) ∧ ∀ k, n ≤ k → x k program m = x n program m

/-- With enough patience an action comes to an end. -/
def Finishes (x : Nat → TypeM α) (program : Program) (m : Memory) : Prop :=
  ∃ n, FinishesAt n x program m

/-- The text of the type that answers a question. -/
def textOfAnswer (q : Query) (n : Nat) : TypeM String :=
  answer n q >>= typeText

/-- The text of a type takes no patience. -/
theorem impatient_textOfAnswer {n : Nat} {q : Query} {m : Memory} :
    Impatient (textOfAnswer q n program m) ↔ Impatient (answer n q program m) := by
  cases hrun : answer n q program m with
  | error fault m' =>
    rw [textOfAnswer, bind_of_error hrun]
    constructor
    · rintro ⟨after, ⟨⟩⟩
      exact ⟨m', rfl⟩
    · rintro ⟨after, ⟨⟩⟩
      exact ⟨m', rfl⟩
  | ok t m' =>
    have hget : (get : TypeM Memory) program m' = .ok m' m' := rfl
    rw [textOfAnswer, bind_of_ok hrun, typeText, bind_of_ok hget]
    refine iff_of_false ?_ (by rintro ⟨after, ⟨⟩⟩)
    rintro ⟨after, h⟩
    cases htext : t.text m'.names with
    | ok text =>
      rw [htext] at h
      cases h
    | error fault =>
      rw [htext] at h
      cases h
      exact patient_text m'.names t htext

theorem finishesAt_of_patient {n : Nat} {q : Query} {m : Memory}
    (h : ¬ Impatient (answer n q program m)) : FinishesAt n (textOfAnswer q) program m := by
  have hpatient : ¬ Impatient (textOfAnswer q n program m) := fun h' => h (impatient_textOfAnswer.mp h')
  refine ⟨hpatient, fun k hk => ?_⟩
  have hmore : Outlasts program String (textOfAnswer q n) (textOfAnswer q k) :=
    (outlasts_answer hk q).bind fun t => .refl (typeText t)
  exact ((hmore m).resolve_left hpatient).symm

/-- What an answer makes with any patience is bounded if more patience does not change it. -/
theorem bounded_of_finishes {q : Query} {m : Memory} (h : Finishes (textOfAnswer q) program m) :
    ∃ limit, ∀ n, (memoryAfter (answer n q program m)).interfaces.size ≤ limit := by
  obtain ⟨N, hpatient, -⟩ := h
  have hN : ¬ Impatient (answer N q program m) := fun h' => hpatient (impatient_textOfAnswer.mpr h')
  have below (k : Nat) :
      ∃ limit, ∀ n < k, (memoryAfter (answer n q program m)).interfaces.size ≤ limit := by
    induction k with
    | zero => exact ⟨0, fun n hn => absurd hn (Nat.not_lt_zero n)⟩
    | succ k ih =>
      obtain ⟨limit, hlimit⟩ := ih
      refine ⟨max limit (memoryAfter (answer k q program m)).interfaces.size, fun n hn => ?_⟩
      obtain hn | rfl := Nat.lt_succ_iff_lt_or_eq.mp hn
      · exact Nat.le_trans (hlimit n hn) (Nat.le_max_left _ _)
      · exact Nat.le_max_right _ _
  obtain ⟨limit, hlimit⟩ := below (N + 1)
  refine ⟨limit, fun n => ?_⟩
  obtain hn | hn := Nat.lt_or_ge n N
  · exact hlimit n (Nat.lt_succ_of_lt hn)
  · rw [← (outlasts_answer hn q m).resolve_left hN]
    exact hlimit N (Nat.lt_succ_self N)

/-- An answer is found if what it makes is bounded. -/
theorem finishes_of_bounded {q : Query} {m : Memory} {limit : Nat}
    (h : ∀ n, (memoryAfter (answer n q program m)).interfaces.size ≤ limit) :
    Finishes (textOfAnswer q) program m := by
  let n := (m.free program + m.unopened + limit + 1) * (q.depthIn program + 2) + 1
  refine ⟨n, finishesAt_of_patient ?_⟩
  rintro ⟨after, himpatient⟩
  have hsize := h n
  rw [himpatient] at hsize
  have hpatience := patience_le himpatient
  have hfactor : m.free program + m.unopened + (after.interfaces.size - m.interfaces.size) + 1 ≤
      m.free program + m.unopened + limit + 1 :=
    Nat.succ_le_succ (Nat.add_le_add_left (Nat.le_trans (Nat.sub_le _ _) hsize) _)
  have := Nat.mul_le_mul_right (q.depthIn program + 2) hfactor
  omega

/-- The memories that questions about a program lead to. -/
inductive Reached (program : Program) : Memory → Prop
  | start : Reached program {}
  | asked {m : Memory} (h : Reached program m) (n : Nat) (q : Query) :
    Reached program (memoryAfter (answer n q program m))

theorem Reached.orderly {m : Memory} (h : Reached program m) : Orderly program m := by
  induction h with
  | start => exact orderly_empty program
  | asked _ n q ih => exact (respects_orderly program).answer n q _ ih

/-- The type that answers a question and its text are found, however much patience that takes, exactly if
the oracle does not make interfaces without end for it. In a program whose interfaces can be ranked they
are found, whatever has been asked before, with patience for guarding all symbols and opening all
interfaces without arguments, each time going down through all ranks with all of a declaration. -/
theorem typeText_finishes (program : Program) (q : Query) (m : Memory) :
    (Finishes (textOfAnswer q) program m ↔
      ∃ limit, ∀ n, (memoryAfter (answer n q program m)).interfaces.size ≤ limit) ∧
    ∀ R : Ranking program, Reached program m →
      FinishesAt ((m.free program + m.closed program + 1) * (R.top + 2) * (q.depthIn program + 2) + 1)
        (textOfAnswer q) program m := by
  constructor
  · constructor
    · exact bounded_of_finishes
    · rintro ⟨limit, h⟩
      exact finishes_of_bounded h
  · intro R hm
    refine finishesAt_of_patient ?_
    rintro ⟨after, himpatient⟩
    exact Nat.not_succ_le_self _ (R.patience_le hm.orderly himpatient)

end

/-! ### A program whose interfaces can be ranked

`interface Crate<T> { item: T } interface Link { next: Link & Crate<string> } interface Box<T> extends
Crate<T[]> { twin: Crate<T> & Link } declare const box: Box<number>; box.item;`, its symbols and
references written out. `Link` and `Box` rank above `Crate`; that the members of `Link` lead to `Link`
does no harm, since it has no arguments. -/

namespace Crates

/-- Where the nodes stand does not matter to the oracle. -/
def mark (id : Nat) : Mark :=
  ⟨id, default⟩

def parameter : Node := .typeParameter (mark 1) ⟨mark 2, "T"⟩ none none

def argument (id : Nat) : Node := .typeReference (mark id) "T" []

def crate : Node :=
  .interfaceDeclaration (mark 3) [] ⟨mark 4, "Crate"⟩ [parameter] []
    [.propertySignature (mark 5) "item" false (some (argument 6))]

def linkRest : Node :=
  .intersectionType (mark 7)
    [.typeReference (mark 8) "Link" [], .typeReference (mark 9) "Crate" [.keywordType (mark 10) "string"]]

def link : Node :=
  .interfaceDeclaration (mark 11) [] ⟨mark 12, "Link"⟩ [] []
    [.propertySignature (mark 13) "next" false (some linkRest)]

def boxBase : Node :=
  .typeReference (mark 14) "Crate" [.arrayType (mark 15) (argument 16)]

def boxTwin : Node :=
  .intersectionType (mark 17)
    [.typeReference (mark 18) "Crate" [argument 19], .typeReference (mark 20) "Link" []]

def box : Node :=
  .interfaceDeclaration (mark 21) [] ⟨mark 22, "Box"⟩ [parameter] [boxBase]
    [.propertySignature (mark 23) "twin" false (some boxTwin)]

def boxItem : Node :=
  .propertyAccess (mark 24) (.ident ⟨mark 25, "box"⟩) ⟨mark 26, "item"⟩ false

def interfaceSymbol (name : String) (declaration : Node) : Symbol where
  name := name
  kind := .interfaceType
  declaration := declaration
  declarations := [declaration]
  node := none
  scope := 0

def valueSymbol : Symbol where
  name := "box"
  kind := .constant
  declaration := .variableDeclaration (mark 27) (.ident ⟨mark 28, "box"⟩)
    (some (.typeReference (mark 29) "Box" [.keywordType (mark 30) "number"])) none
  declarations := []
  node := none
  scope := 0

/-- The references in interfaces, with the symbols that they stand for. -/
def references : List (Nat × SymbolId) :=
  [(8, 1), (9, 0), (14, 0), (18, 0), (20, 1)]

def program : Program where
  bindings :=
    { symbols := #[interfaceSymbol "Crate" crate, interfaceSymbol "Link" link, interfaceSymbol "Box" box,
        valueSymbol]
      references := .ofList (references ++ [(25, 3), (29, 2)]) }
  files := #[]
  nextId := 31

def rank (id : SymbolId) : Nat :=
  if id = 1 ∨ id = 2 then 1 else 0

theorem origin?_eq {id : Nat} {symbol : SymbolId} (h : (id, symbol) ∈ references) :
    program.origin? id = some (.symbol symbol) := by
  have hreference : program.bindings.symbolOf? id = some symbol :=
    Std.HashMap.getElem?_ofList_of_mem (k := id) (by simp) (by decide) (List.mem_append_left _ h)
  rw [Program.origin?, hreference]
  simp only [references, List.mem_cons, Prod.mk.injEq, List.not_mem_nil, or_false] at h
  obtain ⟨-, rfl⟩ | ⟨-, rfl⟩ | ⟨-, rfl⟩ | ⟨-, rfl⟩ | ⟨-, rfl⟩ := h
  all_goals rfl

theorem no_alias (id : SymbolId) (m : Mark) (modifiers : List Modifier) (name : Ident)
    (params : List Node) (type : Node) :
    (program.bindings.symbol id).declaration ≠ .typeAlias m modifiers name params type := by
  rcases id with _ | _ | _ | _ | id <;> exact fun h => by cases h

/-- A reference to a lower interface or to one without arguments. -/
theorem leadsBelow_reference (symbol : SymbolId) {params : List String} {n : Nat} {id : Nat}
    {name : String} {args : List Node} (h : (id, symbol) ∈ references) (hname : name ∉ params)
    (hlower : args = [] ∨ rank symbol < n) :
    LeadsBelow program rank n params (.typeReference (mark id) name args) := by
  refine .reference hname (fun other hother _ => ?_) fun other m modifiers ident ps type _ halias =>
    absurd halias (no_alias other m modifiers ident ps type)
  have horigin : program.origin? id = some (.symbol other) := hother
  rw [origin?_eq h] at horigin
  cases horigin
  exact hlower

theorem isTame_reference {params : List String} {n : Nat} {m : Mark} {name : String} {args : List Node}
    (h : ∀ arg ∈ args, IsTame program rank params n arg) :
    IsTame program rank params n (.typeReference m name args) :=
  isTame_of_children (fun _ h => by cases h) (fun _ _ h => by cases h) h

theorem isTame_leaf {params : List String} {n : Nat} {k : Node} (h : k.children = [])
    (hvalues : valuesOf k = []) : IsTame program rank params n k := by
  refine isTame_of_children (by simp [hvalues]) ?_ (by simp [h])
  rintro m types rfl t ht
  rw [show types = [] from h] at ht
  cases ht

/-- A member with an intersection of two references. -/
theorem isTame_intersection {params : List String} {n : Nat} {m m' : Mark} {name : String}
    {first second : Node} (hfirst : LeadsBelow program rank n params first)
    (hsecond : LeadsBelow program rank n params second) (htame : IsTame program rank params n first)
    (htame' : IsTame program rank params n second) :
    IsTame program rank params n
      (.propertySignature m name false (some (.intersectionType m' [first, second]))) := by
  refine isTame_of_children (fun _ h => by cases h) (fun _ _ h => by cases h) ?_
  refine List.forall_mem_singleton.mpr ?_
  refine isTame_of_children (fun _ h => by cases h) ?_ (by simpa [Node.children] using ⟨htame, htame'⟩)
  rintro _ _ ⟨⟩
  simpa using ⟨hfirst, hsecond⟩

theorem tame_members {id : SymbolId} {m : Mark} {modifiers : List Modifier} {name : Ident}
    {params heritage members : List Node}
    (h : .interfaceDeclaration m modifiers name params heritage members ∈
      (program.bindings.symbol id).declarations) : ∀ n ∈ heritage ++ members, IsTame program rank
        (interfaceParams (program.bindings.symbol id).declarations) (rank id) n := by
  have leaf {id : Nat} {name : String} {params : List String} {n : Nat} :
      IsTame program rank params n (.typeReference (mark id) name []) := isTame_leaf rfl rfl
  rcases id with _ | _ | _ | _ | id
  · cases List.mem_singleton.mp h
    refine List.forall_mem_singleton.mpr ?_
    refine isTame_of_children (fun _ h => by cases h) (fun _ _ h => by cases h) ?_
    exact List.forall_mem_singleton.mpr leaf
  · cases List.mem_singleton.mp h
    refine List.forall_mem_singleton.mpr ?_
    refine isTame_intersection (leadsBelow_reference 1 (by decide) (by decide) (.inl rfl))
      (leadsBelow_reference 0 (by decide) (by decide) (.inr (by decide))) leaf ?_
    refine isTame_reference (List.forall_mem_singleton.mpr (isTame_leaf rfl rfl))
  · cases List.mem_singleton.mp h
    refine List.forall_mem_cons.mpr ⟨?_, List.forall_mem_singleton.mpr ?_⟩
    · refine isTame_reference (List.forall_mem_singleton.mpr ?_)
      refine isTame_of_children (fun _ h => by cases h) (fun _ _ h => by cases h) ?_
      exact List.forall_mem_singleton.mpr leaf
    · refine isTame_intersection (leadsBelow_reference 0 (by decide) (by decide) (.inr (by decide)))
        (leadsBelow_reference 1 (by decide) (by decide) (.inl rfl)) ?_ leaf
      refine isTame_reference (List.forall_mem_singleton.mpr leaf)
  · cases h
  · cases h

theorem heritage_below {id : SymbolId} {m : Mark} {modifiers : List Modifier} {name : Ident}
    {params heritage members : List Node}
    (h : .interfaceDeclaration m modifiers name params heritage members ∈
      (program.bindings.symbol id).declarations) : ∀ base ∈ heritage, LeadsBelow program rank (rank id)
        (interfaceParams (program.bindings.symbol id).declarations) base := by
  rcases id with _ | _ | _ | _ | id
  · cases List.mem_singleton.mp h
    exact fun _ h => by cases h
  · cases List.mem_singleton.mp h
    exact fun _ h => by cases h
  · cases List.mem_singleton.mp h
    refine List.forall_mem_singleton.mpr ?_
    exact leadsBelow_reference 0 (by decide) (by decide) (.inr (by decide))
  · cases h
  · cases h

def ranking : Ranking program where
  rank := rank
  top := 1
  rank_le id := by
    unfold rank
    split <;> decide
  heritage := heritage_below
  tame := tame_members

/-- What there is to guard, to open and to go down through in the program. -/
theorem patience_eq : (Memory.free {} program + Memory.closed {} program + 1) * (ranking.top + 2) *
    ((Query.expression boxItem).depthIn program + 2) + 1 = 190 := by
  have hclosed : Memory.closed {} program = 4 := by
    simp [Memory.closed, Memory.isOpened]
    rfl
  rw [hclosed]
  decide

end Crates

theorem typeText_finishes_crates :
    Reached Crates.program {} ∧
      FinishesAt 190 (textOfAnswer (.expression Crates.boxItem)) Crates.program {} := by
  refine ⟨.start, ?_⟩
  rw [← Crates.patience_eq]
  exact (typeText_finishes Crates.program (.expression Crates.boxItem) {}).2 Crates.ranking .start

/-! ## Interfaces that grow -/

section
variable {α β : Type} {program : Program}

/-- An interface with one type parameter whose members are looked for together with those of `base`: it
extends `base`, or its first member is of an intersection with it. -/
inductive LeadsTo (param : String) (base : Node) : Node → Prop
  | heritage {m m' : Mark} {modifiers : List Modifier} {name : Ident} {i : Mark}
    {bound fallback : Option Node} {rest members : List Node} :
    LeadsTo param base (.interfaceDeclaration m modifiers name
      [.typeParameter m' ⟨i, param⟩ bound fallback] (base :: rest) members)
  | intersection {m m' m₁ m₂ m₃ : Mark} {modifiers : List Modifier} {name : Ident} {i : Mark}
    {bound fallback : Option Node} {label word : String} {isOptional : Bool} {rest : List Node} :
    LeadsTo param base (.interfaceDeclaration m modifiers name
      [.typeParameter m' ⟨i, param⟩ bound fallback] []
      (.propertySignature m₁ label isOptional
        (some (.intersectionType m₂ [base, .keywordType m₃ word])) :: rest))

/-- An interface whose members are looked for together with those that it has for arrays of its
argument. -/
structure Growing (program : Program) (id : SymbolId) : Prop where
  kind : (program.bindings.symbol id).kind = .interfaceType
  declared : ∃ declaration more param base name array argument,
    (program.bindings.symbol id).declarations = declaration :: more ∧
      LeadsTo param (.typeReference base name [.arrayType array (.typeReference argument param [])])
        declaration ∧
      program.origin? base.id = some (.symbol id) ∧ name ≠ param ∧ name ≠ "Array" ∧
      name ≠ "ReadonlyArray"

/-- An action runs out of patience or ends with a value. -/
def EndsWith (program : Program) (m : Memory) (x : TypeM α) (a : α) (m' : Memory) : Prop :=
  Impatient (x program m) ∨ x program m = .ok a m'

section
variable {m m' : Memory} {x : TypeM α} {f : α → TypeM β} {a : α}

theorem Impatient.bind (h : Impatient (x program m)) (f : α → TypeM β) :
    Impatient ((x >>= f) program m) := by
  obtain ⟨after, h⟩ := h
  exact ⟨after, bind_of_error h f⟩

theorem EndsWith.impatient (hx : EndsWith program m x a m') (hf : Impatient (f a program m')) :
    Impatient ((x >>= f) program m) := by
  obtain h | h := hx
  · exact h.bind f
  · rwa [bind_of_ok h]

theorem EndsWith.bind {b : β} {m'' : Memory} (hx : EndsWith program m x a m')
    (hf : EndsWith program m' (f a) b m'') : EndsWith program m (x >>= f) b m'' := by
  obtain h | h := hx
  · exact .inl (h.bind f)
  · unfold EndsWith
    rwa [bind_of_ok h]

theorem endsWith_pure (m : Memory) (a : α) : EndsWith program m (pure a) a m :=
  .inr rfl

theorem endsWith_read {f : Program → TypeM α} (h : EndsWith program m (f program) a m') :
    EndsWith program m (read >>= f) a m' :=
  h

end

/-- The text of an array type is longer than that of its elements. -/
theorem text_array_longer {names : RecordNames} {t : Ty} {text : String} (h : t.text names = .ok text) :
    ∃ longer, (Ty.array t).text names = .ok longer ∧ text.length < longer.length := by
  refine ⟨if t.isCompound then "(" ++ text ++ ")[]" else text ++ "[]", ?_, ?_⟩
  · simp only [Ty.text, h]
    rfl
  · split
    · rw [String.length_append, String.length_append]
      exact Nat.lt_of_lt_of_le (Nat.lt_add_of_pos_left (Nat.succ_pos 0)) (Nat.le_add_right _ _)
    · rw [String.length_append]
      exact Nat.lt_add_of_pos_right (Nat.succ_pos 1)

/-- A single argument is known by its text. -/
theorem keyOf_singleton {m : Memory} {t : Ty} {text : String} (h : t.text m.names = .ok text) :
    KeyOf m [t] text := by
  refine ⟨[text], ?_, by simp⟩
  simp only [Ty.texts, h]
  rfl

section
variable {env : Env} {param : String} {t : Ty}

theorem endsWith_parameter (h : env.lookup param = some t) (k : Nat) (mark : Mark) (m : Memory) :
    EndsWith program m (answer k (.written env (.typeReference mark param []))) t m := by
  cases k with
  | zero => exact .inl ⟨m, rfl⟩
  | succ k =>
    show EndsWith program m (referenced (answer k) env mark.id param []) t m
    rw [referenced, h]
    exact endsWith_pure m t

theorem endsWith_array (h : env.lookup param = some t) (k : Nat) (mark argument : Mark) (m : Memory) :
    EndsWith program m (answer k (.written env (.arrayType mark (.typeReference argument param []))))
      (.array t) m := by
  cases k with
  | zero => exact .inl ⟨m, rfl⟩
  | succ k => exact (endsWith_parameter h k argument m).bind (endsWith_pure m _)

/-- The base of a growing interface is an instance that was not made before. -/
theorem endsWith_base {id : SymbolId} {name : String} {base : Mark}
    (hkind : (program.bindings.symbol id).kind = .interfaceType)
    (horigin : program.origin? base.id = some (.symbol id))
    (hname : name ≠ "Array" ∧ name ≠ "ReadonlyArray") (hfree : env.lookup name = none)
    (h : env.lookup param = some t) {m : Memory} {key : String} (hkey : KeyOf m [.array t] key)
    (hnew : m.interfaces[(id, key)]? = none) (array argument : Mark) :
    ∃ label, ∀ k, EndsWith program m
      (answer k (.written env
        (.typeReference base name [.arrayType array (.typeReference argument param [])])))
      (.declared m.members.size label)
      (m.instantiate id key label (instanceEnv program id [.array t])) := by
  obtain ⟨label, hmade⟩ := interfaceType_new program hkey hnew
  refine ⟨label, fun k => ?_⟩
  cases k with
  | zero => exact .inl ⟨m, rfl⟩
  | succ k =>
    show EndsWith program m (referenced (answer k) env base.id name
      [.arrayType array (.typeReference argument param [])]) _ _
    rw [referenced, hfree]
    have hargs : EndsWith program m
        ([.arrayType array (.typeReference argument param [])].mapM fun arg =>
          answer k (.written env arg)) [.array t] m :=
      (endsWith_array h k array argument m).bind (endsWith_pure m _)
    have hother : (name == "Array" || name == "ReadonlyArray") = false := by
      simp [beq_false_of_ne hname.1, beq_false_of_ne hname.2]
    refine hargs.bind ?_
    dsimp only
    rw [hother, if_neg Bool.false_ne_true]
    refine endsWith_read ?_
    rw [horigin]
    refine endsWith_read ?_
    dsimp only
    rw [hkind]
    exact .inr hmade

end

theorem LeadsTo.params {param : String} {base declaration : Node}
    (h : LeadsTo param base declaration) (more : List Node) :
    interfaceParams (declaration :: more) = [param] := by
  cases h <;> rfl

/-- What an interface leads to is asked about before all else. -/
theorem LeadsTo.impatient {param : String} {base declaration : Node}
    (h : LeadsTo param base declaration) (more : List Node) {n : Nat} {env : Env} {m larger : Memory}
    {s : ShapeId} {label : String}
    (hbase : ∀ k, EndsWith program m (answer k (.written env base)) (.declared s label) larger)
    (hmembers : ∀ k, k ≤ n → Impatient (answer k (.members s label) program larger)) :
    Impatient (interfaceMembers (answer n) env [] none (declaration :: more) program m) := by
  have found (k : Nat) (hk : k ≤ n) :
      Impatient (membersOf? (answer k) (.declared s label) program larger) :=
    ((hmembers k hk).bind _).bind _
  cases h with
  | heritage =>
    refine Impatient.bind ?_ _
    exact (hbase n).impatient ((found n (Nat.le_refl n)).bind _)
  | @intersection _ _ _ _ mark _ _ _ _ _ _ word _ _ =>
    refine Impatient.bind (Impatient.bind ?_ _) _
    cases n with
    | zero => exact ⟨m, rfl⟩
    | succ k =>
      have hword : EndsWith program larger (answer k (.written env (.keywordType mark word)))
          (.primitive ((Primitive.ofWord? word).getD .any)) larger := by
        cases k with
        | zero => exact .inl ⟨larger, rfl⟩
        | succ k => exact endsWith_pure _ _
      have hparts : EndsWith program m
          ([base, .keywordType mark word].mapM fun t => answer k (.written env t))
          [.declared s label, .primitive ((Primitive.ofWord? word).getD .any)] larger := by
        show EndsWith program m (answer k (.written env base) >>= fun t =>
          answer k (.written env (.keywordType mark word)) >>= fun u => pure [t, u]) _ _
        exact (hbase k).bind (hword.bind (endsWith_pure larger _))
      exact hparts.impatient ((found k (Nat.le_succ k)).bind _)

/-- The members of a growing interface are never found: those of a larger instance are found first each
time. -/
theorem growing_impatient {id : SymbolId} (h : Growing program id) (n : Nat) {m : Memory} {s : ShapeId}
    {label : String} {t : Ty} {text : String}
    (hs : m.members[s]? = some (.pending (.interfaces id (instanceEnv program id [t]))))
    (htext : t.text m.names = .ok text)
    (hmade : ∀ (key : String) (u : Ty), m.interfaces[(id, key)]? = some u → key.length ≤ text.length) :
    Impatient (answer n (.members s label) program m) := by
  obtain ⟨declaration, more, param, base, name, array, argument, hdeclared, hleads, horigin, hparam,
    hname⟩ := h.declared
  induction n using Nat.strongRecOn generalizing m s label t text with
  | ind n ih =>
    cases n with
    | zero => exact ⟨m, rfl⟩
    | succ n =>
      have henv : instanceEnv program id [t] = [(param, t)] := by
        rw [instanceEnv, hdeclared, hleads.params]
        rfl
      have hlookup : (instanceEnv program id [t]).lookup param = some t := by
        rw [henv, List.lookup_cons_self]
      have hfree : (instanceEnv program id [t]).lookup name = none := by
        rw [henv, List.lookup_cons, beq_false_of_ne hparam]
        rfl
      obtain ⟨longer, hlonger, hlength⟩ := text_array_longer htext
      have hnew : (m.fill s [] none).interfaces[(id, longer)]? = none := by
        cases hfound : m.interfaces[(id, longer)]? with
        | none => exact hfound
        | some u => exact absurd (hmade longer u hfound) (Nat.not_le_of_lt hlength)
      obtain ⟨label', hbase⟩ := endsWith_base h.kind horigin hname hfree hlookup
        (m := m.fill s [] none) (keyOf_singleton hlonger) hnew array argument
      show Impatient ((loadMembers (answer n) s >>= fun _ => pure (Ty.declared s label)) program m)
      refine Impatient.bind ?_ _
      rw [loadMembers_pending hs]
      refine Impatient.bind ?_ _
      show Impatient (interfaceMembers (answer n) (instanceEnv program id [t]) [] none
        (program.bindings.symbol id).declarations program (m.fill s [] none))
      rw [hdeclared]
      refine hleads.impatient more hbase fun k hk => ?_
      -- The larger instance is the last one that was made.
      refine ih k (Nat.lt_succ_of_le hk) (t := .array t) (by simp [Memory.instantiate]) hlonger
        fun key u hu => ?_
      simp only [Memory.instantiate, Std.HashMap.getElem?_insert] at hu
      split at hu
      · rename_i hkey
        have : longer = key := by simpa using hkey
        exact Nat.le_of_eq (by rw [this])
      · exact Nat.le_trans (hmade key u hu) (Nat.le_of_lt hlength)

/-- Whatever the patience, the members of an instance of a growing interface are not found if no larger
instance has been made. -/
theorem growing_never_finishes {id : SymbolId} (h : Growing program id) {m : Memory} {s : ShapeId}
    {label : String} {t : Ty} {text : String}
    (hs : m.members[s]? = some (.pending (.interfaces id (instanceEnv program id [t]))))
    (htext : t.text m.names = .ok text)
    (hmade : ∀ (key : String) (u : Ty), m.interfaces[(id, key)]? = some u → key.length ≤ text.length) :
    ¬ Finishes (textOfAnswer (.members s label)) program m := by
  rintro ⟨n, hpatient, -⟩
  exact hpatient (impatient_textOfAnswer.mpr (growing_impatient h n hs htext hmade))

end

end ScriptBridge.Typing
