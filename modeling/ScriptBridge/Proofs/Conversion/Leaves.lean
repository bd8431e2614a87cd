import ScriptBridge.Proofs.Conversion.Live

/-!
# What a step of a conversion leaves known

`Leaves m P`: every value that the step `m` gives satisfies `P` with the memory after the step and with
every memory that extends it. Nothing that was found out is lost by the steps that follow, so what goes
on after a step may use what it left.

* `Leaves.bind`: one step after another.
* `leaves_checkCondition`, `leaves_checkIterable`, `leaves_checkElementAccess`: the gates.
-/

namespace ScriptBridge.Conversion

open TypeScript Typing

variable {α β : Type} {m : ConvertM α} {P Q : α → Memory → Prop}

/-- Every value that a step gives satisfies a predicate from then on, and the step forgets no answer. -/
def Leaves (m : ConvertM α) (P : α → Memory → Prop) : Prop :=
  ∀ context before a after, m context before = .ok a after →
    Extends before.memory after.memory ∧ ∀ later, Extends after.memory later → P a later

theorem Leaves.mono (hm : Leaves m P) (h : ∀ a memory, P a memory → Q a memory) : Leaves m Q :=
  fun c s a s' he => (hm c s a s' he).imp_right fun hP later hl => h a later (hP later hl)

theorem leaves_pure {a : α} (h : ∀ memory, P a memory) : Leaves (pure a) P := by
  intro c s b s' he
  cases he
  exact ⟨.refl _, fun later _ => h later⟩

theorem leaves_throw (fault : ConvertFault) : Leaves (throw fault) P :=
  fun _ _ _ _ he => nomatch he

/-- What the first step left is known when the second one is done. -/
theorem Leaves.bind {f : α → ConvertM β} {R : β → Memory → Prop} (hm : Leaves m P)
    (hf : ∀ a, Leaves (f a) fun b memory => P a memory → R b memory) : Leaves (m >>= f) R := by
  intro c s b s' h
  obtain ⟨a, s₁, h₁, h₂⟩ := bind_ok h
  obtain ⟨he₁, hP⟩ := hm c s a s₁ h₁
  obtain ⟨he₂, hR⟩ := hf a c s₁ b s' h₂
  exact ⟨he₁.trans he₂, fun later hl => hR later hl (hP later (he₂.trans hl))⟩

/-- A step that is run for what follows. -/
theorem Leaves.next {f : α → ConvertM β} {R : β → Memory → Prop} (hm : Leaves m fun _ _ => True)
    (hf : ∀ a, Leaves (f a) R) : Leaves (m >>= f) R :=
  hm.bind fun a => (hf a).mono fun _ _ h _ => h

theorem leaves_read : Leaves (read : ConvertM Context) fun _ _ => True := by
  intro c s a s' he
  cases he
  exact ⟨.refl _, fun _ _ => trivial⟩

theorem leaves_refuse (cause : Cause) (n : Node) : Leaves (refuse cause n) P :=
  leaves_read.next fun _ => leaves_throw _

/-- A refusal followed by anything. -/
theorem leaves_refuse_bind (cause : Cause) (n : Node) {f : α → ConvertM β}
    {R : β → Memory → Prop} : Leaves (refuse cause n >>= f) R := by
  intro c s b s' h
  obtain ⟨a, s₁, h₁, -⟩ := bind_ok h
  exact ((leaves_refuse (P := fun _ _ => False) cause n c s a s₁ h₁).2 _ (.refl _)).elim

/-- What goes on after a check that refuses a node knows that it was passed. -/
theorem leaves_guard_of {b : Prop} [Decidable b] {cause : Cause} {n : Node} {f : Unit → ConvertM β}
    {R : β → Memory → Prop} (h : ¬ b → Leaves (f ()) R) :
    Leaves (if b then refuse cause n >>= f else f ()) R := by
  by_cases hb : b
  · rw [if_pos hb]
    exact leaves_refuse_bind cause n
  · rw [if_neg hb]
    exact h hb

/-- A check that refuses a node is passed by what goes on. -/
theorem leaves_guard {b : Prop} [Decidable b] {cause : Cause} {n : Node} {f : Unit → ConvertM β}
    {R : β → Memory → Prop} (h : Leaves (f ()) R) :
    Leaves (if b then refuse cause n >>= f else f ()) R :=
  leaves_guard_of fun _ => h

/-! ## Questions -/

/-- Asking the oracle changes its memory and nothing else. -/
theorem asking_ok {question : TypeM α} {context : Context} {before after : Progress} {a : α}
    (h : asking question context before = .ok a after) :
    ∃ memory, question context.program before.memory = .ok a memory ∧
      after = { before with memory } := by
  unfold asking at h
  obtain ⟨_, _, h₁, h⟩ := bind_ok h
  cases h₁
  obtain ⟨_, _, h₂, h⟩ := bind_ok h
  cases h₂
  cases hq : question context.program before.memory with
  | ok b memory =>
    simp only [hq] at h
    cases h
    exact ⟨memory, rfl, rfl⟩
  | error fault memory =>
    simp only [hq] at h
    cases h

theorem leaves_typeOf (e : Node) :
    Leaves (asking (typeOf e)) fun t memory => HasType memory e t := by
  intro c s t s' h
  obtain ⟨memory, hq, rfl⟩ := asking_ok h
  refine ⟨keeps_answer _ _ _ _ _ _ hq, fun later hl => ?_⟩
  exact (hasType_iff.mpr (typeOf_remembered hq)).extend hl

theorem leaves_refuseType {R : Unit → Memory → Prop} (cause : String → Cause) (t : Ty) (n : Node) :
    Leaves (refuseType cause t n) R := by
  refine Leaves.next ?_ fun _ => leaves_refuse _ _
  intro c s text s' h
  obtain ⟨memory, hq, rfl⟩ := asking_ok h
  exact ⟨keeps_typeText t _ _ _ _ hq, fun _ _ => trivial⟩

/-- A type that does not pass a gate is refused. -/
theorem leaves_passes (cause : String → Cause) (t : Ty) (k : Kind) (n : Node) :
    Leaves (if !passes t k then refuseType cause t n else pure PUnit.unit) fun _ _ =>
      passes t k = true := by
  cases hp : passes t k with
  | true => exact leaves_pure fun _ => rfl
  | false => exact leaves_refuseType _ _ _

theorem leaves_checkCondition (e : Node) :
    Leaves (checkCondition e) fun _ memory => Admits memory e .boolean := by
  refine (leaves_typeOf e).bind fun t => ?_
  exact (leaves_passes _ _ _ _).mono fun _ _ hp ht => ⟨t, ht, hp⟩

theorem leaves_checkIterable (e : Node) : Leaves (checkIterable e) fun _ memory =>
    isArrayLiteral e = true ∨ Admits memory e .array := by
  unfold checkIterable
  split
  · exact leaves_pure fun _ => .inl rfl
  · refine (leaves_typeOf e).bind fun t => ?_
    exact (leaves_passes _ _ _ _).mono fun _ _ hp ht => .inr ⟨t, ht, hp⟩

theorem leaves_checkElementAccess (target key : Node) (m : Mark) (isOptional : Bool) :
    Leaves (checkElementAccess target key) fun _ memory =>
      gate memory (.elementAccess m target key isOptional) := by
  refine (leaves_typeOf target).bind fun t => ?_
  split
  · exact leaves_pure fun _ ht => ⟨t, ht, .inl ‹_›⟩
  refine (leaves_typeOf key).bind fun u => ?_
  split
  · refine (leaves_passes _ _ _ _).mono fun _ _ hp hu ht => ?_
    exact ⟨t, ht, .inr (.inl ⟨‹_›, u, hu, hp⟩)⟩
  split
  · refine (leaves_passes _ _ _ _).mono fun _ _ hp hu ht => ?_
    exact ⟨t, ht, .inr (.inr ⟨‹_›, u, hu, hp⟩)⟩
  · exact leaves_refuseType _ _ _

/-! ## Steps that ask nothing -/

theorem leaves_orNumeralFault (x : Except NumeralFault α) :
    Leaves (orNumeralFault x) fun a _ => x = .ok a := by
  unfold orNumeralFault
  split
  · exact leaves_pure fun _ => rfl
  · exact leaves_throw _

theorem leaves_checkName (i : Ident) : Leaves (checkName i) fun _ _ => True := by
  unfold checkName
  split
  · exact leaves_refuse _ _
  · exact leaves_pure fun _ => trivial

theorem leaves_freshName : Leaves freshName fun _ _ => True := by
  intro c s a s' he
  cases he
  exact ⟨.refl _, fun _ _ => trivial⟩

theorem leaves_addExport (name localName : String) :
    Leaves (addExport name localName) fun _ _ => True := by
  intro c s a s' he
  cases he
  exact ⟨.refl _, fun _ _ => trivial⟩

theorem leaves_isTypeName (i : Ident) : Leaves (isTypeName i) fun _ _ => True :=
  leaves_read.next fun _ => leaves_pure fun _ => trivial

theorem leaves_moduleName (specifier : String) (span : Span) :
    Leaves (moduleName specifier span) fun _ _ => True := by
  refine leaves_read.next fun context => ?_
  split
  · exact leaves_pure fun _ => trivial
  · exact leaves_throw _

theorem leaves_startsFromHost (n : Node) : Leaves (startsFromHost n) fun _ _ => True := by
  unfold startsFromHost
  split
  · exact leaves_read.next fun _ => leaves_pure fun _ => trivial
  · exact leaves_pure fun _ => trivial

theorem leaves_bindSource (value : AiScript.Node) :
    Leaves (bindSource value) fun _ _ => True := by
  unfold bindSource
  split
  · exact leaves_pure fun _ => trivial
  · exact leaves_freshName.next fun _ => leaves_pure fun _ => trivial

theorem leaves_stabilize (value : AiScript.Node) : Leaves (stabilize value) fun _ _ => True := by
  unfold stabilize
  split
  · exact leaves_pure fun _ => trivial
  · exact leaves_bindSource value

end ScriptBridge.Conversion
