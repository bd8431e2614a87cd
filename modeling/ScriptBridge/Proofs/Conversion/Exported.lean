import ScriptBridge.Conversion.Module
import ScriptBridge.Proofs.Conversion.Results

/-!
# What a conversion does to the export table

`Carries I m P`: if `I` holds of a module and its export table before the step `m`, then every value
that `m` can give satisfies `P`, and `I` holds of the table after it. Only `addExport` changes the
table, so every other step carries along whatever holds.

* `Carries.bind`: one step after another.
* `carries_asking`, `carries_checkName`, ...: steps that leave the table alone.
-/

namespace ScriptBridge.Conversion

open TypeScript

variable {α β : Type} {I : Context → List (String × String) → Prop} {m : ConvertM α} {P Q : α → Prop}

/-- Every value that a step can give satisfies a predicate, and what holds of the export table before
the step holds after it. -/
def Carries (I : Context → List (String × String) → Prop) (m : ConvertM α) (P : α → Prop) : Prop :=
  ∀ context progress a after, I context progress.exports → m context progress = .ok a after →
    P a ∧ I context after.exports

theorem Carries.mono (hm : Carries I m P) (h : ∀ a, P a → Q a) : Carries I m Q :=
  fun c s a s' hI he => ⟨h a (hm c s a s' hI he).1, (hm c s a s' hI he).2⟩

theorem carries_pure {a : α} (h : P a) : Carries I (pure a) P := by
  intro c s b s' hI he
  cases he
  exact ⟨h, hI⟩

theorem carries_throw (fault : ConvertFault) : Carries I (throw fault) P :=
  fun _ _ _ _ _ he => nomatch he

theorem Carries.bind {f : α → ConvertM β} {R : β → Prop} (hm : Carries I m P)
    (hf : ∀ a, P a → Carries I (f a) R) : Carries I (m >>= f) R := by
  intro c s b s' hI h
  obtain ⟨a, s₁, h₁, h₂⟩ := bind_ok h
  obtain ⟨ha, hI₁⟩ := hm c s a s₁ hI h₁
  exact hf a ha c s₁ b s' hI₁ h₂

/-- A step whose value does not matter. -/
theorem Carries.next {f : α → ConvertM β} {R : β → Prop} (hm : Carries I m fun _ => True)
    (hf : ∀ a, Carries I (f a) R) : Carries I (m >>= f) R :=
  hm.bind fun a _ => hf a

theorem carries_read : Carries I (read : ConvertM Context) fun _ => True := by
  intro c s a s' hI he
  cases he
  exact ⟨trivial, hI⟩

theorem carries_refuse (cause : Cause) (n : Node) : Carries I (refuse cause n) P :=
  carries_read.next fun _ => carries_throw _

/-- A refusal followed by anything. -/
theorem carries_refuse_bind (cause : Cause) (n : Node) {f : α → ConvertM β} {R : β → Prop} :
    Carries I (refuse cause n >>= f) R :=
  Carries.bind (carries_refuse (P := fun _ => False) cause n) fun _ h => h.elim

/-- A check that refuses a node is passed by what goes on. -/
theorem carries_guard {b : Prop} [Decidable b] {cause : Cause} {n : Node} {f : Unit → ConvertM β}
    {R : β → Prop} (h : Carries I (f ()) R) :
    Carries I (if b then refuse cause n >>= f else f ()) R := by
  split
  · exact carries_refuse_bind cause n
  · exact h

/-! ## Steps that leave the table alone -/

theorem carries_asking (question : Typing.TypeM α) : Carries I (asking question) fun _ => True := by
  unfold asking
  intro c s a s' hI he
  obtain ⟨context, s₁, h₁, he⟩ := bind_ok he
  cases h₁
  obtain ⟨s₂, _, h₂, he⟩ := bind_ok he
  cases h₂
  cases hq : question c.program s.memory with
  | ok b memory =>
    simp only [hq] at he
    cases he
    exact ⟨trivial, hI⟩
  | error fault memory =>
    simp only [hq] at he
    cases he

theorem carries_orNumeralFault (x : Except NumeralFault α) :
    Carries I (orNumeralFault x) fun _ => True := by
  unfold orNumeralFault
  split
  · exact carries_pure trivial
  · exact carries_throw _

theorem carries_checkName (i : Ident) : Carries I (checkName i) fun _ => True := by
  unfold checkName
  split
  · exact carries_refuse _ _
  · exact carries_pure trivial

theorem carries_isTypeName (i : Ident) : Carries I (isTypeName i) fun _ => True :=
  carries_read.next fun _ => carries_pure trivial

theorem carries_startsFromHost (n : Node) : Carries I (startsFromHost n) fun _ => True := by
  unfold startsFromHost
  split
  · exact carries_read.next fun _ => carries_pure trivial
  · exact carries_pure trivial

theorem carries_refuseType (cause : String → Cause) (t : Typing.Ty) (n : Node) :
    Carries I (refuseType cause t n) fun _ => True :=
  (carries_asking _).next fun _ => carries_refuse _ _

theorem carries_checkCondition (e : Node) : Carries I (checkCondition e) fun _ => True := by
  refine (carries_asking _).next fun t => ?_
  split
  · exact carries_refuseType _ _ _
  · exact carries_pure trivial

theorem carries_checkIterable (e : Node) : Carries I (checkIterable e) fun _ => True := by
  unfold checkIterable
  split
  · exact carries_pure trivial
  · refine (carries_asking _).next fun t => ?_
    split
    · exact carries_refuseType _ _ _
    · exact carries_pure trivial

theorem carries_checkElementAccess (target key : Node) :
    Carries I (checkElementAccess target key) fun _ => True := by
  refine (carries_asking _).next fun t => ?_
  split
  · exact carries_pure trivial
  refine (carries_asking _).next fun k => ?_
  split
  · split
    · exact carries_refuseType _ _ _
    · exact carries_pure trivial
  split
  · split
    · exact carries_refuseType _ _ _
    · exact carries_pure trivial
  · exact carries_refuseType _ _ _

theorem carries_checkElement (n : Node) (fallback : Option Node) (isRest : Bool) :
    Carries I (checkElement n fallback isRest) fun _ => True := by
  unfold checkElement
  refine carries_guard ?_
  split
  · exact carries_refuse _ _
  · exact carries_pure trivial

theorem carries_patternKey (key : Node) : Carries I (patternKey key) fun _ => True := by
  refine (carries_orNumeralFault _).next fun text => ?_
  split
  · exact carries_pure trivial
  · exact carries_refuse _ _

theorem carries_literalKey (n key : Node) : Carries I (literalKey n key) fun _ => True := by
  refine (carries_orNumeralFault _).next fun text => ?_
  split
  · exact carries_pure trivial
  · exact carries_refuse _ _

theorem carries_freshName : Carries I freshName fun name => ∃ n, name = generatedName n := by
  intro c s a s' hI he
  cases he
  exact ⟨⟨_, rfl⟩, hI⟩

/-! ## Steps that depend on what holds -/

/-- The name of a module is one that the context gives. -/
theorem carries_moduleName {R : String → Prop} (specifier : String) (span : Span)
    (h : ∀ c exports name, I c exports → c.moduleName specifier span = .ok name → R name) :
    Carries I (moduleName specifier span) R := by
  intro c s a s' hI he
  unfold moduleName at he
  obtain ⟨context, s₁, h₁, he⟩ := bind_ok he
  cases h₁
  cases hn : c.moduleName specifier span with
  | ok name =>
    simp only [hn] at he
    cases he
    exact ⟨h c _ _ hI hn, hI⟩
  | error fault =>
    simp only [hn] at he
    cases he

theorem carries_addExport {name localName : String}
    (h : ∀ c exports, I c exports → I c (Assoc.set name localName exports)) :
    Carries I (addExport name localName) fun _ => True := by
  intro c s a s' hI he
  cases he
  exact ⟨trivial, h c _ hI⟩

end ScriptBridge.Conversion
