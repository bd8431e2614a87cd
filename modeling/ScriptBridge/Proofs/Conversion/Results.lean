import ScriptBridge.Conversion.Context

/-!
# What a step of a conversion can give

`Yields m P`: every value that `m` can give, in every module and from every progress, satisfies `P`.
A step that stops gives no value. One rule for each way in which steps are put together is enough to
go through a conversion without looking at its progress.

* `Produces`: a value is given in a module.
* `Yields.bind`: one step after another.
* `yields_refuse`, `yields_throw`: steps that stop.
* `endsWith`: a test of a run by carrying it out.
-/

namespace ScriptBridge.Conversion

variable {α β : Type} {m : ConvertM α} {P Q : α → Prop}

/-- A value is what a step gives at some time in a module. -/
def Produces (context : Context) (m : ConvertM α) (a : α) : Prop :=
  ∃ progress after, m context progress = .ok a after

/-- Every value that a step can give satisfies a predicate. -/
def Yields (m : ConvertM α) (P : α → Prop) : Prop :=
  ∀ context progress a after, m context progress = .ok a after → P a

theorem yields_of_forall (h : ∀ a, P a) : Yields m P :=
  fun _ _ a _ _ => h a

theorem Yields.mono (hm : Yields m P) (h : ∀ a, P a → Q a) : Yields m Q :=
  fun c s a s' he => h a (hm c s a s' he)

theorem Yields.and (hP : Yields m P) (hQ : Yields m Q) : Yields m fun a => P a ∧ Q a :=
  fun c s a s' he => ⟨hP c s a s' he, hQ c s a s' he⟩

theorem yields_pure {a : α} (h : P a) : Yields (pure a) P := by
  intro c s b s' he
  cases he
  exact h

theorem yields_throw (fault : ConvertFault) : Yields (throw fault) P :=
  fun _ _ _ _ he => nomatch he

/-- Two steps give what the second one gives for some value of the first. -/
theorem bind_ok {ρ ε σ : Type} {m : ReaderT ρ (EStateM ε σ) α} {f : α → ReaderT ρ (EStateM ε σ) β}
    {c : ρ} {s s' : σ} {b : β} (h : (m >>= f) c s = .ok b s') :
    ∃ a s₁, m c s = .ok a s₁ ∧ f a c s₁ = .ok b s' := by
  simp only [Bind.bind, ReaderT.bind, EStateM.bind] at h
  split at h
  · exact ⟨_, _, ‹_›, h⟩
  · cases h

/-- A step that gives a value goes on with it. -/
theorem bind_of_ok {ρ ε σ : Type} {m : ReaderT ρ (EStateM ε σ) α} {c : ρ} {s s₁ : σ} {a : α}
    (h : m c s = .ok a s₁) (f : α → ReaderT ρ (EStateM ε σ) β) : (m >>= f) c s = f a c s₁ := by
  simp only [Bind.bind, ReaderT.bind, EStateM.bind, h]

/-- A step that fails is the last one. -/
theorem bind_of_error {ρ ε σ : Type} {m : ReaderT ρ (EStateM ε σ) α} {c : ρ} {s s₁ : σ} {fault : ε}
    (h : m c s = .error fault s₁) (f : α → ReaderT ρ (EStateM ε σ) β) :
    (m >>= f) c s = .error fault s₁ := by
  simp only [Bind.bind, ReaderT.bind, EStateM.bind, h]

/-- A function of the value that a step gives. -/
theorem map_of_ok {ρ ε σ : Type} {m : ReaderT ρ (EStateM ε σ) α} {c : ρ} {s s₁ : σ} {a : α}
    (h : m c s = .ok a s₁) (f : α → β) : (f <$> m) c s = .ok (f a) s₁ :=
  bind_of_ok h fun a => pure (f a)

theorem Yields.bind {f : α → ConvertM β} {R : β → Prop} (hm : Yields m P)
    (hf : ∀ a, P a → Yields (f a) R) : Yields (m >>= f) R := by
  intro c s b s' h
  obtain ⟨a, s₁, h₁, h₂⟩ := bind_ok h
  exact hf a (hm c s a s₁ h₁) c s₁ b s' h₂

/-- A step whose value does not matter. -/
theorem yields_bind {f : α → ConvertM β} {R : β → Prop} (hf : ∀ a, Yields (f a) R) :
    Yields (m >>= f) R :=
  Yields.bind (yields_of_forall fun _ => trivial) fun a (_ : True) => hf a

theorem yields_refuse (cause : Cause) (n : TypeScript.Node) : Yields (refuse cause n) P :=
  yields_bind fun _ => yields_throw _

/-- A refusal followed by anything. -/
theorem yields_refuse_bind (cause : Cause) (n : TypeScript.Node) {f : α → ConvertM β}
    {R : β → Prop} : Yields (refuse cause n >>= f) R :=
  Yields.bind (yields_refuse (P := fun _ => False) cause n) fun _ h => h.elim

/-- What goes on after a check that refuses a node knows that it was passed. -/
theorem yields_guard_of {b : Prop} [Decidable b] {cause : Cause} {n : TypeScript.Node}
    {f : Unit → ConvertM β} {R : β → Prop} (h : ¬ b → Yields (f ()) R) :
    Yields (if b then refuse cause n >>= f else f ()) R := by
  by_cases hb : b
  · rw [if_pos hb]
    exact yields_refuse_bind cause n
  · rw [if_neg hb]
    exact h hb

/-- A check that refuses a node is passed by what goes on. -/
theorem yields_guard {b : Prop} [Decidable b] {cause : Cause} {n : TypeScript.Node}
    {f : Unit → ConvertM β} {R : β → Prop} (h : Yields (f ()) R) :
    Yields (if b then refuse cause n >>= f else f ()) R :=
  yields_guard_of fun _ => h

/-! ## Tests of runs -/

/-- Whether a run ends with a value and a state that pass a test. -/
def endsWith {ε σ : Type} (r : EStateM.Result ε σ α) (test : α → σ → Bool) : Bool :=
  match r with
  | .ok a s => test a s
  | .error .. => false

theorem endsWith_iff {ε σ : Type} {r : EStateM.Result ε σ α} {test : α → σ → Bool} :
    endsWith r test = true ↔ ∃ a s, r = .ok a s ∧ test a s = true := by
  cases r with
  | error e s => simp [endsWith]
  | ok a s =>
    constructor
    · exact fun h => ⟨a, s, rfl, h⟩
    · rintro ⟨_, _, ⟨⟩, h⟩
      exact h

/-- A file on its own, whose names are all unknown. -/
def aloneContext : Context where
  program := default
  fileName := "main.ts"
  moduleName name _ := .ok name

end ScriptBridge.Conversion
