/-!
# Outcomes

A computation that can fail is an `Except` value. The lemmas say when a sequence of two such
computations succeeds, and when one does whose value is mapped. `succeedsWith` tests a value by
computing it.
-/

namespace ScriptBridge

/-- A sequence succeeds exactly if both of its computations do. -/
theorem bind_eq_ok_iff {ε α β : Type} {x : Except ε α} {f : α → Except ε β} {b : β} :
    (x >>= f) = .ok b ↔ ∃ a, x = .ok a ∧ f a = .ok b := by
  cases x with
  | error e => exact ⟨nofun, nofun⟩
  | ok a => exact ⟨fun h => ⟨a, rfl, h⟩, fun ⟨_, ha, hb⟩ => Except.ok.inj ha ▸ hb⟩

/-- Mapping the value does not change whether a computation succeeds. -/
theorem map_eq_ok_iff {ε α β : Type} {x : Except ε α} {f : α → β} {b : β} :
    f <$> x = .ok b ↔ ∃ a, x = .ok a ∧ f a = b := by
  cases x with
  | error e => exact ⟨nofun, nofun⟩
  | ok a => exact ⟨fun h => ⟨a, rfl, Except.ok.inj h⟩,
      fun ⟨_, ha, hb⟩ => congrArg Except.ok (Except.ok.inj ha ▸ hb)⟩

/-- Whether a computation succeeds with a value that passes a test. -/
def succeedsWith {ε α : Type} (x : Except ε α) (test : α → Bool) : Bool :=
  match x with
  | .ok a => test a
  | .error _ => false

theorem succeedsWith_iff {ε α : Type} {x : Except ε α} {test : α → Bool} :
    succeedsWith x test = true ↔ ∃ a, x = .ok a ∧ test a = true := by
  cases x with
  | error e => simp [succeedsWith]
  | ok a => simp [succeedsWith]

end ScriptBridge
