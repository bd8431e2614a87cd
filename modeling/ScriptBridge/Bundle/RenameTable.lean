import ScriptBridge.Data.Assoc

/-!
# Names in one scope

When modules share one scope, every binding needs a name that no other binding has. The first binding
of a name keeps it; later ones get `name$1`, `name$2` and so on, and a name that is taken is skipped.

* `RenameTable.register`: the final name of a binding, chosen when it is first seen.
* `RenameTable.finalName?`: the final name of a binding that was seen.
-/

namespace ScriptBridge

/-- The final names of bindings. -/
structure RenameTable (κ : Type) where
  names : List (κ × String) := []
  /-- The number to try next for a name. -/
  counters : List (String × Nat) := []
deriving Inhabited

namespace RenameTable

variable {κ : Type} [BEq κ]

/-- A name with a number; zero is the name itself. -/
def candidate (name : String) (count : Nat) : String :=
  if count = 0 then name else name ++ "$" ++ toString count

/-- The names that are taken. -/
def taken (t : RenameTable κ) : List String :=
  t.names.map Prod.snd

/-- The first number from `count` on that gives a name which is not taken, if one of the next `fuel`
numbers does. -/
def firstFree (taken : List String) (name : String) : (fuel count : Nat) → Nat
  | 0, count => count
  | fuel + 1, count =>
    if taken.contains (candidate name count) then firstFree taken name fuel (count + 1) else count

/-- The final name of a binding that was seen. -/
def finalName? (t : RenameTable κ) (key : κ) : Option String :=
  t.names.lookup key

/-- The final name of a binding, chosen when it is first seen. -/
def register (t : RenameTable κ) (name : String) (key : κ) : String × RenameTable κ :=
  match t.finalName? key with
  | some final => (final, t)
  | none =>
    let taken := t.taken
    let count := firstFree taken name taken.length ((t.counters.lookup name).getD 0)
    let final := candidate name count
    (final, { names := t.names ++ [(key, final)], counters := Assoc.set name (count + 1) t.counters })

/-- How many bindings have a name. -/
def size (t : RenameTable κ) : Nat :=
  t.names.length

end RenameTable

end ScriptBridge
