/-!
# Edits

An `Edit` replaces a range of a text. `applyEdits` carries out edits in the order of where they start
and gives the edited part of the text.
-/

namespace ScriptBridge

/-- A replacement of a range of characters. -/
structure Edit where
  start : Nat
  stop : Nat
  replacement : List Char
deriving DecidableEq, Repr, Inhabited

/-- The characters of a text from one place to another. -/
def slice (text : List Char) (start stop : Nat) : List Char :=
  (text.take stop).drop start

/-- The text from `pos` to `stop` with edits carried out one after the other. -/
def applyInOrder (text : List Char) (stop : Nat) : (pos : Nat) → List Edit → List Char
  | pos, [] => slice text pos stop
  | pos, e :: rest =>
    slice text pos e.start ++ e.replacement ++ applyInOrder text stop e.stop rest

/-- Edits in the order of where they start; those that start together stay in order. -/
def sortEdits (edits : List Edit) : List Edit :=
  edits.mergeSort fun a b => a.start ≤ b.start

/-- The text from `start` to `stop` with edits carried out. -/
def applyEdits (text : List Char) (start stop : Nat) (edits : List Edit) : List Char :=
  applyInOrder text stop start (sortEdits edits)

end ScriptBridge
