import ScriptBridge.Data.Outcome
import ScriptBridge.TypeScript.Token

/-!
# A place in a TypeScript text

A `Cursor` is the unread part of a text with the offset, line and column where it starts. Readers
take a cursor and give back the one behind what they read. The lemmas say how moving on shortens
the unread part, which is why the readers come to an end.
-/

namespace ScriptBridge.TypeScript

/-- The unread text and the place where it starts. -/
structure Cursor where
  rest : List Char
  offset : Nat
  line : Nat
  col : Nat
  [isLine : IsLine line]
deriving Repr

attribute [instance] Cursor.isLine

namespace Cursor

/-- The cursor one character further. -/
def bump (c : Cursor) : Cursor :=
  match c.rest with
  | [] => c
  | '\n' :: cs => ⟨cs, c.offset + 1, c.line + 1, 1⟩
  | _ :: cs => ⟨cs, c.offset + 1, c.line, c.col + 1⟩

/-- The cursor `n` characters further, or at the end. -/
def skip : Nat → Cursor → Cursor
  | 0, c => c
  | n + 1, c => skip n c.bump

/-- The character `n` places ahead. -/
def peek (c : Cursor) (n : Nat) : Option Char :=
  c.rest[n]?

/-- Whether the character `n` places ahead satisfies a test. -/
def peekIs (c : Cursor) (n : Nat) (p : Char → Bool) : Bool :=
  (c.peek n).any p

/-- The cursor behind the longest run of characters that satisfy a test. -/
def skipWhile (p : Char → Bool) (c : Cursor) : Cursor :=
  c.skip (c.rest.takeWhile p).length

/-- The text between a cursor and a later one. -/
def upTo (c later : Cursor) : String :=
  String.ofList (c.rest.take (later.offset - c.offset))

/-- The region between a cursor and a later one. -/
def spanTo (c later : Cursor) : Span :=
  ⟨c.offset, later.offset, c.line, c.col, later.line, later.col⟩

/-- A failure at the cursor. -/
def fail {α : Type} (c : Cursor) (cause : LexCause) : Except LexError α :=
  .error (.placed cause c.line c.col)

/-- A failure is no success. -/
theorem fail_ne_ok {α : Type} {c : Cursor} {cause : LexCause} {a : α} : c.fail cause ≠ .ok a := by
  simp [fail]

/-- Bumping never makes the rest longer. -/
theorem length_bump_le (c : Cursor) : c.bump.rest.length ≤ c.rest.length := by
  unfold bump
  split <;> simp_all

/-- Skipping never makes the rest longer. -/
theorem length_skip_le (n : Nat) (c : Cursor) : (c.skip n).rest.length ≤ c.rest.length := by
  induction n generalizing c with
  | zero => exact Nat.le_refl _
  | succ n ih => exact Nat.le_trans (ih c.bump) c.length_bump_le

/-- Bumping makes a nonempty rest shorter. -/
theorem length_bump_lt {c : Cursor} (h : c.rest ≠ []) : c.bump.rest.length < c.rest.length := by
  unfold bump
  split <;> simp_all

/-- Skipping at least one character makes a nonempty rest shorter. -/
theorem length_skip_lt {n : Nat} {c : Cursor} (hn : n ≠ 0) (h : c.rest ≠ []) :
    (c.skip n).rest.length < c.rest.length := by
  match n, hn with
  | n + 1, _ => exact Nat.lt_of_le_of_lt (length_skip_le n c.bump) (length_bump_lt h)

/-- Passing over a run never makes the rest longer. -/
theorem length_skipWhile_le (p : Char → Bool) (c : Cursor) :
    (c.skipWhile p).rest.length ≤ c.rest.length :=
  length_skip_le _ c

/-- Passing over a run that is not empty makes the rest shorter. -/
theorem length_skipWhile_lt {p : Char → Bool} {c : Cursor} (h : c.peekIs 0 p = true) :
    (c.skipWhile p).rest.length < c.rest.length := by
  match hr : c.rest with
  | [] => simp [peekIs, peek, hr] at h
  | x :: cs =>
    rw [← hr]
    have hx : p x = true := by simpa [peekIs, peek, hr] using h
    exact length_skip_lt (by simp [hr, hx]) (by simp [hr])

/-- There is a rest where a character satisfies a test. -/
theorem rest_ne_nil {c : Cursor} {n : Nat} {p : Char → Bool} (h : c.peekIs n p = true) :
    c.rest ≠ [] := by
  intro hr
  simp [peekIs, peek, hr] at h

/-- A weaker test is satisfied too. -/
theorem peekIs_mono {c : Cursor} {n : Nat} {p q : Char → Bool} (hpq : ∀ x, p x = true → q x = true)
    (h : c.peekIs n p = true) : c.peekIs n q = true := by
  obtain ⟨x, hx, hp⟩ := (Option.any_eq_true _ _).1 h
  exact (Option.any_eq_true _ _).2 ⟨x, hx, hpq x hp⟩

/-- There is no run to pass over where its first character fails the test. -/
theorem skipWhile_eq_self {c : Cursor} {p : Char → Bool} (h : c.peekIs 0 p = false) :
    c.skipWhile p = c := by
  match hr : c.rest with
  | [] => simp [skipWhile, hr, skip]
  | x :: cs =>
    have hx : p x = false := by simpa [peekIs, peek, hr] using h
    simp [skipWhile, hr, hx, skip]

end Cursor

end ScriptBridge.TypeScript
