import ScriptBridge.Conversion.Loop
import ScriptBridge.Proofs.Conversion.Results

/-!
# Outlines

An outline is output in which some parts are left open: tests, and runs of statements that are carried
out as a whole. An `Oracle` tells, knowing all that has happened so far, whether a test holds and how a
run of statements ends. What is between the parts is carried out as usual: conditionals, blocks, endless
loops and their `exit`, and the assignments to one flag. The interpreter has a clock, so that an endless
loop has a result for each number of rounds; what it does is what it does for some number of rounds.

* `Outline`, `Piece`: outlines of statements and of parts of lists of statements.
* `Outline.node`, `nodesOf`: the output that an outline is an outline of, given its parts.
* `carryOut`, `carryOutAll`: what happens within a number of rounds.
* `SameTrace`: two programs do the same, whether they end or not.
-/

namespace ScriptBridge.Conversion

/-! ## What happens -/

/-- How statements end. -/
inductive Ending where
  | normal
  | exit
  | next
  | ret
deriving DecidableEq, Repr

/-- What happens: a test comes up, or a part is carried out. -/
inductive Occurrence (α π : Type) where
  | asked (test : α) (holds : Bool)
  | ran (part : π) (ending : Ending)
deriving DecidableEq, Repr

/-- What has happened so far, the first event first. -/
abbrev History (α π : Type) := List (Occurrence α π)

/-- What comes of the open parts. -/
structure Oracle (α π : Type) where
  holds : History α π → α → Bool
  ending : History α π → π → Ending

/-- How something ends, if it has ended, and what has happened. -/
abbrev Result (α π : Type) := Option Ending × History α π

/-! ## Outlines -/

/-- A condition. -/
inductive Test (α : Type) where
  | ask (test : α)
  | flag
  | not (test : Test α)
  | or (first second : Test α)

mutual
/-- A statement. -/
inductive Outline (α π : Type) where
  | exit
  /-- The definition of the flag. -/
  | define (value : Bool)
  /-- An assignment to the flag. -/
  | assign (value : Bool)
  | cond (test : Test α) (body : Outline α π) (rest : Chain α π)
  | block (pieces : List (Piece α π))
  | loop (pieces : List (Piece α π))

/-- The rest of a chain of conditionals. -/
inductive Chain (α π : Type) where
  | done
  | otherwise (body : Outline α π)
  | branch (test : Test α) (body : Outline α π) (rest : Chain α π)

/-- A part of a list of statements. -/
inductive Piece (α π : Type) where
  | part (part : π)
  | statement (statement : Outline α π)
end

/-- The output in the open parts, and the name of the flag. -/
structure Contents (α π : Type) where
  flag : String
  test : α → AiScript.Node
  part : π → List AiScript.Node

variable {α π : Type}

/-- The output of a condition. -/
def Test.node (contents : Contents α π) : Test α → AiScript.Node
  | ask test => contents.test test
  | flag => .ident {} contents.flag
  | not test => .unary {} "!" (test.node contents)
  | or first second => .binary {} "||" (first.node contents) (second.node contents)

mutual
/-- The output of an outline. -/
def Outline.node (contents : Contents α π) : Outline α π → AiScript.Node
  | .exit => .exit {}
  | .define value => Conversion.define contents.flag (.bool {} value) true
  | .assign value => .assign {} (.ident {} contents.flag) (.bool {} value)
  | .cond test body rest =>
    .cond {} (test.node contents) (body.node contents) (rest.branches contents) (rest.last contents)
  | .block pieces => .block {} (nodesOf contents pieces)
  | .loop pieces => .loop {} (nodesOf contents pieces)

/-- The further branches of a chain. -/
def Chain.branches (contents : Contents α π) : Chain α π → List AiScript.Branch
  | .done | .otherwise _ => []
  | .branch test body rest =>
    .mk {} (test.node contents) (body.node contents) :: rest.branches contents

/-- The last branch of a chain. -/
def Chain.last (contents : Contents α π) : Chain α π → Option AiScript.Node
  | .done => none
  | .otherwise body => some (body.node contents)
  | .branch _ _ rest => rest.last contents

/-- The output of a piece. -/
def Piece.nodes (contents : Contents α π) : Piece α π → List AiScript.Node
  | .part part => contents.part part
  | .statement statement => [statement.node contents]

/-- The output of pieces. -/
def nodesOf (contents : Contents α π) : List (Piece α π) → List AiScript.Node
  | [] => []
  | piece :: pieces => piece.nodes contents ++ nodesOf contents pieces
end

theorem nodesOf_append (contents : Contents α π) (ps qs : List (Piece α π)) :
    nodesOf contents (ps ++ qs) = nodesOf contents ps ++ nodesOf contents qs := by
  induction ps with
  | nil => rfl
  | cons p ps ih => rw [List.cons_append, nodesOf, nodesOf, ih, List.append_assoc]

/-! ## Carrying out -/

/-- What has happened, and the flag. -/
structure Moment (α π : Type) where
  history : History α π := []
  flag : Bool := false

section
variable (oracle : Oracle α π)

/-- Whether a condition holds; of an alternative, what need not be asked is not asked. -/
def Test.evaluate : Test α → Moment α π → Bool × Moment α π
  | .ask test, m =>
    let holds := oracle.holds m.history test
    (holds, { m with history := m.history ++ [.asked test holds] })
  | .flag, m => (m.flag, m)
  | .not test, m =>
    let (holds, m) := test.evaluate m
    (!holds, m)
  | .or first second, m =>
    match first.evaluate m with
    | (true, m) => (true, m)
    | (false, m) => second.evaluate m

/-- What follows something, if that ends normally. -/
def onward (r : Option Ending × Moment α π)
    (following : Moment α π → Option Ending × Moment α π) : Option Ending × Moment α π :=
  match r with
  | (some .normal, m) => following m
  | r => r

/-- The rounds of a loop, as many as are granted. -/
def rounds (round : Moment α π → Option Ending × Moment α π) :
    Nat → Moment α π → Option Ending × Moment α π
  | 0, m => (none, m)
  | n + 1, m =>
    match round m with
    | (some .normal, m) | (some .next, m) => rounds round n m
    | (some .exit, m) => (some .normal, m)
    | (some .ret, m) => (some .ret, m)
    | (none, m) => (none, m)

mutual
/-- What happens when an outline is carried out with at most `n` rounds of each loop. -/
def Outline.carryOut (n : Nat) : Outline α π → Moment α π → Option Ending × Moment α π
  | .exit, m => (some .exit, m)
  | .define value, m | .assign value, m => (some .normal, { m with flag := value })
  | .cond test body rest, m =>
    match test.evaluate oracle m with
    | (true, m) => body.carryOut n m
    | (false, m) => rest.carryOut n m
  | .block pieces, m => carryOutAll n pieces m
  | .loop pieces, m => rounds (fun m => carryOutAll n pieces m) n m

/-- What happens in the rest of a chain. -/
def Chain.carryOut (n : Nat) : Chain α π → Moment α π → Option Ending × Moment α π
  | .done, m => (some .normal, m)
  | .otherwise body, m => body.carryOut n m
  | .branch test body rest, m =>
    match test.evaluate oracle m with
    | (true, m) => body.carryOut n m
    | (false, m) => rest.carryOut n m

/-- What happens in a piece. -/
def Piece.carryOut (n : Nat) : Piece α π → Moment α π → Option Ending × Moment α π
  | .part part, m =>
    let ending := oracle.ending m.history part
    (some ending, { m with history := m.history ++ [.ran part ending] })
  | .statement statement, m => statement.carryOut n m

/-- What happens in pieces one after the other. -/
def carryOutAll (n : Nat) : List (Piece α π) → Moment α π → Option Ending × Moment α π
  | [], m => (some .normal, m)
  | piece :: pieces, m => onward (piece.carryOut n m) fun m => carryOutAll n pieces m
end

/-- What a program of pieces does from the start within a number of rounds. -/
def runPieces (pieces : List (Piece α π)) (n : Nat) : Result α π :=
  let (ending, m) := carryOutAll oracle n pieces {}
  (ending, m.history)

variable {oracle}

theorem onward_assoc (r : Option Ending × Moment α π)
    (f g : Moment α π → Option Ending × Moment α π) :
    onward (onward r f) g = onward r fun m => onward (f m) g := by
  rcases r with ⟨_ | (_ | _ | _ | _), m⟩ <;> rfl

theorem onward_normal (r : Option Ending × Moment α π) :
    onward r (fun m => (some .normal, m)) = r := by
  rcases r with ⟨_ | (_ | _ | _ | _), m⟩ <;> rfl

theorem carryOutAll_append (n : Nat) (ps qs : List (Piece α π)) (m : Moment α π) :
    carryOutAll oracle n (ps ++ qs) m =
      onward (carryOutAll oracle n ps m) fun m => carryOutAll oracle n qs m := by
  induction ps generalizing m with
  | nil => rfl
  | cons p ps ih => simp only [List.cons_append, carryOutAll, ih, onward_assoc]

theorem carryOutAll_singleton (n : Nat) (p : Piece α π) (m : Moment α π) :
    carryOutAll oracle n [p] m = p.carryOut oracle n m := by
  simp only [carryOutAll, onward_normal]

end

/-! ## Programs that do the same -/

/-- Two programs do the same: what has happened at some time in the one has happened at some time in
the other, and if the one ends in some way then so does the other. -/
structure SameTrace (run run' : Nat → Result α π) : Prop where
  happens : ∀ h : History α π, (∃ n, h <+: (run n).2) ↔ ∃ n, h <+: (run' n).2
  ends : ∀ (e : Ending) (h : History α π), (∃ n, run n = (some e, h)) ↔ ∃ n, run' n = (some e, h)

/-- A result is what another one was earlier, or the same. -/
def Earlier (r r' : Result α π) : Prop :=
  r = r' ∨ r.1 = none ∧ r.2 <+: r'.2

theorem Earlier.history {r r' : Result α π} (h : Earlier r r') : r.2 <+: r'.2 := by
  rcases h with rfl | ⟨-, h⟩
  · exact List.prefix_refl _
  · exact h

/-- Programs that catch up with each other do the same. -/
theorem sameTrace_of_earlier {run run' : Nat → Result α π}
    (h : ∀ n, ∃ k, Earlier (run n) (run' k)) (h' : ∀ n, ∃ k, Earlier (run' n) (run k)) :
    SameTrace run run' := by
  have happens {run run' : Nat → Result α π} (hr : ∀ n, ∃ k, Earlier (run n) (run' k))
      {t : History α π} : (∃ n, t <+: (run n).2) → ∃ n, t <+: (run' n).2 := by
    rintro ⟨n, hn⟩
    obtain ⟨k, hk⟩ := hr n
    exact ⟨k, hn.trans hk.history⟩
  have ends {run run' : Nat → Result α π} (hr : ∀ n, ∃ k, Earlier (run n) (run' k)) {e : Ending}
      {t : History α π} : (∃ n, run n = (some e, t)) → ∃ n, run' n = (some e, t) := by
    rintro ⟨n, hn⟩
    obtain ⟨k, hk | ⟨hk, -⟩⟩ := hr n
    · exact ⟨k, hk ▸ hn⟩
    · rw [hn] at hk
      exact nomatch hk
  exact ⟨fun _ => ⟨happens h, happens h'⟩, fun _ _ => ⟨ends h, ends h'⟩⟩

theorem sameTrace_of_eq {run run' : Nat → Result α π} (h : ∀ n, run n = run' n) :
    SameTrace run run' := by
  rw [funext h]
  exact ⟨fun _ => .rfl, fun _ _ => .rfl⟩

/-! ## Stages -/

/-- A stage of a program; it ends the program in some way or goes on. -/
abbrev Stage (α π : Type) := History α π → Result α π

/-- One stage, and then another one if the first goes on. -/
def Stage.next (first second : Stage α π) : Stage α π := fun h =>
  match first h with
  | (none, h) => second h
  | r => r

/-- A number of times the same stage. -/
def Stage.times (stage : Stage α π) : Nat → Stage α π
  | 0 => fun h => (none, h)
  | n + 1 => stage.next (stage.times n)

/-- A stage that takes nothing back. -/
def Stage.Grows (stage : Stage α π) : Prop :=
  ∀ h, h <+: (stage h).2

namespace Stage

variable {first second third : Stage α π}

theorem next_assoc : (first.next second).next third = first.next (second.next third) := by
  funext h
  unfold next
  rcases first h with ⟨_ | _, _⟩ <;> rfl

/-- Rounds of two stages with the first one once more are rounds that begin with the second one, after
the first one. -/
theorem times_next (first second : Stage α π) (n : Nat) :
    ((first.next second).times n).next first = first.next ((second.next first).times n) := by
  induction n with
  | zero =>
    funext h
    simp only [times, next]
    rcases first h with ⟨_ | _, _⟩ <;> rfl
  | succ n ih => rw [times, next_assoc, ih, next_assoc, times, next_assoc]

theorem earlier_next (hs : second.Grows) (h : History α π) :
    Earlier (first h) (first.next second h) := by
  unfold next
  rcases first h with ⟨_ | e, h'⟩
  · exact .inr ⟨rfl, hs h'⟩
  · exact .inl rfl

theorem times_succ' (n : Nat) : first.times (n + 1) = (first.times n).next first := by
  have h := times_next first (fun h => (none, h)) n
  have he : first.next (fun h => (none, h)) = first := by
    funext h
    unfold next
    rcases first h with ⟨_ | _, _⟩ <;> rfl
  have he' : Stage.next (fun h => (none, h)) first = first := rfl
  rw [he, he'] at h
  exact h.symm

/-- Rounds of two stages, and rounds that begin with the second stage after the first one, do the
same. -/
theorem sameTrace_shifted (hf : first.Grows) (hs : second.Grows) (h : History α π)
    {run : Nat → Result α π}
    (hzero : run 0 = (none, h))
    (hsucc : ∀ n, run (n + 1) = first.next ((second.next first).times n) h) :
    SameTrace (fun n => (first.next second).times n h) run := by
  refine sameTrace_of_earlier (fun n => ⟨n + 1, ?_⟩) fun n => ⟨n, ?_⟩
  · rw [hsucc, ← times_next]
    exact earlier_next hf h
  · cases n with
    | zero => exact .inl hzero
    | succ n =>
      rw [hsucc, ← times_next, times_succ', ← next_assoc]
      exact earlier_next hs h

end Stage

end ScriptBridge.Conversion
