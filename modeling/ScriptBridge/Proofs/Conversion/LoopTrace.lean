import ScriptBridge.Conversion.Module
import ScriptBridge.Proofs.Conversion.Outline
import ScriptBridge.Proofs.TypeScript.Children

/-!
# Loops do what they do in the source

A loop with a condition becomes an endless loop in one of two layouts: plainly, or, where a `continue`
would skip what happens between two rounds, with that moved to the start of the round behind a flag. The
condition, the body, and what a `for` statement does before the loop and after each round are taken as
parts whose outcomes an oracle decides. A condition that always holds and an advance that comes to
nothing are no parts. Only a body with a `continue` of the loop can end with one.

* `SourceLoop.run`: what a loop of the source does.
* `Continues`: a `continue` belongs to the loop around a statement.
* `loop_sameTrace`: what a loop becomes does the same.
-/

namespace ScriptBridge.Conversion

open TypeScript

/-! ## Loops of the source -/

/-- A loop with a condition. -/
structure SourceLoop where
  /-- Whether the condition is asked for before the body. -/
  testsFirst : Bool
  start : Option Node
  test : Option Node
  /-- What happens after each round. -/
  step : Option Node
  body : Node

/-- The loop that a statement is. -/
def sourceLoop? : Node → Option SourceLoop
  | .forStatement _ start test advance body => some ⟨true, start, test, advance, body⟩
  | .whileStatement _ test body => some ⟨true, none, some test, none, body⟩
  | .doStatement _ body test => some ⟨false, none, some test, none, body⟩
  | _ => none

/-- The parts of a loop that are statements. -/
inductive LoopPart where
  | start
  | body
  | step
deriving DecidableEq, Repr

/-- What decides how a loop goes. -/
abbrev LoopOracle := Oracle Unit LoopPart

/-- A stage of a loop. -/
abbrev LoopStage := Stage Unit LoopPart

/-- What an ending of a round means for a loop: it ends, or goes on. -/
def Ending.leaves : Ending → Option Ending
  | .normal | .next => none
  | .exit => some .normal
  | .ret => some .ret

section
variable (oracle : LoopOracle)

/-- The condition; the loop ends when it does not hold. -/
def testStage : LoopStage := fun h =>
  let holds := oracle.holds h ()
  (if holds then none else some .normal, h ++ [.asked () holds])

/-- The body. -/
def bodyStage : LoopStage := fun h =>
  let ending := oracle.ending h .body
  (ending.leaves, h ++ [.ran .body ending])

/-- A part after which the loop goes on. -/
def plainStage (part : LoopPart) : LoopStage := fun h =>
  (none, h ++ [.ran part (oracle.ending h part)])

end

/-- A stage that may be missing. -/
def Stage.when {α π : Type} (stage : Stage α π) : Bool → Stage α π
  | true => stage
  | false => fun h => (none, h)

/-- The output of the parts of a loop. -/
structure LoopParts where
  flag : String
  start : List AiScript.Node
  /-- The condition, if there is one that may fail. -/
  test : Option AiScript.Node
  body : List AiScript.Node
  step : List AiScript.Node

namespace LoopParts

variable (parts : LoopParts)

def hasStart : Bool := !parts.start.isEmpty

def hasTest : Bool := parts.test.isSome

def hasStep : Bool := !parts.step.isEmpty

/-- The parts as contents of an outline. -/
def contents : Contents Unit LoopPart where
  flag := parts.flag
  test _ := parts.test.getD default
  part
    | .start => parts.start
    | .body => parts.body
    | .step => parts.step

end LoopParts

/-- A round of a loop of the source. -/
def SourceLoop.round (l : SourceLoop) (parts : LoopParts) (oracle : LoopOracle) : LoopStage :=
  let test := (testStage oracle).when parts.hasTest
  let step := (plainStage oracle .step).when parts.hasStep
  if l.testsFirst then (test.next (bodyStage oracle)).next step
  else (bodyStage oracle).next test

/-- What a loop of the source does within a number of rounds. Of its parts it only matters in which of
them something happens. -/
def SourceLoop.run (l : SourceLoop) (parts : LoopParts) (oracle : LoopOracle) (n : Nat) :
    Result Unit LoopPart :=
  ((plainStage oracle .start).when parts.hasStart).next ((l.round parts oracle).times n) []

/-- A `continue` of the loop around a statement is in the statement. -/
inductive Continues : Node → Prop
  | here (m : Mark) : Continues (.continueStatement m none)
  | inside {n part : Node} (isPart : part ∈ n.children) (noLoop : isLoop n = false)
      (noFunction : isFunction n = false) (continues : Continues part) : Continues n

/-- Outcomes that a loop with a body can have: only the body can end in another way than normally, and it
can end with a `continue` only if there is one. -/
structure Oracle.Fits (oracle : LoopOracle) (body : Node) : Prop where
  start : ∀ h, oracle.ending h .start = .normal
  step : ∀ h, oracle.ending h .step = .normal
  next : ∀ h, oracle.ending h .body = .next → Continues body

/-! ## Which loops a jump continues -/

theorem isContinue_iff {n : Node} : isContinue n = true ↔ ∃ m, n = .continueStatement m none := by
  unfold isContinue
  split
  · simp
  · simp_all

/-- A loop body is found to have a `continue` of the loop exactly when it has one. -/
theorem hasContinue_iff (n : Node) : hasContinue n = true ↔ Continues n := by
  induction n using Node.induct with
  | h n ih =>
    have hfold : hasContinue n =
        (isContinue n || (!isFunction n && !isLoop n && (n.children.map hasContinue).any id)) := by
      unfold hasContinue hasJump
      rw [Node.fold_eq]
    rw [hfold]
    simp only [Bool.or_eq_true, Bool.and_eq_true, Bool.not_eq_true', List.any_map, List.any_eq_true,
      Function.comp_apply, id_eq]
    constructor
    · rintro (h | ⟨⟨hf, hl⟩, part, hp, h⟩)
      · obtain ⟨m, rfl⟩ := isContinue_iff.mp h
        exact .here m
      · exact .inside hp hl hf ((ih part hp).mp h)
    · rintro (m | ⟨hp, hl, hf, h⟩)
      · exact .inl rfl
      · exact .inr ⟨⟨hf, hl⟩, _, hp, (ih _ hp).mpr h⟩

/-! ## Layouts -/

/-- The test that leaves a loop. -/
def checkPieces (hasTest : Bool) : List (Piece Unit LoopPart) :=
  if hasTest then [.statement (.cond (.not (.ask ())) .exit .done)] else []

/-- A part that may be missing. -/
def partPieces (part : LoopPart) (has : Bool) : List (Piece Unit LoopPart) :=
  if has then [.part part] else []

/-- What happens between two rounds, moved to the start of the second one. -/
def betweenRounds (later : List (Piece Unit LoopPart)) : Piece Unit LoopPart :=
  .statement (.cond .flag (.block [.statement (.assign false)]) (.otherwise (.block later)))

/-- An endless loop behind the definition of its flag. -/
def flaggedLoop (later rest : List (Piece Unit LoopPart)) : List (Piece Unit LoopPart) :=
  [.statement (.define true), .statement (.loop (betweenRounds later :: rest))]

/-- The outline of a loop that tests before its body. -/
def testsFirstPieces (parts : LoopParts) (continues : Bool) : List (Piece Unit LoopPart) :=
  let check := checkPieces parts.hasTest
  let start := partPieces .start parts.hasStart
  let step := partPieces .step parts.hasStep
  if parts.hasStep && continues then
    [.statement (.block (start ++ flaggedLoop step (check ++ [.part .body])))]
  else
    let loop := [.statement (.loop (check ++ [.part .body] ++ step))]
    if parts.hasStart then [.statement (.block (start ++ loop))] else loop

/-- The outline of a loop that tests after its body. -/
def testsLastPieces (parts : LoopParts) (continues : Bool) : List (Piece Unit LoopPart) :=
  let check := checkPieces parts.hasTest
  if parts.hasTest && continues then [.statement (.block (flaggedLoop check [.part .body]))]
  else [.statement (.loop ([.part .body] ++ check))]

/-- The outline of what a loop becomes. -/
def SourceLoop.pieces (l : SourceLoop) (parts : LoopParts) : List (Piece Unit LoopPart) :=
  let continues := hasContinue l.body
  if l.testsFirst then testsFirstPieces parts continues else testsLastPieces parts continues

/-! ## What pieces do -/

section
variable {oracle : LoopOracle} {flag : Bool} {ps qs later : List (Piece Unit LoopPart)}
  {first second : LoopStage}

/-- Pieces that do as a stage of a loop does, whatever the flag is, and end as `Q` allows. -/
def Plays (oracle : LoopOracle) (Q : Ending → Prop) (ps : List (Piece Unit LoopPart))
    (stage : LoopStage) : Prop :=
  ∀ n h flag, ∃ e, carryOutAll oracle n ps ⟨h, flag⟩ = (some e, ⟨(stage h).2, flag⟩) ∧
    e.leaves = (stage h).1 ∧ Q e

theorem Plays.mono {Q R : Ending → Prop} (h : Plays oracle Q ps first) (hQ : ∀ e, Q e → R e) :
    Plays oracle R ps first := by
  intro n t flag
  obtain ⟨e, he, hl, hq⟩ := h n t flag
  exact ⟨e, he, hl, hQ e hq⟩

/-- Pieces that do not go on with the next round, followed by others. -/
theorem Plays.append {Q : Ending → Prop} (hp : Plays oracle (· ≠ .next) ps first)
    (hq : Plays oracle Q qs second) (hQ : Q .exit ∧ Q .ret) :
    Plays oracle Q (ps ++ qs) (first.next second) := by
  intro n h flag
  obtain ⟨e, he, hl, hne⟩ := hp n h flag
  rw [carryOutAll_append, he]
  unfold Stage.next
  generalize first h = r at hl
  obtain ⟨o, h'⟩ := r
  cases e with
  | normal =>
    cases hl
    exact hq n h' flag
  | exit =>
    cases hl
    exact ⟨.exit, rfl, rfl, hQ.1⟩
  | ret =>
    cases hl
    exact ⟨.ret, rfl, rfl, hQ.2⟩
  | next => exact absurd rfl hne

theorem plays_nil {Q : Ending → Prop} (hQ : Q .normal) :
    Plays oracle Q [] (first.when false) :=
  fun _ _ _ => ⟨.normal, rfl, rfl, hQ⟩

theorem plays_check (hasTest : Bool) :
    Plays oracle (· ≠ .next) (checkPieces hasTest) ((testStage oracle).when hasTest) := by
  cases hasTest with
  | false => exact plays_nil nofun
  | true =>
    intro n h flag
    simp only [checkPieces, if_true, carryOutAll, Piece.carryOut, Outline.carryOut, Test.evaluate,
      Stage.when, testStage]
    cases oracle.holds h () with
    | true => exact ⟨.normal, rfl, rfl, fun he => by cases he⟩
    | false => exact ⟨.exit, rfl, rfl, fun he => by cases he⟩

/-- A single part ends as the oracle says. -/
theorem carryOutAll_part (n : Nat) (part : LoopPart) (m : Moment Unit LoopPart) :
    carryOutAll oracle n [.part part] m = (some (oracle.ending m.history part),
      { m with history := m.history ++ [.ran part (oracle.ending m.history part)] }) := by
  rw [carryOutAll_singleton]
  rfl

theorem plays_body (Q : Ending → Prop) (hQ : ∀ h, Q (oracle.ending h .body)) :
    Plays oracle Q [.part .body] (bodyStage oracle) :=
  fun n h flag => ⟨oracle.ending h .body, carryOutAll_part n .body ⟨h, flag⟩, rfl, hQ h⟩

theorem plays_part {part : LoopPart} (hpart : ∀ h, oracle.ending h part = .normal) (has : Bool) :
    Plays oracle (· ≠ .next) (partPieces part has) ((plainStage oracle part).when has) := by
  cases has with
  | false => exact plays_nil nofun
  | true =>
    intro n h flag
    refine ⟨.normal, ?_, rfl, nofun⟩
    have he : carryOutAll oracle n [.part part] ⟨h, flag⟩ = _ := carryOutAll_part n part ⟨h, flag⟩
    simpa only [partPieces, if_true, Stage.when, plainStage, hpart] using he

/-! ## Loops of pieces -/

/-- A loop does the stage of its round over and over. -/
theorem rounds_times {round : Moment Unit LoopPart → Option Ending × Moment Unit LoopPart}
    (hround : ∀ h, ∃ e, round ⟨h, flag⟩ = (some e, ⟨(first h).2, flag⟩) ∧ e.leaves = (first h).1)
    (k : Nat) (h : History Unit LoopPart) :
    rounds round k ⟨h, flag⟩ = ((first.times k h).1, ⟨(first.times k h).2, flag⟩) := by
  induction k generalizing h with
  | zero => rfl
  | succ k ih =>
    obtain ⟨e, he, hl⟩ := hround h
    rw [rounds, he, Stage.times, Stage.next]
    generalize first h = r at hl
    obtain ⟨o, h'⟩ := r
    cases e with
    | normal | next =>
      cases hl
      exact ih h'
    | exit | ret =>
      cases hl
      rfl

/-- A loop as the last piece. -/
theorem carryOutAll_loop (n : Nat) (m : Moment Unit LoopPart) :
    carryOutAll oracle n [.statement (.loop ps)] m =
      rounds (fun m => carryOutAll oracle n ps m) n m := by
  rw [carryOutAll_singleton]
  rfl

/-- With the flag down, what is between rounds is done before the round. -/
theorem carryOutAll_later (n : Nat) (h : History Unit LoopPart) :
    carryOutAll oracle n (betweenRounds later :: ps) ⟨h, false⟩ =
      carryOutAll oracle n (later ++ ps) ⟨h, false⟩ := by
  rw [carryOutAll_append]
  rfl

/-- With the flag up, only the flag is taken down. -/
theorem carryOutAll_first (n : Nat) (h : History Unit LoopPart) :
    carryOutAll oracle n (betweenRounds later :: ps) ⟨h, true⟩ = carryOutAll oracle n ps ⟨h, false⟩ :=
  rfl

/-- A flagged loop does its round, and then over and over what is between rounds and the round. -/
theorem Plays.flaggedLoop {Q : Ending → Prop} (hl : Plays oracle (· ≠ .next) later second)
    (hp : Plays oracle Q ps first) (hQ : Q .exit ∧ Q .ret) (n : Nat) (h : History Unit LoopPart) :
    ∃ flag, carryOutAll oracle (n + 1) (flaggedLoop later ps) ⟨h, false⟩ =
      ((first.next ((second.next first).times n) h).1,
        ⟨(first.next ((second.next first).times n) h).2, flag⟩) := by
  have hdefine : carryOutAll oracle (n + 1) (Conversion.flaggedLoop later ps) ⟨h, false⟩ =
      carryOutAll oracle (n + 1) [.statement (.loop (betweenRounds later :: ps))] ⟨h, true⟩ := rfl
  have hlater : ∀ h, ∃ e, carryOutAll oracle (n + 1) (betweenRounds later :: ps) ⟨h, false⟩ =
      (some e, ⟨(second.next first h).2, false⟩) ∧ e.leaves = (second.next first h).1 := by
    intro h
    obtain ⟨e, he, hle, -⟩ := hl.append hp hQ (n + 1) h false
    exact ⟨e, (carryOutAll_later _ h).trans he, hle⟩
  obtain ⟨e, he, hle, -⟩ := hp (n + 1) h false
  rw [hdefine, carryOutAll_loop, rounds, carryOutAll_first, he]
  rw [Stage.next]
  generalize first h = r at hle
  obtain ⟨o, h'⟩ := r
  cases e with
  | normal | next =>
    cases hle
    exact ⟨false, rounds_times hlater n h'⟩
  | exit | ret =>
    cases hle
    exact ⟨false, rfl⟩

/-- A plain loop does its round over and over. -/
theorem Plays.plainLoop {Q : Ending → Prop} (hp : Plays oracle Q ps first) (n : Nat)
    (h : History Unit LoopPart) :
    carryOutAll oracle n [.statement (.loop ps)] ⟨h, false⟩ =
      ((first.times n h).1, ⟨(first.times n h).2, false⟩) := by
  refine (carryOutAll_loop n _).trans (rounds_times (fun h => ?_) n h)
  obtain ⟨e, he, hl, -⟩ := hp n h false
  exact ⟨e, he, hl⟩

/-- What happens before the first round. -/
theorem carryOutAll_start (hstart : ∀ h, oracle.ending h .start = .normal) (has : Bool)
    (ps : List (Piece Unit LoopPart)) (n : Nat) :
    carryOutAll oracle n (partPieces .start has ++ ps) {} =
      carryOutAll oracle n ps ⟨((plainStage oracle .start).when has []).2, false⟩ := by
  have hp := plays_part hstart has n [] false
  rw [carryOutAll_append]
  cases has with
  | false => rfl
  | true =>
    rw [partPieces, if_pos rfl, carryOutAll_part, hstart]
    simp only [onward, Stage.when, plainStage, hstart]

theorem runPieces_block (ps : List (Piece Unit LoopPart)) (n : Nat) :
    runPieces oracle [.statement (.block ps)] n = runPieces oracle ps n := by
  rw [runPieces, runPieces, carryOutAll_singleton]
  rfl

end

/-! ## The layouts do what the loops do -/

section
variable {oracle : LoopOracle} {body : Node}

theorem Stage.next_when_false (first second : LoopStage) : first.next (second.when false) = first := by
  funext h
  unfold Stage.next
  rcases first h with ⟨_ | _, _⟩ <;> rfl

/-- A body that cannot end with a `continue` if something follows it in its round. -/
theorem plays_round {ps later : List (Piece Unit LoopPart)} {first second : LoopStage} {has : Bool}
    (hf : oracle.Fits body) (hlast : ¬ (has && hasContinue body) = true)
    (hp : ∀ Q : Ending → Prop, (∀ h, Q (oracle.ending h .body)) → Q .exit ∧ Q .ret →
      Plays oracle Q ps first)
    (hl : Plays oracle (· ≠ .next) later (second.when has)) (hnil : has = false → later = []) :
    Plays oracle (fun _ => True) (ps ++ later) (first.next (second.when has)) := by
  cases has with
  | false =>
    rw [hnil rfl, List.append_nil, Stage.next_when_false]
    exact hp _ (fun _ => trivial) ⟨trivial, trivial⟩
  | true =>
    have hne : ∀ h, oracle.ending h .body ≠ .next :=
      fun h he => hlast ((hasContinue_iff body).mpr (hf.next h he))
    exact ((hp _ hne ⟨nofun, nofun⟩).append hl ⟨nofun, nofun⟩).mono fun _ _ => trivial

theorem grows_testStage : (testStage oracle).Grows :=
  fun _ => List.prefix_append _ _

theorem grows_bodyStage : (bodyStage oracle).Grows :=
  fun _ => List.prefix_append _ _

theorem grows_plainStage (part : LoopPart) : (plainStage oracle part).Grows :=
  fun _ => List.prefix_append _ _

theorem Stage.Grows.when {stage : LoopStage} (h : stage.Grows) (has : Bool) :
    (stage.when has).Grows := by
  cases has with
  | false => exact fun _ => List.prefix_refl _
  | true => exact h

theorem Stage.Grows.next {first second : LoopStage} (hf : first.Grows) (hs : second.Grows) :
    (first.next second).Grows := by
  intro h
  have hfirst := hf h
  unfold Stage.next
  generalize first h = r at hfirst
  rcases r with ⟨_ | _, h'⟩
  · exact hfirst.trans (hs h')
  · exact hfirst

theorem plays_testBody (hasTest : Bool) {Q : Ending → Prop}
    (hbody : ∀ h, Q (oracle.ending h .body)) (hQ : Q .exit ∧ Q .ret) :
    Plays oracle Q (checkPieces hasTest ++ [.part .body])
      (((testStage oracle).when hasTest).next (bodyStage oracle)) :=
  (plays_check hasTest).append (plays_body Q hbody) hQ

/-- What a loop does is what its rounds do after its start. -/
theorem run_eq (l : SourceLoop) (parts : LoopParts) (n : Nat) :
    l.run parts oracle n = (l.round parts oracle).times n
      ((plainStage oracle .start).when parts.hasStart []).2 := by
  unfold SourceLoop.run Stage.next
  cases parts.hasStart <;> rfl

theorem testsFirst_sameTrace {l : SourceLoop} {parts : LoopParts} (hl : l.testsFirst = true)
    (hf : oracle.Fits l.body) :
    SameTrace (l.run parts oracle)
      (runPieces oracle (testsFirstPieces parts (hasContinue l.body))) := by
  have hround : l.round parts oracle =
      (((testStage oracle).when parts.hasTest).next (bodyStage oracle)).next
        ((plainStage oracle .step).when parts.hasStep) := by
    rw [SourceLoop.round, hl, if_pos rfl]
  have hstep := plays_part hf.step parts.hasStep
  rw [funext (run_eq l parts), hround]
  unfold testsFirstPieces
  dsimp only
  split
  · rw [funext (runPieces_block _)]
    refine Stage.sameTrace_shifted ((grows_testStage.when _).next grows_bodyStage)
      ((grows_plainStage .step).when _) _ ?_ fun n => ?_
    · rw [runPieces, carryOutAll_start hf.start]
      rfl
    · obtain ⟨flag, he⟩ := hstep.flaggedLoop
        (plays_testBody (Q := fun _ => True) parts.hasTest (fun _ => trivial) ⟨trivial, trivial⟩)
        ⟨trivial, trivial⟩ n ((plainStage oracle .start).when parts.hasStart []).2
      rw [runPieces, carryOutAll_start hf.start, he]
  · have hplain := plays_round hf ‹_› (fun Q => plays_testBody (Q := Q) parts.hasTest) hstep
      fun h => by rw [partPieces, h]; rfl
    refine sameTrace_of_eq fun n => ?_
    have hblock (has : Bool) (ps : List (Piece Unit LoopPart)) :
        runPieces oracle (if has then [.statement (.block (partPieces .start has ++ ps))] else ps) n =
          runPieces oracle (partPieces .start has ++ ps) n := by
      cases has with
      | false => rfl
      | true => exact runPieces_block _ n
    rw [hblock, runPieces, carryOutAll_start hf.start, hplain.plainLoop]

theorem testsLast_sameTrace {l : SourceLoop} {parts : LoopParts} (hl : l.testsFirst = false)
    (hstart : parts.start = []) (hf : oracle.Fits l.body) :
    SameTrace (l.run parts oracle)
      (runPieces oracle (testsLastPieces parts (hasContinue l.body))) := by
  have hround : l.round parts oracle =
      (bodyStage oracle).next ((testStage oracle).when parts.hasTest) := by
    rw [SourceLoop.round, hl, if_neg nofun]
  have hnone : parts.hasStart = false := by rw [LoopParts.hasStart, hstart]; rfl
  have hcheck : Plays oracle _ _ _ := plays_check parts.hasTest
  rw [funext (run_eq l parts), hround, hnone]
  unfold testsLastPieces
  dsimp only
  split
  · rw [funext (runPieces_block _)]
    refine Stage.sameTrace_shifted grows_bodyStage (grows_testStage.when _) _ rfl fun n => ?_
    obtain ⟨flag, he⟩ := hcheck.flaggedLoop (plays_body (fun _ => True) fun _ => trivial)
      ⟨trivial, trivial⟩ n ((plainStage oracle .start).when false []).2
    exact congrArg (fun r : Option Ending × Moment Unit LoopPart => (r.1, r.2.history)) he
  · have hplain := plays_round hf ‹_› (fun Q hb _ => plays_body Q hb) hcheck
      fun h => by rw [checkPieces, h]; rfl
    refine sameTrace_of_eq fun n => ?_
    have he := hplain.plainLoop n ((plainStage oracle .start).when false []).2
    exact congrArg (fun r : Option Ending × Moment Unit LoopPart => (r.1, r.2.history)) he.symm

end

/-! ## What loops become -/

/-- The condition of a loop, if it may fail. -/
def loopTest (c : Converter) : Option Node → ConvertM (Option AiScript.Node)
  | none => return none
  | some test => do
    match ← convertCondition c test with
    | .bool _ true => return none
    | condition => return some condition

/-- The parts of a loop are what its parts are converted to. -/
structure LoopParts.ConvertedFrom (parts : LoopParts) (c : Converter) (context : Context)
    (l : SourceLoop) : Prop where
  start : Produces context (loopStart c l.start) parts.start
  test : Produces context (loopTest c l.test) parts.test
  body : Produces context (loopBody c l.body) parts.body
  step : Produces context (loopAdvance c l.step) parts.step

section
variable {c : Converter} {context : Context} {s s' : Progress}

theorem convertGuard?_ok {test : Option Node} {check : List AiScript.Node}
    (h : convertGuard? c test context s = .ok check s') :
    ∃ condition, loopTest c test context s = .ok condition s' ∧
      ∀ parts : LoopParts, parts.test = condition →
        nodesOf parts.contents (checkPieces parts.hasTest) = check := by
  cases test with
  | none =>
    cases h
    exact ⟨none, rfl, fun parts hp => by rw [LoopParts.hasTest, hp]; rfl⟩
  | some test =>
    obtain ⟨condition, s₁, hc, h⟩ := bind_ok h
    have htest : loopTest c (some test) context s = _ := bind_of_ok hc _
    rw [htest]
    have guarded {value : AiScript.Node} (parts : LoopParts) (hp : parts.test = some value) :
        nodesOf parts.contents (checkPieces parts.hasTest) =
          [.cond {} (.unary {} "!" value) (.exit {}) [] none] := by
      rw [LoopParts.hasTest, hp]
      simp only [Option.isSome_some, checkPieces, if_true, nodesOf, Piece.nodes, Outline.node,
        Test.node, Chain.branches, Chain.last, LoopParts.contents, hp, Option.getD_some,
        List.append_nil]
    split at h
    · cases h
      exact ⟨none, rfl, fun parts hp => by rw [LoopParts.hasTest, hp]; rfl⟩
    · rename_i hfails
      cases h
      refine ⟨some condition, ?_, guarded⟩
      cases condition with
      | bool loc value =>
        cases value with
        | true => exact (hfails _ rfl).elim
        | false => rfl
      | _ => rfl

theorem nodesOf_partPieces {parts : LoopParts} {part : LoopPart} {has : Bool}
    (h : has = !(parts.contents.part part).isEmpty) :
    nodesOf parts.contents (partPieces part has) = parts.contents.part part := by
  subst h
  generalize he : parts.contents.part part = nodes
  cases nodes with
  | nil => rfl
  | cons n ns => simp [partPieces, nodesOf, Piece.nodes, he]

theorem nodesOf_flaggedLoop (contents : Contents Unit LoopPart)
    (later rest : List (Piece Unit LoopPart)) :
    nodesOf contents (flaggedLoop later rest) =
      [define contents.flag (.bool {} true) true,
        .loop {} (afterFirst contents.flag (nodesOf contents later) :: nodesOf contents rest)] :=
  rfl

theorem nodesOf_block (contents : Contents Unit LoopPart) (ps : List (Piece Unit LoopPart)) :
    nodesOf contents [.statement (.block ps)] = [.block {} (nodesOf contents ps)] :=
  rfl

theorem nodesOf_loop (contents : Contents Unit LoopPart) (ps : List (Piece Unit LoopPart)) :
    nodesOf contents [.statement (.loop ps)] = [.loop {} (nodesOf contents ps)] :=
  rfl

theorem nodesOf_body (parts : LoopParts) : nodesOf parts.contents [.part .body] = parts.body :=
  List.append_nil _

theorem nodesOf_start (parts : LoopParts) :
    nodesOf parts.contents (partPieces .start parts.hasStart) = parts.start :=
  nodesOf_partPieces rfl

theorem nodesOf_step (parts : LoopParts) :
    nodesOf parts.contents (partPieces .step parts.hasStep) = parts.step :=
  nodesOf_partPieces rfl

theorem nodesOf_testsFirstPieces (parts : LoopParts) (continues : Bool) :
    nodesOf parts.contents (testsFirstPieces parts continues) =
      let check := nodesOf parts.contents (checkPieces parts.hasTest)
      let loop : AiScript.Node := .loop {} (check ++ parts.body ++ parts.step)
      if !parts.step.isEmpty && continues then
        [.block {} (parts.start ++ [define parts.flag (.bool {} true) true,
          .loop {} (afterFirst parts.flag parts.step :: check ++ parts.body)])]
      else if parts.start.isEmpty then [loop] else [.block {} (parts.start ++ [loop])] := by
  unfold testsFirstPieces
  dsimp only
  rw [LoopParts.hasStep]
  split
  · rw [nodesOf_block, nodesOf_append, nodesOf_start, nodesOf_flaggedLoop, nodesOf_append,
      ← LoopParts.hasStep, nodesOf_step, nodesOf_body]
    rfl
  · rw [← LoopParts.hasStep]
    cases hs : parts.start.isEmpty with
    | true =>
      rw [LoopParts.hasStart, hs, if_neg nofun, if_pos rfl, nodesOf_loop, nodesOf_append,
        nodesOf_append, nodesOf_body, nodesOf_step]
    | false =>
      have hstart : parts.hasStart = true := by rw [LoopParts.hasStart, hs]; rfl
      rw [if_pos hstart, if_neg nofun, nodesOf_block, nodesOf_append, nodesOf_start, nodesOf_loop,
        nodesOf_append, nodesOf_append, nodesOf_body, nodesOf_step]

theorem nodesOf_testsLastPieces (parts : LoopParts) (continues : Bool) :
    nodesOf parts.contents (testsLastPieces parts continues) =
      let check := nodesOf parts.contents (checkPieces parts.hasTest)
      if parts.hasTest && continues then
        [.block {} [define parts.flag (.bool {} true) true,
          .loop {} (afterFirst parts.flag check :: parts.body)]]
      else [.loop {} (parts.body ++ check)] := by
  unfold testsLastPieces
  dsimp only
  split
  · rw [nodesOf_block, nodesOf_flaggedLoop, nodesOf_body]
    rfl
  · rw [nodesOf_loop, nodesOf_append, nodesOf_body]

/-- A `for` statement. -/
theorem convertFor_ok {start test advance : Option Node} {body : Node} {out : List AiScript.Node}
    (h : convertFor c start test advance body context s = .ok out s') :
    ∃ parts : LoopParts, parts.ConvertedFrom c context ⟨true, start, test, advance, body⟩ ∧
      out = nodesOf parts.contents (testsFirstPieces parts (hasContinue body)) := by
  obtain ⟨prologue, s₁, hstart, h⟩ := bind_ok h
  obtain ⟨check, s₂, hguard, h⟩ := bind_ok h
  obtain ⟨round, s₃, hbody, h⟩ := bind_ok h
  obtain ⟨later, s₄, hlater, h⟩ := bind_ok h
  obtain ⟨condition, htest, hcheck⟩ := convertGuard?_ok hguard
  let parts (flag : String) : LoopParts := ⟨flag, prologue, condition, round, later⟩
  have converted (flag : String) :
      (parts flag).ConvertedFrom c context ⟨true, start, test, advance, body⟩ :=
    ⟨⟨s, s₁, hstart⟩, ⟨s₁, s₂, htest⟩, ⟨s₂, s₃, hbody⟩, ⟨s₃, s₄, hlater⟩⟩
  split at h
  · obtain ⟨flag, s₅, -, h⟩ := bind_ok h
    cases h
    refine ⟨parts flag, converted flag, ?_⟩
    rw [nodesOf_testsFirstPieces, hcheck (parts flag) rfl]
    exact (if_pos ‹_›).symm
  · cases h
    refine ⟨parts "", converted "", ?_⟩
    rw [nodesOf_testsFirstPieces, hcheck (parts "") rfl]
    exact (if_neg ‹_›).symm

/-- A loop that tests before its body and has no more parts. -/
theorem convertWhile_ok {test body : Node} {out : List AiScript.Node}
    (h : convertWhile c test body context s = .ok out s') :
    ∃ parts : LoopParts, parts.ConvertedFrom c context ⟨true, none, some test, none, body⟩ ∧
      out = nodesOf parts.contents (testsFirstPieces parts (hasContinue body)) := by
  obtain ⟨check, s₁, hguard, h⟩ := bind_ok h
  obtain ⟨round, s₂, hbody, h⟩ := bind_ok h
  have hguard : convertGuard? c (some test) context _ = _ := hguard
  obtain ⟨condition, htest, hcheck⟩ := convertGuard?_ok hguard
  cases h
  refine ⟨⟨"", [], condition, round, []⟩, ⟨⟨s, s, rfl⟩, ⟨s, s₁, htest⟩, ⟨s₁, _, hbody⟩, ⟨s, s, rfl⟩⟩, ?_⟩
  rw [nodesOf_testsFirstPieces, hcheck _ rfl]
  simp

/-- A loop that tests after its body. -/
theorem convertDo_ok {body test : Node} {out : List AiScript.Node}
    (h : convertDo c body test context s = .ok out s') :
    ∃ parts : LoopParts, parts.ConvertedFrom c context ⟨false, none, some test, none, body⟩ ∧
      out = nodesOf parts.contents (testsLastPieces parts (hasContinue body)) := by
  obtain ⟨round, s₁, hbody, h⟩ := bind_ok h
  obtain ⟨check, s₂, hguard, h⟩ := bind_ok h
  have hguard : convertGuard? c (some test) context _ = _ := hguard
  obtain ⟨condition, htest, hcheck⟩ := convertGuard?_ok hguard
  let parts (flag : String) : LoopParts := ⟨flag, [], condition, round, []⟩
  have converted (flag : String) :
      (parts flag).ConvertedFrom c context ⟨false, none, some test, none, body⟩ :=
    ⟨⟨s, s, rfl⟩, ⟨s₁, s₂, htest⟩, ⟨s, s₁, hbody⟩, ⟨s, s, rfl⟩⟩
  have hcheckTest (flag : String) : (!check.isEmpty) = (parts flag).hasTest := by
    rw [← hcheck (parts flag) rfl]
    cases (parts flag).hasTest <;> rfl
  split at h
  · rename_i hflag
    obtain ⟨flag, s₅, -, h⟩ := bind_ok h
    cases h
    refine ⟨parts flag, converted flag, ?_⟩
    rw [hcheckTest flag] at hflag
    rw [nodesOf_testsLastPieces, hcheck (parts flag) rfl]
    exact (if_pos hflag).symm
  · rename_i hflag
    cases h
    refine ⟨parts "", converted "", ?_⟩
    rw [hcheckTest ""] at hflag
    rw [nodesOf_testsLastPieces, hcheck (parts "") rfl]
    exact (if_neg hflag).symm

/-- A loop with a condition becomes output that does the same as the loop. -/
theorem loop_sameTrace {n : Node} {l : SourceLoop} {out : Option (List AiScript.Node)}
    (hl : sourceLoop? n = some l) (h : control.statement c n context s = .ok out s') :
    ∃ parts : LoopParts, parts.ConvertedFrom c context l ∧
      out = some (nodesOf parts.contents (l.pieces parts)) ∧
      ∀ oracle : LoopOracle, oracle.Fits l.body →
        SameTrace (l.run parts oracle) (runPieces oracle (l.pieces parts)) := by
  unfold sourceLoop? at hl
  split at hl
  · cases hl
    obtain ⟨nodes, s₁, hn, h⟩ := bind_ok h
    obtain ⟨parts, hparts, rfl⟩ := convertFor_ok hn
    cases h
    exact ⟨parts, hparts, rfl, fun oracle hf => testsFirst_sameTrace rfl hf⟩
  · cases hl
    obtain ⟨nodes, s₁, hn, h⟩ := bind_ok h
    obtain ⟨parts, hparts, rfl⟩ := convertWhile_ok hn
    cases h
    exact ⟨parts, hparts, rfl, fun oracle hf => testsFirst_sameTrace rfl hf⟩
  · cases hl
    obtain ⟨nodes, s₁, hn, h⟩ := bind_ok h
    obtain ⟨parts, hparts, rfl⟩ := convertDo_ok hn
    cases h
    have hstart : parts.start = [] := by
      obtain ⟨_, _, h⟩ := hparts.start
      injection h with h
      exact h.symm
    exact ⟨parts, hparts, rfl, fun oracle hf => testsLast_sameTrace rfl hstart hf⟩
  · cases hl

end

/-- A loop with an advance that a `continue` must not skip. -/
def skippingLoop : String :=
  "for (; ready; i++) \x7b f(i); \x7b continue; \x7d \x7d"

/-- The body continues the loop in the second round and leaves it in the third one. -/
def skippingOracle : LoopOracle where
  holds _ _ := true
  ending h
    | .body => if h.length < 4 then .normal else if h.length < 7 then .next else .exit
    | _ => .normal

/-- Whether statements are one loop that is converted and has a `continue`. -/
def isSkippingLoop (statements : List Node) : Bool :=
  match statements with
  | [n] =>
    match sourceLoop? n with
    | some l =>
      hasContinue l.body && endsWith
        (control.statement (converter defaultCapabilities 20) n aloneContext default) fun _ _ => true
    | none => false
  | _ => false

theorem loop_sameTrace_skipping :
    ∃ file nextId n l parts out after,
      parseFrom 0 "main.ts" skippingLoop = .ok (file, nextId) ∧ file.statements = [n] ∧
      sourceLoop? n = some l ∧
      control.statement (converter defaultCapabilities 20) n aloneContext default = .ok out after ∧
      out = some (nodesOf parts.contents (l.pieces parts)) ∧ skippingOracle.Fits l.body ∧
      SameTrace (l.run parts skippingOracle) (runPieces skippingOracle (l.pieces parts)) := by
  have hc : succeedsWith (parseFrom 0 "main.ts" skippingLoop)
      (fun r => isSkippingLoop r.1.statements) = true := by
    decide +kernel
  obtain ⟨⟨file, nextId⟩, hp, hskip⟩ := succeedsWith_iff.mp hc
  dsimp only at hskip
  unfold isSkippingLoop at hskip
  split at hskip
  · rename_i n hn
    split at hskip
    · rename_i l hl
      obtain ⟨hcontinue, hend⟩ := Bool.and_eq_true_iff.mp hskip
      obtain ⟨out, after, hout, -⟩ := endsWith_iff.mp hend
      obtain ⟨parts, -, hnodes, hsame⟩ := loop_sameTrace hl hout
      have hfits : skippingOracle.Fits l.body :=
        ⟨fun _ => rfl, fun _ => rfl, fun _ _ => (hasContinue_iff _).mp hcontinue⟩
      exact ⟨file, nextId, n, l, parts, out, after, hp, hn, hl, hout, hnodes, hfits, hsame _ hfits⟩
    · exact absurd hskip nofun
  · exact absurd hskip nofun

end ScriptBridge.Conversion
