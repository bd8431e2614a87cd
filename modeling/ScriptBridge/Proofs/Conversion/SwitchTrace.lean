import Mathlib.Data.List.Forall2
import ScriptBridge.Conversion.Module
import ScriptBridge.Proofs.Conversion.SwitchChoice

/-!
# What the chain of a switch carries out

The chain that a switch becomes is an outline whose tests are those of the cases and whose parts are the
definition of the compared name and the bodies of the clauses. A case with statements makes a branch of
the chain, together with the cases before it that share its body.

* `groups`, `switchPieces`: the branches of the chain, and its outline.
* `SwitchParts.ConvertedFrom`: the tests and bodies are what those of the clauses are converted to.
* `switch_selects`: what a switch becomes carries out `takenClause`, which is the clause that the switch
  selects just if that is expressible.
-/

namespace ScriptBridge.Conversion

open TypeScript

/-! ## Parts of a switch -/

/-- The parts of a switch that are statements. -/
inductive SwitchPart where
  | subject
  | body (clause : Nat)
deriving DecidableEq, Repr

/-- What decides how a switch goes. -/
abbrev SwitchOracle := Oracle Nat SwitchPart

/-- Whenever a case is asked for it matches or not as given, and the value is found without an end. -/
structure Oracle.Answers (oracle : SwitchOracle) (equals : Nat → Bool) : Prop where
  holds : ∀ h i, oracle.holds h i = equals i
  subject : ∀ h, oracle.ending h .subject = .normal

/-- The output of a clause. -/
structure ClauseParts where
  /-- What the value is compared with, if the clause is a case. -/
  value : AiScript.Node := default
  body : List AiScript.Node := []
deriving Inhabited

/-- The output of the parts of a switch. -/
structure SwitchParts where
  temp : String
  subject : AiScript.Node
  clauses : List ClauseParts

/-- The body of a clause. -/
def clauseBody (c : Converter) (clause : Node) : ConvertM (List AiScript.Node) :=
  match clauseStatements clause with
  | [] => return []
  | statements => caseBody c clause statements

/-- The output of a clause is what its parts are converted to. -/
structure ClauseParts.ConvertedFrom (c : Converter) (context : Context) (clause : Node)
    (parts : ClauseParts) : Prop where
  value : ∀ m test statements, clause = .caseClause m test statements →
    Produces context (c.expression test) parts.value
  body : Produces context (clauseBody c clause) parts.body

/-- The parts of a switch are what its parts are converted to. -/
structure SwitchParts.ConvertedFrom (parts : SwitchParts) (c : Converter) (context : Context)
    (subject : Node) (clauses : List Node) : Prop where
  subject : Produces context (c.expression subject) parts.subject
  clauses : List.Forall₂ (ClauseParts.ConvertedFrom c context) clauses parts.clauses

namespace SwitchParts

variable (parts : SwitchParts)

/-- The output of the clause at a place. -/
def clause (i : Nat) : ClauseParts := parts.clauses.getD i default

/-- The comparison with the case at a place. -/
def test (i : Nat) : AiScript.Node :=
  .binary {} "==" (.ident {} parts.temp) (parts.clause i).value

/-- The body of the clause at a place. -/
def body (i : Nat) : List AiScript.Node := (parts.clause i).body

/-- The parts as contents of an outline. -/
def contents : Contents Nat SwitchPart where
  flag := ""
  test := parts.test
  part
    | .subject => [define parts.temp parts.subject false]
    | .body i => parts.body i

/-- Whether the body of a clause comes to something. -/
def isEffective (i : Nat) : Bool := !(parts.body i).isEmpty

/-- The clause to carry out, if its body comes to something. -/
def effective (clause : Option Nat) : List Nat := clause.toList.filter parts.isEffective

/-- The clauses whose bodies were carried out, those left out whose bodies come to nothing. -/
def bodiesRun (h : History Nat SwitchPart) : List Nat :=
  h.flatMap fun
    | .ran (.body i) _ => parts.effective (some i)
    | _ => []

end SwitchParts

/-! ## The chain -/

/-- A branch of the chain: a case with statements, and the cases that share its body. -/
structure Group where
  shares : List Nat
  body : Nat

/-- The cases of a branch. -/
def Group.cases (g : Group) : List Nat := g.shares ++ [g.body]

/-- The branches of the chain; `pending` are cases without statements that stand before the clauses. -/
def groups : List Nat → Nat → List Node → List Group
  | _, _, [] => []
  | pending, i, clause :: rest =>
    if isCase clause then
      if hasStatements clause then ⟨pending, i⟩ :: groups [] (i + 1) rest
      else groups (pending ++ [i]) (i + 1) rest
    else if isDefault clause then groups [] (i + 1) rest
    else groups pending (i + 1) rest

/-- A test or any of the cases. -/
def anyTest : Test Nat → List Nat → Test Nat
  | test, [] => test
  | test, i :: more => anyTest (.or test (.ask i)) more

/-- The test of a branch. -/
def Group.test (g : Group) : Test Nat :=
  match g.cases with
  | [] => .ask g.body
  | first :: more => anyTest (.ask first) more

/-- The body of a clause as a branch. -/
def runs (i : Nat) : Outline Nat SwitchPart := .block [.part (.body i)]

/-- The rest of the chain, which ends with a clause for all other values. -/
def chainOf : List Group → Option Nat → Chain Nat SwitchPart
  | [], none => .done
  | [], some i => .otherwise (runs i)
  | g :: gs, last => .branch g.test (runs g.body) (chainOf gs last)

/-- The chain; without branches the last clause stands alone. -/
def chainPieces : List Group → Option Nat → List (Piece Nat SwitchPart)
  | [], none => []
  | [], some i => [.part (.body i)]
  | g :: gs, last => [.statement (.cond g.test (runs g.body) (chainOf gs last))]

/-- The outline of what a switch becomes. -/
def switchPieces (parts : SwitchParts) (clauses : List Node) : List (Piece Nat SwitchPart) :=
  .part .subject :: chainPieces (groups [] 0 clauses)
    (((defaultFrom 0 clauses).map Prod.fst).filter parts.isEffective)

/-! ## What the chain does -/

section
variable {oracle : SwitchOracle} {equals : Nat → Bool} {parts : SwitchParts} {clauses : List Node}

/-- The first branch with a case that matches has the body that is taken. -/
theorem find?_groups (pending : List Nat) (i : Nat) (clauses : List Node) :
    ((groups pending i clauses).find? fun g => g.cases.any equals).map Group.body =
      (if pending.any equals then sharedBody i clauses else none).or
        (takenMatch equals i clauses) := by
  induction clauses generalizing pending i with
  | nil => cases pending.any equals <;> rfl
  | cons clause rest ih =>
    rw [groups, sharedBody, takenMatch, sharedBody]
    cases hcase : isCase clause with
    | true =>
      rw [not_isDefault_of_isCase hcase]
      cases hs : hasStatements clause with
      | true =>
        have hany : (Group.mk pending i).cases.any equals = (pending.any equals || equals i) := by
          simp [Group.cases]
        simp only [if_true, Bool.false_eq_true, if_false, List.find?_cons, hany, Bool.true_and]
        cases pending.any equals with
        | true => rfl
        | false =>
          cases equals i with
          | true => rfl
          | false => exact ih [] (i + 1)
      | false =>
        have hany : (pending ++ [i]).any equals = (pending.any equals || equals i) := by simp
        simp only [if_true, Bool.false_eq_true, if_false, Bool.true_and, ih, hany]
        cases pending.any equals with
        | true =>
          cases equals i with
          | true => rw [← Option.or_assoc, Option.or_self, Bool.true_or]
          | false => rfl
        | false => cases equals i <;> rfl
    | false =>
      simp only [Bool.false_eq_true, if_false, Bool.false_and, Option.none_or]
      cases hd : isDefault clause with
      | true => 
        simp only [if_true, ite_self, Option.none_or, ih, List.any_nil]
        rfl
      | false =>
        have hs : hasStatements clause = false := by
          refine Bool.eq_false_iff.mpr fun hs => ?_
          rcases isCase_or_isDefault hs with h | h
          · exact absurd (hcase.symm.trans h) Bool.false_ne_true
          · exact absurd (hd.symm.trans h) Bool.false_ne_true
        simp only [Bool.false_eq_true, if_false, hs, ih]

/-- A test whose outcome is known and that carries out nothing. -/
def Settles (oracle : SwitchOracle) (parts : SwitchParts) (t : Test Nat) (holds : Bool) : Prop :=
  ∀ m, (t.evaluate oracle m).1 = holds ∧
    parts.bodiesRun (t.evaluate oracle m).2.history = parts.bodiesRun m.history

theorem SwitchParts.bodiesRun_append (h h' : History Nat SwitchPart) :
    parts.bodiesRun (h ++ h') = parts.bodiesRun h ++ parts.bodiesRun h' :=
  List.flatMap_append

theorem settles_ask (ha : oracle.Answers equals) (i : Nat) :
    Settles oracle parts (.ask i) (equals i) := fun _ =>
  ⟨ha.holds _ _, (parts.bodiesRun_append _ _).trans (List.append_nil _)⟩

theorem Settles.or {first second : Test Nat} {b b' : Bool} (h : Settles oracle parts first b)
    (h' : Settles oracle parts second b') : Settles oracle parts (.or first second) (b || b') := by
  intro m
  obtain ⟨hb, hrun⟩ := h m
  rw [Test.evaluate]
  generalize first.evaluate oracle m = r at hb hrun
  obtain ⟨holds, m'⟩ := r
  cases hb
  cases holds with
  | true => exact ⟨rfl, hrun⟩
  | false =>
    obtain ⟨hb', hrun'⟩ := h' m'
    exact ⟨hb', hrun'.trans hrun⟩

theorem settles_anyTest (ha : oracle.Answers equals) {t : Test Nat} {b : Bool}
    (h : Settles oracle parts t b) (more : List Nat) :
    Settles oracle parts (anyTest t more) (b || more.any equals) := by
  induction more generalizing t b with
  | nil => rwa [List.any_nil, Bool.or_false]
  | cons i more ih =>
    rw [List.any_cons, ← Bool.or_assoc]
    exact ih (h.or (settles_ask ha i))

theorem Group.settles (ha : oracle.Answers equals) (g : Group) :
    Settles oracle parts g.test (g.cases.any equals) := by
  unfold Group.test
  split
  · rename_i h
    exact absurd h (List.append_ne_nil_of_right_ne_nil _ (List.cons_ne_nil _ _))
  · rename_i first more h
    rw [h, List.any_cons]
    exact settles_anyTest ha (settles_ask ha first) more

/-- The body of a clause is carried out. -/
theorem bodiesRun_body (n i : Nat) (m : Moment Nat SwitchPart) :
    parts.bodiesRun (carryOutAll oracle n [.part (.body i)] m).2.history =
      parts.bodiesRun m.history ++ parts.effective (some i) := by
  rw [carryOutAll_singleton]
  exact (parts.bodiesRun_append _ _).trans (congrArg _ (List.append_nil _))

/-- The chain carries out its first branch with a case that matches, or else its last one. -/
theorem bodiesRun_chain (ha : oracle.Answers equals) (n : Nat) (gs : List Group)
    (last : Option Nat) (m : Moment Nat SwitchPart) :
    parts.bodiesRun ((chainOf gs last).carryOut oracle n m).2.history =
      parts.bodiesRun m.history ++
        parts.effective (((gs.find? fun g => g.cases.any equals).map Group.body).or last) := by
  induction gs generalizing m with
  | nil =>
    cases last with
    | none => exact (List.append_nil _).symm
    | some i => exact bodiesRun_body n i m
  | cons g gs ih =>
    have hsettles : Settles oracle parts g.test _ := g.settles ha
    obtain ⟨hb, hrun⟩ := hsettles m
    rw [chainOf, Chain.carryOut, List.find?_cons]
    generalize g.test.evaluate oracle m = r at hb hrun
    obtain ⟨holds, m'⟩ := r
    cases hb
    cases g.cases.any equals with
    | true => exact (bodiesRun_body n g.body m').trans (congrArg (· ++ _) hrun)
    | false => exact (ih m').trans (congrArg (· ++ _) hrun)

theorem bodiesRun_chainPieces (ha : oracle.Answers equals) (n : Nat) (gs : List Group)
    (last : Option Nat) (m : Moment Nat SwitchPart) :
    parts.bodiesRun (carryOutAll oracle n (chainPieces gs last) m).2.history =
      parts.bodiesRun m.history ++
        parts.effective (((gs.find? fun g => g.cases.any equals).map Group.body).or last) := by
  cases gs with
  | nil =>
    cases last with
    | none => exact (List.append_nil _).symm
    | some i => exact bodiesRun_body n i m
  | cons g gs =>
    rw [chainPieces, carryOutAll_singleton]
    exact bodiesRun_chain ha n (g :: gs) last m

theorem SwitchParts.effective_or_filter (first last : Option Nat) :
    parts.effective (first.or (last.filter parts.isEffective)) = parts.effective (first.or last) := by
  cases first with
  | some i => rfl
  | none =>
    cases last with
    | none => rfl
    | some i =>
      rw [Option.none_or, Option.none_or, Option.filter_some]
      split
      · rfl
      · exact (List.filter_cons_of_neg ‹_›).symm

/-- The outline of a switch carries out the clause that the chain takes. -/
theorem bodiesRun_switchPieces (ha : oracle.Answers equals) (n : Nat) :
    parts.bodiesRun (runPieces oracle (switchPieces parts clauses) n).2 =
      parts.effective ((takenMatch equals 0 clauses).or ((defaultFrom 0 clauses).map Prod.fst)) := by
  have hsubject : carryOutAll oracle n (switchPieces parts clauses) {} =
      carryOutAll oracle n (chainPieces (groups [] 0 clauses)
        (((defaultFrom 0 clauses).map Prod.fst).filter parts.isEffective))
        ⟨[.ran .subject .normal], false⟩ := by
    rw [switchPieces, carryOutAll, Piece.carryOut]
    simp only [ha.subject, onward]
    rfl
  rw [runPieces, hsubject, bodiesRun_chainPieces ha, find?_groups]
  exact parts.effective_or_filter _ _

/-! ## What switches become -/

variable {c : Converter} {context : Context} {s s' : Progress}

/-- What a clause adds to the cases so far. -/
def Cases.add (temp : String) (cases : Cases) (clause : Node) (parts : ClauseParts) : Cases :=
  if isCase clause then
    let pending := cases.pending ++ [.binary {} "==" (.ident {} temp) parts.value]
    match hasStatements clause, pending with
    | false, pending => { cases with pending }
    | true, [] => cases
    | true, first :: more =>
      { cases with
        branches := cases.branches ++ [(anyOf first more, .block {} parts.body)], pending := [] }
  else if isDefault clause then { cases with default := parts.body, pending := [] }
  else cases

/-- The cases after further clauses. -/
def Cases.addAll (temp : String) : Cases → List Node → List ClauseParts → Cases
  | cases, clause :: clauses, p :: ps => addAll temp (cases.add temp clause p) clauses ps
  | cases, _, _ => cases

theorem addCase_ok {temp : String} {cases cases' : Cases} {m : Mark} {test : Node}
    {statements : List Node}
    (h : addCase c temp cases (.caseClause m test statements) test statements context s =
      .ok cases' s') :
    ∃ p : ClauseParts, p.ConvertedFrom c context (.caseClause m test statements) ∧
      cases' = cases.add temp (.caseClause m test statements) p := by
  obtain ⟨value, s₁, hvalue, h⟩ := bind_ok h
  have produced : ∀ m' test' statements', Node.caseClause m test statements =
      .caseClause m' test' statements' → Produces context (c.expression test') value := by
    rintro _ _ _ ⟨⟩
    exact ⟨s, s₁, hvalue⟩
  obtain ⟨first, more, hpending⟩ : ∃ first more,
      cases.pending ++ [.binary {} "==" (.ident {} temp) value] = first :: more :=
    List.exists_cons_of_ne_nil (List.append_ne_nil_of_right_ne_nil _ (List.cons_ne_nil _ _))
  dsimp only at h
  rw [hpending] at h
  cases statements with
  | nil =>
    cases h
    refine ⟨⟨value, []⟩, ⟨produced, s, s, rfl⟩, ?_⟩
    simp only [Cases.add, isCase, if_true, hasStatements, clauseStatements, List.isEmpty_nil,
      Bool.not_true, hpending]
  | cons st sts =>
    obtain ⟨body, s₂, hbody, h⟩ := bind_ok h
    cases h
    refine ⟨⟨value, body⟩, ⟨produced, s₁, s', hbody⟩, ?_⟩
    simp only [Cases.add, isCase, if_true, hasStatements, clauseStatements, List.isEmpty_cons,
      Bool.not_false, hpending]

theorem addDefault_ok {temp : String} {cases cases' : Cases} {m : Mark} {statements rest : List Node}
    (h : addDefault c cases (.defaultClause m statements) statements rest.isEmpty context s =
      .ok cases' s') :
    (statements = [] → rest = []) ∧
      ∃ p : ClauseParts, p.ConvertedFrom c context (.defaultClause m statements) ∧
        cases' = cases.add temp (.defaultClause m statements) p := by
  unfold addDefault at h
  split at h
  · by_cases hlast : rest = []
    · subst hlast
      cases h
      exact ⟨fun _ => rfl, ⟨default, []⟩, ⟨fun _ _ _ he => (by cases he), s, s, rfl⟩, rfl⟩
    · rw [if_pos (by simpa using hlast)] at h
      obtain ⟨_, _, h, -⟩ := bind_ok h
      cases h
  · rename_i hnil
    obtain ⟨body, s₂, hbody, h⟩ := bind_ok h
    cases h
    cases statements with
    | nil => exact absurd rfl hnil
    | cons st sts =>
      exact ⟨fun he => absurd he (List.cons_ne_nil st sts), ⟨default, body⟩,
        ⟨fun _ _ _ he => (by cases he), s, s', hbody⟩, rfl⟩

theorem no_clause {clause : Node} (hcase : ∀ m test statements, clause ≠ .caseClause m test statements)
    (hdefault : ∀ m statements, clause ≠ .defaultClause m statements) :
    isCase clause = false ∧ isDefault clause = false ∧ clauseStatements clause = [] := by
  unfold isCase isDefault clauseStatements
  refine ⟨?_, ?_, ?_⟩
  · split
    · exact absurd rfl (hcase _ _ _)
    · rfl
  · split
    · exact absurd rfl (hdefault _ _)
    · rfl
  · split
    · exact absurd rfl (hcase _ _ _)
    · exact absurd rfl (hdefault _ _)
    · rfl

/-- The cases of a switch. -/
theorem convertCases_ok {temp : String} {cases cases' : Cases} {clauses : List Node}
    (h : convertCases c temp cases clauses context s = .ok cases' s') :
    DefaultsClose clauses ∧
      ∃ ps, List.Forall₂ (ClauseParts.ConvertedFrom c context) clauses ps ∧
        cases' = cases.addAll temp clauses ps := by
  induction clauses generalizing cases s with
  | nil =>
    cases h
    exact ⟨trivial, [], .nil, rfl⟩
  | cons clause rest ih =>
    have step {cases₁ : Cases} {s₁ : Progress}
        (hlast : isDefault clause = true → hasStatements clause = false → rest = [])
        (hclause : ∃ p : ClauseParts, p.ConvertedFrom c context clause ∧
          cases₁ = cases.add temp clause p)
        (h : convertCases c temp cases₁ rest context s₁ = .ok cases' s') :
        DefaultsClose (clause :: rest) ∧
          ∃ ps, List.Forall₂ (ClauseParts.ConvertedFrom c context) (clause :: rest) ps ∧
            cases' = cases.addAll temp (clause :: rest) ps := by
      obtain ⟨p, hp, rfl⟩ := hclause
      obtain ⟨hclose, ps, hps, rfl⟩ := ih h
      exact ⟨⟨hlast, hclose⟩, p :: ps, .cons hp hps, rfl⟩
    unfold convertCases at h
    split at h
    · obtain ⟨cases₁, s₁, hclause, h⟩ := bind_ok h
      exact step (fun hd => absurd hd Bool.false_ne_true) (addCase_ok hclause) h
    · obtain ⟨cases₁, s₁, hclause, h⟩ := bind_ok h
      obtain ⟨hlast, hadd⟩ := addDefault_ok hclause
      exact step (fun _ hs => hlast (by simpa [hasStatements, clauseStatements] using hs)) hadd h
    · rename_i hcase hdefault
      obtain ⟨hc, hd, hs⟩ := no_clause hcase hdefault
      refine step (fun h => absurd (hd.symm.trans h) Bool.false_ne_true)
        ⟨default, ⟨?_, s, s, ?_⟩, ?_⟩ h
      · exact fun m test statements he => (hcase m test statements he).elim
      · rw [clauseBody, hs]
        rfl
      · rw [Cases.add, hc, hd]
        rfl

/-! ### The output of the outline -/

theorem node_anyTest (contents : Contents Nat SwitchPart) (t : Test Nat) (more : List Nat) :
    (anyTest t more).node contents = anyOf (t.node contents) (more.map contents.test) := by
  induction more generalizing t with
  | nil => rfl
  | cons i more ih => exact ih _

/-- A branch of the conditional. -/
def SwitchParts.branch (parts : SwitchParts) (g : Group) : AiScript.Node × AiScript.Node :=
  (g.test.node parts.contents, .block {} (parts.body g.body))

theorem SwitchParts.branch_eq {g : Group} {first : AiScript.Node} {more : List AiScript.Node}
    (h : g.cases.map parts.test = first :: more) :
    parts.branch g = (anyOf first more, .block {} (parts.body g.body)) := by
  rw [branch, Group.test]
  split
  · rename_i hnil
    rw [hnil] at h
    cases h
  · rename_i i more' hcases
    rw [hcases] at h
    cases h
    rw [node_anyTest]
    rfl

/-- The branches and the last clause that further clauses add to the cases so far. -/
theorem addAll_eq {cases : Cases} {pending : List Nat} {i : Nat} {ps : List ClauseParts}
    (hpending : cases.pending = pending.map parts.test) (hps : parts.clauses.drop i = ps)
    (hlength : clauses.length = ps.length) :
    let after := cases.addAll parts.temp clauses ps
    after.branches = cases.branches ++ (groups pending i clauses).map parts.branch ∧
      after.default = ((defaultFrom i clauses).map fun d => parts.body d.1).getD cases.default := by
  induction clauses generalizing cases pending i ps with
  | nil =>
    obtain rfl := List.length_eq_zero_iff.mp hlength.symm
    exact ⟨(List.append_nil _).symm, rfl⟩
  | cons clause rest ih =>
    obtain ⟨p, ps, rfl⟩ := List.exists_cons_of_length_eq_add_one hlength.symm
    have hclause : parts.clause i = p := by
      rw [SwitchParts.clause, List.getD_eq_getElem?_getD, ← List.head?_drop, hps]
      rfl
    have hdrop : parts.clauses.drop (i + 1) = ps := by rw [← List.tail_drop, hps, List.tail_cons]
    have hlength : rest.length = ps.length := Nat.succ.inj hlength
    have htest : AiScript.Node.binary {} "==" (.ident {} parts.temp) p.value = parts.test i := by
      rw [SwitchParts.test, hclause]
    have hbody : p.body = parts.body i := by rw [SwitchParts.body, hclause]
    have hmore : cases.pending ++ [parts.test i] = (pending ++ [i]).map parts.test := by
      rw [List.map_append, hpending]
      rfl
    dsimp only [Cases.addAll]
    rw [groups, defaultFrom, Cases.add, htest, hbody]
    cases hcase : isCase clause with
    | true =>
      rw [not_isDefault_of_isCase hcase]
      simp only [if_true, Bool.false_eq_true, if_false, Option.or_none]
      cases hs : hasStatements clause with
      | false => exact ih hmore hdrop hlength
      | true =>
        obtain ⟨first, more, hcons⟩ : ∃ first more,
            cases.pending ++ [parts.test i] = first :: more :=
          List.exists_cons_of_ne_nil (List.append_ne_nil_of_right_ne_nil _ (List.cons_ne_nil _ _))
        have hbranch := parts.branch_eq (g := ⟨pending, i⟩) (hmore.symm.trans hcons)
        rw [hcons]
        have hnone : Cases.pending { cases with
            branches := cases.branches ++ [(anyOf first more, .block {} (parts.body i))]
            pending := [] } = List.map parts.test [] := rfl
        obtain ⟨hbranches, hdefault⟩ := ih hnone hdrop hlength
        refine ⟨hbranches.trans ?_, hdefault⟩
        rw [if_pos rfl, List.map_cons, hbranch, List.append_assoc]
        rfl
    | false =>
      simp only [Bool.false_eq_true, if_false]
      cases hd : isDefault clause with
      | true =>
        have hnone : Cases.pending { cases with default := parts.body i, pending := [] } =
            List.map parts.test [] := rfl
        obtain ⟨hbranches, hdefault⟩ := ih hnone hdrop hlength
        refine ⟨hbranches, hdefault.trans ?_⟩
        cases defaultFrom (i + 1) rest <;> rfl
      | false =>
        simp only [Bool.false_eq_true, if_false, Option.or_none]
        exact ih hpending hdrop hlength

theorem node_runs (i : Nat) : (runs i).node parts.contents = .block {} (parts.body i) :=
  congrArg (AiScript.Node.block {}) (List.append_nil _)

theorem branches_chainOf (gs : List Group) (last : Option Nat) :
    (chainOf gs last).branches parts.contents =
      (gs.map parts.branch).map fun (test, body) => AiScript.Branch.mk {} test body := by
  induction gs with
  | nil => cases last <;> rfl
  | cons g gs ih =>
    rw [chainOf, Chain.branches, ih, node_runs]
    rfl

theorem last_chainOf (gs : List Group) (last : Option Nat) :
    (chainOf gs last).last parts.contents =
      last.map fun i => AiScript.Node.block {} (parts.body i) := by
  induction gs with
  | nil =>
    cases last with
    | none => rfl
    | some i => exact congrArg some (node_runs i)
  | cons g gs ih => exact ih

/-- The chain is the conditional that the cases become. -/
theorem nodesOf_chainPieces {cases : Cases} {gs : List Group} {last : Option Nat}
    (hbranches : cases.branches = gs.map parts.branch)
    (hdefault : cases.default = (last.map parts.body).getD []) :
    nodesOf parts.contents (chainPieces gs (last.filter parts.isEffective)) = cases.statements := by
  rw [Cases.statements, hbranches]
  cases gs with
  | nil =>
    rw [List.map_nil, hdefault]
    cases last with
    | none => rfl
    | some i =>
      rw [Option.filter_some]
      split
      · exact List.append_nil _
      · rename_i h
        exact (List.isEmpty_iff.mp (by simpa [SwitchParts.isEffective] using h)).symm
  | cons g gs =>
    rw [chainPieces, nodesOf, Piece.nodes, Outline.node, node_runs, branches_chainOf, last_chainOf,
      hdefault]
    cases last with
    | none => rfl
    | some i =>
      rw [Option.filter_some, SwitchParts.isEffective]
      cases hb : (parts.body i).isEmpty with
      | true =>
        rw [Option.map_some, Option.getD_some, hb]
        rfl
      | false =>
        rw [Option.map_some, Option.getD_some, hb]
        rfl

theorem convertSwitch_ok {subject : Node} {out : List AiScript.Node}
    (h : convertSwitch c subject clauses context s = .ok out s') :
    DefaultsClose clauses ∧ ∃ parts : SwitchParts, parts.ConvertedFrom c context subject clauses ∧
      out = nodesOf parts.contents (switchPieces parts clauses) := by
  obtain ⟨value, s₁, hvalue, h⟩ := bind_ok h
  obtain ⟨temp, s₂, -, h⟩ := bind_ok h
  obtain ⟨cases, s₃, hcases, h⟩ := bind_ok h
  cases h
  obtain ⟨hclose, ps, hps, rfl⟩ := convertCases_ok hcases
  let parts : SwitchParts := ⟨temp, value, ps⟩
  have hnone : Cases.pending {} = List.map parts.test [] := rfl
  have hall : parts.clauses.drop 0 = ps := rfl
  obtain ⟨hbranches, hdefault⟩ := addAll_eq hnone hall hps.length_eq
  refine ⟨hclose, parts, ⟨⟨s, s₁, hvalue⟩, hps⟩, ?_⟩
  have hlast : (Cases.addAll temp {} clauses ps).default =
      (((defaultFrom 0 clauses).map Prod.fst).map parts.body).getD [] := by
    rw [Option.map_map]
    exact hdefault
  have hchain := nodesOf_chainPieces hbranches hlast
  rw [switchPieces, nodesOf, hchain]
  rfl

/-- The clause for all other values is the one whose body is carried out then. -/
theorem effective_default {subject : Node} (hclose : DefaultsClose clauses)
    (hparts : parts.ConvertedFrom c context subject clauses) (first : Option Nat) :
    parts.effective (first.or ((defaultFrom 0 clauses).map Prod.fst)) =
      parts.effective (first.or ((defaultFrom 0 clauses).bind bodyOf)) := by
  cases hd : defaultFrom 0 clauses with
  | none => rfl
  | some d =>
    obtain ⟨j, rest⟩ := d
    obtain ⟨target, after, rfl, hdefault, -, hdrop⟩ := defaultFrom_eq_some hd
    rw [Option.map_some, Option.bind_some, bodyOf, bodyFrom]
    cases hs : hasStatements target with
    | true => rfl
    | false =>
      rw [Nat.sub_zero] at hdrop
      have hrest : DefaultsClose (target :: after) :=
        hclose.of_suffix (hdrop ▸ List.drop_suffix j clauses)
      have hlast := hrest.1 hdefault hs
      have hbody : parts.body j = [] := by
        have hdrop' := List.forall₂_drop j hparts.clauses
        rw [hdrop] at hdrop'
        obtain ⟨p, ps, hp, -, hps⟩ := List.forall₂_cons_left_iff.mp hdrop'
        have hempty : clauseStatements target = [] := by simpa [hasStatements] using hs
        obtain ⟨_, _, hrun⟩ := hp.body
        rw [clauseBody, hempty] at hrun
        rw [SwitchParts.body, SwitchParts.clause, List.getD_eq_getElem?_getD, ← List.head?_drop, hps]
        injection hrun with hrun
        exact hrun.symm
      rw [hlast, ← parts.effective_or_filter first (some j), Option.filter_some,
        SwitchParts.isEffective, hbody]
      rfl

/-- What a switch becomes carries out `takenClause`, which is the clause that the switch selects just if
that is expressible. -/
theorem switch_selects {m : Mark} {subject : Node} {out : Option (List AiScript.Node)}
    (h : control.statement c (.switchStatement m subject clauses) context s = .ok out s') :
    ∃ parts : SwitchParts, parts.ConvertedFrom c context subject clauses ∧
      out = some (nodesOf parts.contents (switchPieces parts clauses)) ∧
      ∀ (oracle : SwitchOracle) (equals : Nat → Bool), oracle.Answers equals → ∀ n,
        parts.bodiesRun (runPieces oracle (switchPieces parts clauses) n).2 =
          parts.effective (takenClause equals clauses) ∧
        (takenClause equals clauses = selectedClause equals clauses ↔
          Expressible equals clauses) := by
  obtain ⟨nodes, s₁, hn, h⟩ := bind_ok h
  cases h
  obtain ⟨hclose, parts, hparts, rfl⟩ := convertSwitch_ok hn
  refine ⟨parts, hparts, rfl, fun oracle equals ha n => ⟨?_, takenClause_eq_iff hclose⟩⟩
  rw [bodiesRun_switchPieces ha, effective_default hclose hparts]
  rfl

end

/-- A switch with cases that share a body, and a case behind the clause for all other values. -/
def sharingSwitch : String :=
  "switch (x) \x7b case 1: case 2: f(); break; default: g(); break; case 3: \x7d"

/-- The first case matches. -/
def firstMatches : SwitchOracle where
  holds _ i := i == 0
  ending _ _ := .normal

/-- Whether statements are one switch that is converted and whose first case selects the second body. -/
def isSharingSwitch (statements : List Node) : Bool :=
  match statements with
  | [.switchStatement m subject clauses] =>
    selectedClause (· == 0) clauses == some 1 && takenClause (· == 0) clauses == some 1 &&
      endsWith (control.statement (converter defaultCapabilities 20)
        (.switchStatement m subject clauses) aloneContext default) fun _ _ => true
  | _ => false

theorem switch_selects_sharing :
    ∃ file nextId m subject clauses parts out after,
      parseFrom 0 "main.ts" sharingSwitch = .ok (file, nextId) ∧
      file.statements = [.switchStatement m subject clauses] ∧
      control.statement (converter defaultCapabilities 20) (.switchStatement m subject clauses)
        aloneContext default = .ok out after ∧
      out = some (nodesOf parts.contents (switchPieces parts clauses)) ∧
      Expressible (· == 0) clauses ∧
      parts.bodiesRun (runPieces firstMatches (switchPieces parts clauses) 0).2 =
        parts.effective (some 1) := by
  have hc : succeedsWith (parseFrom 0 "main.ts" sharingSwitch)
      (fun r => isSharingSwitch r.1.statements) = true := by
    decide +kernel
  obtain ⟨⟨file, nextId⟩, hp, hshares⟩ := succeedsWith_iff.mp hc
  dsimp only at hshares
  unfold isSharingSwitch at hshares
  split at hshares
  · rename_i m subject clauses hn
    simp only [Bool.and_eq_true, beq_iff_eq] at hshares
    obtain ⟨⟨hselected, htaken⟩, hend⟩ := hshares
    obtain ⟨out, after, hout, -⟩ := endsWith_iff.mp hend
    obtain ⟨parts, -, hnodes, hruns⟩ := switch_selects hout
    obtain ⟨hbody, hiff⟩ := hruns firstMatches (· == 0) ⟨fun _ _ => rfl, fun _ => rfl⟩ 0
    exact ⟨file, nextId, m, subject, clauses, parts, out, after, hp, hn, hout, hnodes,
      hiff.mp (htaken.trans hselected.symm), htaken ▸ hbody⟩
  · exact absurd hshares nofun

end ScriptBridge.Conversion
