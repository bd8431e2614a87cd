import ScriptBridge.Proofs.Conversion.SwitchTrace

/-!
# What the body of a case becomes

The body of a case is read with the blocks at its very end opened. It has to end in a `break` or a
`return`; what is before that is converted, and what is behind it is left out. No body may leave the
switch in its middle. So no case runs on into the next one, and where a body has no end the switch is
refused.

* `Opened`: a list of statements after its last statement, as long as that is a block, is opened.
* `CaseBody`: what the statements of a clause are converted to.
* `caseBody_ok`: the body of a clause that is converted.
* `switch_caseBodies`: all bodies of a switch, and where they are in the output.
-/

namespace ScriptBridge.Conversion

open TypeScript

/-! ## Blocks at the end -/

/-- A list whose last statement is replaced, as long as it is a block, by the statements of the block. -/
inductive Opened : List Node → List Node → Prop
  | block {before opened : List Node} {m : Mark} {statements : List Node}
      (h : Opened (before ++ statements) opened) : Opened (before ++ [.block m statements]) opened
  | done {statements : List Node}
      (h : ∀ before m inner, statements ≠ before ++ [.block m inner]) : Opened statements statements

theorem openTail_append (before rest : List Node) :
    openTail (before ++ rest) =
      if openTail rest = [] then openTail before else before ++ openTail rest := by
  by_cases hrest : openTail rest = []
  · rw [if_pos hrest]
    induction before with
    | nil => exact hrest
    | cons n before ih => rw [List.cons_append, openTail, ih, openTail]
  · rw [if_neg hrest]
    induction before with
    | nil => rfl
    | cons n before ih =>
      obtain ⟨first, more, hopened⟩ : ∃ first more, before ++ openTail rest = first :: more :=
        List.exists_cons_of_ne_nil (List.append_ne_nil_of_right_ne_nil _ hrest)
      rw [List.cons_append, openTail, ih, List.cons_append, hopened]

/-- There is but one list without a block at its end. -/
theorem Opened.eq_openTail {statements opened : List Node} (h : Opened statements opened) :
    opened = openTail statements := by
  induction h with
  | @block before opened m statements h ih =>
    have hblock : openTail [.block m statements] = openTail statements := rfl
    rw [ih, openTail_append, openTail_append, hblock]
  | @done statements h =>
    rcases List.eq_nil_or_concat statements with rfl | ⟨before, n, rfl⟩
    · rfl
    · have hn : openTail [n] = [n] := by
        cases n with
        | block m inner => exact absurd (List.concat_eq_append ..) (h before m inner)
        | _ => rfl
      rw [List.concat_eq_append, openTail_append, hn, if_neg (List.cons_ne_nil _ _)]

mutual
/-- Opening a statement at the end of others. -/
theorem opened_openLast (before : List Node) (n : Node) :
    (openLast n ≠ [] → Opened (before ++ [n]) (before ++ openLast n)) ∧
      (openLast n = [] → ∀ opened, Opened before opened → Opened (before ++ [n]) opened) := by
  cases n with
  | block m statements =>
    obtain ⟨hsome, hnone⟩ := opened_append_openTail before statements
    exact ⟨fun h => .block (hsome h), fun h opened hb => .block (hnone h opened hb)⟩
  | _ =>
    refine ⟨fun _ => .done fun other m inner h => ?_, fun h => absurd h (List.cons_ne_nil _ _)⟩
    cases (List.append_inj' h rfl).2
termination_by sizeOf n

/-- Opening statements at the end of others. -/
theorem opened_append_openTail (before statements : List Node) :
    (openTail statements ≠ [] → Opened (before ++ statements) (before ++ openTail statements)) ∧
      (openTail statements = [] → ∀ opened, Opened before opened →
        Opened (before ++ statements) opened) := by
  cases statements with
  | nil =>
    refine ⟨fun h => absurd rfl h, fun _ opened hb => ?_⟩
    rwa [List.append_nil]
  | cons n rest =>
    obtain ⟨hfirst, hnofirst⟩ := opened_openLast before n
    obtain ⟨hrest, hnorest⟩ := opened_append_openTail (before ++ [n]) rest
    rw [List.append_assoc] at hrest hnorest
    rw [openTail]
    split
    · rename_i hnil
      exact ⟨fun h => hnorest hnil _ (hfirst h), fun h opened hb => hnorest hnil _ (hnofirst h _ hb)⟩
    · rename_i hne
      refine ⟨fun _ => ?_, fun h => absurd h (List.cons_ne_nil _ _)⟩
      have hopened := hrest hne
      rwa [List.append_assoc] at hopened
termination_by sizeOf statements
end

theorem opened_openTail (statements : List Node) : Opened statements (openTail statements) := by
  obtain ⟨hsome, hnone⟩ := opened_append_openTail [] statements
  by_cases h : openTail statements = []
  · rw [h]
    exact hnone h [] (.done fun before m inner he => by simp at he)
  · exact hsome h

/-! ## One body -/

/-- Whether a node is a `return`. -/
def isReturn : Node → Bool
  | .returnStatement .. => true
  | _ => false

/-- Whether a statement ends the body of a case. -/
def endsCase (n : Node) : Bool :=
  isBreak n || isReturn n

/-- What the end of a body is converted to: a `break` to nothing, a `return` to itself. -/
def convertEnd (c : Converter) (stop : Node) : ConvertM (List AiScript.Node) :=
  if isBreak stop then return [] else c.statement stop

/-- The body of a case is made of what the statements before its end are converted to, none of which
leaves the switch, and of its end. -/
inductive CaseBody (c : Converter) (context : Context) (statements : List Node) :
    List AiScript.Node → Prop
  | intro {before after : List Node} {stop : Node} {main last : List AiScript.Node}
      {s s₁ s' : Progress} (opened : Opened statements (before ++ stop :: after))
      (inside : ∀ n ∈ before, endsCase n = false ∧ hasBreak n = false)
      (ends : endsCase stop = true) (main_ok : c.statements before context s = .ok main s₁)
      (last_ok : convertEnd c stop context s₁ = .ok last s') :
      CaseBody c context statements (main ++ last)

section
variable {c : Converter} {context : Context} {s s' : Progress}

theorem caseStatements_ok {clause : Node} {ns : List Node} {body : List AiScript.Node}
    (h : caseStatements c clause ns context s = .ok body s') :
    ∃ before stop after main last s₁, ns = before ++ stop :: after ∧
      (∀ n ∈ before, endsCase n = false ∧ hasBreak n = false) ∧ endsCase stop = true ∧
      c.statements before context s = .ok main s₁ ∧ convertEnd c stop context s₁ = .ok last s' ∧
      body = main ++ last := by
  induction ns generalizing s body with
  | nil => cases h
  | cons n rest ih =>
    unfold caseStatements at h
    split at h
    · cases h
      exact ⟨[], _, rest, [], [], _, rfl, List.forall_mem_nil _, rfl, rfl, rfl, rfl⟩
    · cases h
    · exact ⟨[], _, rest, [], body, _, rfl, List.forall_mem_nil _, rfl, rfl, h, rfl⟩
    · rename_i hbreak hlabel hreturn
      by_cases hb : hasBreak n = true
      · rw [if_pos hb] at h
        obtain ⟨_, _, hrefuse, -⟩ := bind_ok h
        cases hrefuse
      rw [if_neg hb] at h
      obtain ⟨first, s₁, hfirst, h⟩ := bind_ok h
      obtain ⟨more, s₂, hmore, h⟩ := bind_ok h
      cases h
      obtain ⟨before, stop, after, main, last, s₃, rfl, hinside, hends, hmain, hlast, rfl⟩ := ih hmore
      have hn : endsCase n = false := by
        rw [endsCase, isBreak.eq_2 n hbreak, isReturn.eq_2 n hreturn]
        rfl
      refine ⟨n :: before, stop, after, first ++ main, last, s₃, rfl, ?_, hends, ?_, hlast,
        (List.append_assoc ..).symm⟩
      · exact List.forall_mem_cons.mpr ⟨⟨hn, Bool.eq_false_iff.mpr hb⟩, hinside⟩
      · rw [Converter.statements, bind_of_ok hfirst, bind_of_ok hmain]
        rfl

/-- A body that is converted has an end. -/
theorem caseBody_ok {clause : Node} {statements : List Node} {body : List AiScript.Node}
    (h : caseBody c clause statements context s = .ok body s') :
    CaseBody c context statements body := by
  obtain ⟨before, stop, after, main, last, s₁, hopened, hinside, hends, hmain, hlast, rfl⟩ :=
    caseStatements_ok h
  exact .intro (hopened ▸ opened_openTail statements) hinside hends hmain hlast

/-- Where no statement of an opened body ends it there is no body. -/
theorem not_caseBody {statements opened : List Node} (ho : Opened statements opened)
    (hn : ∀ n ∈ opened, endsCase n = false) {body : List AiScript.Node} :
    ¬ CaseBody c context statements body := by
  rintro ⟨hopened, -, hends, -, -⟩
  rw [ho.eq_openTail, ← hopened.eq_openTail] at hn
  have hstop := hn _ (List.mem_append_right _ List.mem_cons_self)
  rw [hends] at hstop
  cases hstop

/-! ## All bodies -/

/-- The bodies of the cases with statements, as the branches of a conditional have them. -/
def caseBlocks (clauses : List Node) (bodies : List (List AiScript.Node)) : List AiScript.Node :=
  ((clauses.zip bodies).filter fun e => isCase e.1 && hasStatements e.1).map fun e => .block {} e.2

/-- The body of the last clause for all other values, or `none` if there is no such clause. -/
def defaultBody? (clauses : List Node) (bodies : List (List AiScript.Node)) :
    Option (List AiScript.Node) :=
  ((clauses.zip bodies).filter fun e => isDefault e.1).getLast?.map Prod.snd

theorem add_bodies (temp : String) (cases : Cases) (clause : Node) (p : ClauseParts) :
    (cases.add temp clause p).branches.map Prod.snd =
        cases.branches.map Prod.snd ++
          (if isCase clause && hasStatements clause then [.block {} p.body] else []) ∧
      (cases.add temp clause p).default =
        if isDefault clause then p.body else cases.default := by
  unfold Cases.add
  cases hcase : isCase clause with
  | false =>
    cases hdefault : isDefault clause <;> exact ⟨(List.append_nil _).symm, rfl⟩
  | true =>
    rw [not_isDefault_of_isCase hcase]
    obtain ⟨first, more, hpending⟩ : ∃ first more,
        cases.pending ++ [.binary {} "==" (.ident {} temp) p.value] = first :: more :=
      List.exists_cons_of_ne_nil (List.append_ne_nil_of_right_ne_nil _ (List.cons_ne_nil _ _))
    cases hasStatements clause with
    | false => exact ⟨(List.append_nil _).symm, rfl⟩
    | true =>
      simp only [if_true, hpending, List.map_append]
      exact ⟨rfl, rfl⟩

theorem addAll_bodies (temp : String) (cases : Cases) {clauses : List Node} {ps : List ClauseParts}
    (hlen : clauses.length = ps.length) :
    (cases.addAll temp clauses ps).branches.map Prod.snd =
        cases.branches.map Prod.snd ++ caseBlocks clauses (ps.map ClauseParts.body) ∧
      (cases.addAll temp clauses ps).default =
        (defaultBody? clauses (ps.map ClauseParts.body)).getD cases.default := by
  induction clauses generalizing cases ps with
  | nil => exact ⟨(List.append_nil _).symm, rfl⟩
  | cons clause clauses ih =>
    cases ps with
    | nil => cases hlen
    | cons p ps =>
      obtain ⟨hbranches, hdefault⟩ := ih (cases.add temp clause p) (Nat.succ.inj hlen)
      obtain ⟨hadd, hlast⟩ := add_bodies temp cases clause p
      rw [Cases.addAll, hbranches, hdefault, hadd, hlast, List.append_assoc]
      constructor
      · congr 1
        rw [caseBlocks, caseBlocks, List.map_cons, List.zip_cons_cons, List.filter_cons]
        split
        · rfl
        · rfl
      · rw [defaultBody?, defaultBody?, List.map_cons, List.zip_cons_cons, List.filter_cons]
        split
        · rw [List.getLast?_cons]
          cases ((clauses.zip (ps.map ClauseParts.body)).filter fun e => isDefault e.1).getLast? <;> rfl
        · rfl

/-- What a switch becomes: the definition of the compared name and a chain of conditionals with the
bodies of the cases and the body of the last clause for all other values. -/
def BodiesEmitted (c : Converter) (context : Context) (clauses : List Node)
    (out : List AiScript.Node) : Prop :=
  ∃ temp value cases bodies, out = define temp value false :: Cases.statements cases ∧
    List.Forall₂ (fun clause body => hasStatements clause = true →
      CaseBody c context (clauseStatements clause) body) clauses bodies ∧
    cases.branches.map Prod.snd = caseBlocks clauses bodies ∧
    cases.default = (defaultBody? clauses bodies).getD []

theorem convertSwitch_bodies {subject : Node} {clauses : List Node} {out : List AiScript.Node}
    (h : convertSwitch c subject clauses context s = .ok out s') :
    BodiesEmitted c context clauses out := by
  obtain ⟨value, s₁, -, h⟩ := bind_ok h
  obtain ⟨temp, s₂, -, h⟩ := bind_ok h
  obtain ⟨cases, s₃, hcases, h⟩ := bind_ok h
  cases h
  obtain ⟨-, ps, hps, rfl⟩ := convertCases_ok hcases
  obtain ⟨hbranches, hdefault⟩ := addAll_bodies temp {} hps.length_eq
  refine ⟨temp, value, _, ps.map ClauseParts.body, rfl, ?_, hbranches, hdefault⟩
  refine List.forall₂_map_right_iff.mpr (hps.imp fun clause p hp hstatements => ?_)
  obtain ⟨_, _, hbody⟩ := hp.body
  cases hclause : clauseStatements clause with
  | nil =>
    rw [hasStatements, hclause] at hstatements
    cases hstatements
  | cons n rest =>
    rw [clauseBody, hclause] at hbody
    exact caseBody_ok hbody

/-- If a switch is converted, then each of its clauses with statements has an end, is converted up to
that end, and does not leave the switch before it. The output has these bodies in order, that of the
last clause for all other values at its end; an earlier clause for all other values is not part of it.
If the statements of some clause have no end, then the switch is refused, whatever its other clauses
are. -/
theorem switch_caseBodies (c : Converter) (context : Context) (m : Mark) (subject : Node)
    (clauses : List Node) :
    (∀ s out s', control.statement c (.switchStatement m subject clauses) context s = .ok out s' →
      ∃ nodes, out = some nodes ∧ BodiesEmitted c context clauses nodes) ∧
    ∀ clause ∈ clauses, hasStatements clause = true →
      ∀ opened, Opened (clauseStatements clause) opened → (∀ n ∈ opened, endsCase n = false) →
        ∀ s, ∃ fault s',
          control.statement c (.switchStatement m subject clauses) context s = .error fault s' := by
  have hbodies : ∀ s out s',
      control.statement c (.switchStatement m subject clauses) context s = .ok out s' →
        ∃ nodes, out = some nodes ∧ BodiesEmitted c context clauses nodes := by
    intro s out s' h
    obtain ⟨nodes, s₁, hnodes, h⟩ := bind_ok h
    cases h
    exact ⟨nodes, rfl, convertSwitch_bodies hnodes⟩
  refine ⟨hbodies, fun clause hmem hstatements opened hopened hends s => ?_⟩
  cases hrun : control.statement c (.switchStatement m subject clauses) context s with
  | error fault s' => exact ⟨fault, s', rfl⟩
  | ok out s' =>
    obtain ⟨nodes, rfl, -, -, -, bodies, -, hall, -⟩ := hbodies s out s' hrun
    obtain ⟨body, hbody⟩ : ∃ body, CaseBody c context (clauseStatements clause) body := by
      obtain ⟨i, hi, rfl⟩ := List.getElem_of_mem hmem
      exact ⟨_, hall.get hi (hall.length_eq ▸ hi) hstatements⟩
    exact absurd hbody (not_caseBody hopened hends)

end

/-- A switch with a block at the end of a case. -/
def openedSwitch : String :=
  "switch (x) \x7b case 1: f(); \x7b g(); break; \x7d default: break; \x7d"

/-- A switch with a case that runs on. -/
def runningSwitch : String :=
  "switch (x) \x7b case 1: break; case 2: f(); default: break; \x7d"

/-- Whether statements are one switch for which a test holds. -/
def isSwitchWith (test : Mark → Node → List Node → Bool) (statements : List Node) : Bool :=
  match statements with
  | [.switchStatement m subject clauses] => test m subject clauses
  | _ => false

theorem isSwitchWith_iff {test : Mark → Node → List Node → Bool} {statements : List Node} :
    isSwitchWith test statements = true ↔ ∃ m subject clauses,
      statements = [.switchStatement m subject clauses] ∧ test m subject clauses = true := by
  constructor
  · intro h
    unfold isSwitchWith at h
    split at h
    · exact ⟨_, _, _, rfl, h⟩
    · cases h
  · rintro ⟨m, subject, clauses, rfl, h⟩
    exact h

/-- One switch has the bodies of its clauses in its output, the other one is refused. -/
theorem switch_caseBodies_opened :
    (∃ file nextId m subject clauses out after nodes,
      parseFrom 0 "main.ts" openedSwitch = .ok (file, nextId) ∧
      file.statements = [.switchStatement m subject clauses] ∧
      control.statement (converter defaultCapabilities 20) (.switchStatement m subject clauses)
        aloneContext default = .ok out after ∧
      out = some nodes ∧
      BodiesEmitted (converter defaultCapabilities 20) aloneContext clauses nodes) ∧
    ∃ file nextId m subject clauses fault after,
      parseFrom 0 "main.ts" runningSwitch = .ok (file, nextId) ∧
      file.statements = [.switchStatement m subject clauses] ∧
      (∃ clause ∈ clauses, hasStatements clause = true ∧
        ∀ n ∈ openTail (clauseStatements clause), endsCase n = false) ∧
      control.statement (converter defaultCapabilities 20) (.switchStatement m subject clauses)
        aloneContext default = .error fault after := by
  constructor
  · have hc : succeedsWith (parseFrom 0 "main.ts" openedSwitch)
        (fun r => isSwitchWith (fun m subject clauses =>
          endsWith (control.statement (converter defaultCapabilities 20)
            (.switchStatement m subject clauses) aloneContext default) fun _ _ => true)
          r.1.statements) = true := by
      decide +kernel
    obtain ⟨⟨file, nextId⟩, hp, hswitch⟩ := succeedsWith_iff.mp hc
    obtain ⟨m, subject, clauses, hn, hend⟩ := isSwitchWith_iff.mp hswitch
    obtain ⟨out, after, hout, -⟩ := endsWith_iff.mp hend
    obtain ⟨nodes, hnodes, hbodies⟩ :=
      (switch_caseBodies (converter defaultCapabilities 20) aloneContext m subject clauses).1
        default out after hout
    exact ⟨file, nextId, m, subject, clauses, out, after, nodes, hp, hn, hout, hnodes, hbodies⟩
  · have hc : succeedsWith (parseFrom 0 "main.ts" runningSwitch)
        (fun r => isSwitchWith (fun _ _ clauses => clauses.any fun clause =>
          hasStatements clause && (openTail (clauseStatements clause)).all fun n => !endsCase n)
          r.1.statements) = true := by
      decide +kernel
    obtain ⟨⟨file, nextId⟩, hp, hswitch⟩ := succeedsWith_iff.mp hc
    obtain ⟨m, subject, clauses, hn, hany⟩ := isSwitchWith_iff.mp hswitch
    obtain ⟨clause, hmem, hclause⟩ := List.any_eq_true.mp hany
    obtain ⟨hstatements, hall⟩ := Bool.and_eq_true_iff.mp hclause
    have hends : ∀ n ∈ openTail (clauseStatements clause), endsCase n = false := by
      simpa using hall
    obtain ⟨fault, after, hout⟩ :=
      (switch_caseBodies (converter defaultCapabilities 20) aloneContext m subject clauses).2
        clause hmem hstatements _ (opened_openTail _) hends default
    exact ⟨file, nextId, m, subject, clauses, fault, after, hp, hn,
      ⟨clause, hmem, hstatements, hends⟩, hout⟩

end ScriptBridge.Conversion
