import ScriptBridge.Proofs.Conversion.KeptApart
import ScriptBridge.Proofs.Conversion.LoopTrace

/-!
# What loops capture

The body of a loop has a scope of its own in the source, and what a loop does between two rounds does not
see it. In the output, both are in one list of statements. What stands behind the body there sees the
definitions of the body; a body with a `continue` has it in front of them.

* `emittedLoop`: the statements of the loop that a loop becomes.
* `SourceLoop.Captures`: a definition of the body binds a name of what happens between two rounds.
* `loop_captures`: when that is the case.
-/

namespace ScriptBridge.Conversion

open TypeScript Binding

/-- What a loop does between two rounds: its step, or the test behind its body. -/
def SourceLoop.between (l : SourceLoop) : Option Node :=
  if l.testsFirst then l.step else l.test

/-- The identifiers in what a loop does between two rounds. -/
def SourceLoop.betweenIdents (l : SourceLoop) : List Ident :=
  l.between.toList.flatMap fun e => e.preorder.filterMap fun
    | .ident i => some i
    | _ => none

/-- The nodes that what a loop does between two rounds becomes. -/
def LoopParts.between (parts : LoopParts) (l : SourceLoop) : List AiScript.Node :=
  if l.testsFirst then parts.step else nodesOf parts.contents (checkPieces parts.hasTest)

/-- The statements of the loop that a loop becomes, in a block of its own or not. -/
def emittedLoop : List AiScript.Node → List AiScript.Node
  | [.loop _ ns] => ns
  | [.block _ ns] =>
    match ns.getLast? with
    | some (.loop _ inner) => inner
    | _ => []
  | _ => []

/-- Behind the body of a loop stands what happens between two rounds, and a name in it is defined in the
body for another symbol. -/
def SourceLoop.Captures (l : SourceLoop) (p : Program) (body after : List AiScript.Node) : Prop :=
  after ≠ [] ∧ ∃ i ∈ l.betweenIdents, isOrdinary i.name = true ∧
    ∃ r ∈ body, i.name ∈ r.defines ∧ ∃ d ∈ roundNames p l.body, d.name = i.name ∧
      p.bindings.symbolOf? d.mark.id ≠ p.bindings.symbolOf? i.mark.id

/-- No name of what happens between two rounds is declared in the body for another symbol. -/
def SourceLoop.NamesApart (l : SourceLoop) (p : Program) : Prop :=
  ∀ i ∈ l.betweenIdents, isOrdinary i.name = true → ∀ d ∈ roundNames p l.body, d.name = i.name →
    p.bindings.symbolOf? d.mark.id = p.bindings.symbolOf? i.mark.id

instance (l : SourceLoop) (p : Program) : Decidable (l.NamesApart p) :=
  inferInstanceAs (Decidable (∀ i ∈ l.betweenIdents, _ → ∀ d ∈ roundNames p l.body, _ → _))

/-! ## Layouts -/

theorem emittedLoop_block (front ns : List AiScript.Node) :
    emittedLoop [.block {} (front ++ [.loop {} ns])] = ns := by
  simp [emittedLoop]

/-- A test that leaves a loop defines nothing. -/
theorem definedNames_check (parts : LoopParts) :
    definedNames (nodesOf parts.contents (checkPieces parts.hasTest)) = [] := by
  unfold checkPieces
  split <;> rfl

theorem emittedLoop_testsFirst (parts : LoopParts) (continues : Bool) :
    ∃ before, definedNames before = [] ∧
      emittedLoop (nodesOf parts.contents (testsFirstPieces parts continues)) =
        before ++ parts.body ++ if continues then [] else parts.step := by
  have hcheck := definedNames_check parts
  rw [nodesOf_testsFirstPieces]
  generalize nodesOf parts.contents (checkPieces parts.hasTest) = check at hcheck
  dsimp only
  split
  · rename_i hflag
    obtain ⟨-, rfl⟩ := Bool.and_eq_true_iff.mp hflag
    refine ⟨afterFirst parts.flag parts.step :: check, hcheck, ?_⟩
    rw [List.append_cons, emittedLoop_block]
    exact (List.append_nil _).symm
  · rename_i hflag
    -- A body with a `continue` keeps this layout only if there is no step.
    have hstep : (if continues then [] else parts.step) = parts.step := by
      cases continues with
      | false => rfl
      | true =>
        rw [Bool.and_true, Bool.not_eq_true', Bool.not_eq_false, List.isEmpty_iff] at hflag
        exact hflag.symm
    rw [hstep]
    refine ⟨check, hcheck, ?_⟩
    split
    · rfl
    · exact emittedLoop_block _ _

theorem emittedLoop_testsLast (parts : LoopParts) (continues : Bool) :
    ∃ before, definedNames before = [] ∧
      emittedLoop (nodesOf parts.contents (testsLastPieces parts continues)) =
        before ++ parts.body ++
          if continues then [] else nodesOf parts.contents (checkPieces parts.hasTest) := by
  rw [nodesOf_testsLastPieces]
  dsimp only
  split
  · rename_i hflag
    obtain ⟨-, rfl⟩ := Bool.and_eq_true_iff.mp hflag
    refine ⟨[afterFirst parts.flag (nodesOf parts.contents (checkPieces parts.hasTest))], rfl, ?_⟩
    exact (emittedLoop_block [_] _).trans (List.append_nil _).symm
  · rename_i hflag
    refine ⟨[], rfl, ?_⟩
    cases continues with
    | false => rfl
    | true =>
      rw [Bool.and_true, Bool.not_eq_true] at hflag
      rw [hflag]
      rfl

section
variable {c : Converter} {context : Context} {s s' : Progress} {n : Node} {l : SourceLoop}
  {out : Option (List AiScript.Node)}

/-- The body of a loop is in the loop that it becomes; unless it has a `continue`, what happens between
two rounds stands behind it. -/
theorem loop_emitted (hl : sourceLoop? n = some l) (h : control.statement c n context s = .ok out s') :
    ∃ parts : LoopParts, parts.ConvertedFrom c context l ∧ ∃ nodes before, out = some nodes ∧
      definedNames before = [] ∧ emittedLoop nodes =
        before ++ parts.body ++ if hasContinue l.body then [] else parts.between l := by
  unfold sourceLoop? at hl
  split at hl
  · cases hl
    obtain ⟨nodes, s₁, hn, h⟩ := bind_ok h
    obtain ⟨parts, hparts, rfl⟩ := convertFor_ok hn
    cases h
    obtain ⟨before, hbefore, hloop⟩ := emittedLoop_testsFirst parts _
    exact ⟨parts, hparts, _, before, rfl, hbefore, hloop⟩
  · cases hl
    obtain ⟨nodes, s₁, hn, h⟩ := bind_ok h
    obtain ⟨parts, hparts, rfl⟩ := convertWhile_ok hn
    cases h
    obtain ⟨before, hbefore, hloop⟩ := emittedLoop_testsFirst parts _
    exact ⟨parts, hparts, _, before, rfl, hbefore, hloop⟩
  · cases hl
    obtain ⟨nodes, s₁, hn, h⟩ := bind_ok h
    obtain ⟨parts, hparts, rfl⟩ := convertDo_ok hn
    cases h
    obtain ⟨before, hbefore, hloop⟩ := emittedLoop_testsLast parts _
    exact ⟨parts, hparts, _, before, rfl, hbefore, hloop⟩
  · cases hl

end

/-! ## Names -/

section
variable {k : Nat} {context : Context} {s s' : Progress} {n : Node} {l : SourceLoop}
  {parts : LoopParts}

theorem Within.produces {α : Type} {m : ConvertM α} {P : α → Prop} {a : α}
    (h : Within context.program m P) (hm : Produces context m a) : P a := by
  obtain ⟨s, s', hm⟩ := hm
  exact (h context s a s' rfl hm).1

/-- The body of a loop defines what it lands. -/
theorem definedNames_body
    (hparts : parts.ConvertedFrom (converter defaultCapabilities k) context l) :
    definedNames parts.body = namesOf (roundNames context.program l.body) :=
  (Within.produces ((keepsLists_converter _ k).loopBody (List.Subset.refl _)) hparts.body).names

/-- What happens between two rounds defines nothing. -/
theorem definedNames_between
    (hparts : parts.ConvertedFrom (converter defaultCapabilities k) context l) :
    definedNames (parts.between l) = [] := by
  unfold LoopParts.between
  split
  · exact (Within.produces ((keepsLists_converter _ k).loopAdvance (listsIn_flatten _))
      hparts.step).names
  · exact definedNames_check parts

theorem captures_iff {body after : List AiScript.Node} {p : Program}
    (hbody : definedNames body = namesOf (roundNames p l.body)) :
    ¬ l.Captures p body after ↔ after = [] ∨ l.NamesApart p := by
  constructor
  · intro h
    refine or_iff_not_imp_left.mpr fun hafter i hi ho d hd hname => ?_
    by_contra hne
    -- An ordinary name that the body declares is defined by one of its nodes.
    have hdefined : i.name ∈ definedNames body := by
      rw [hbody]
      exact List.mem_filter.mpr ⟨List.mem_map.mpr ⟨d, hd, hname⟩, ho⟩
    obtain ⟨r, hr, hdefines⟩ := List.mem_flatMap.mp (List.mem_filter.mp hdefined).1
    exact h ⟨hafter, i, hi, ho, r, hr, hdefines, d, hd, hname, hne⟩
  · rintro (hnone | hapart) ⟨hafter, i, hi, ho, r, -, -, d, hd, hname, hne⟩
    · exact hafter hnone
    · exact hne (hapart i hi ho d hd hname)

/-- The loop that a loop becomes defines the ordinary names that the body does. What happens between two
rounds is captured unless the body has a `continue`, nothing happens between rounds, or all names that
both have are for the same symbols. -/
theorem loop_captures {out : Option (List AiScript.Node)} (hl : sourceLoop? n = some l)
    (h : control.statement (converter defaultCapabilities k) n context s = .ok out s') :
    ∃ (parts : LoopParts) (nodes before after : List AiScript.Node),
      parts.ConvertedFrom (converter defaultCapabilities k) context l ∧ out = some nodes ∧
      emittedLoop nodes = before ++ parts.body ++ after ∧
      after = (if hasContinue l.body then [] else parts.between l) ∧
      definedNames (emittedLoop nodes) = namesOf (roundNames context.program l.body) ∧
      (¬ l.Captures context.program parts.body after ↔
        hasContinue l.body = true ∨ parts.between l = [] ∨ l.NamesApart context.program) := by
  obtain ⟨parts, hparts, nodes, before, hout, hbefore, hloop⟩ := loop_emitted hl h
  have hbody := definedNames_body hparts
  refine ⟨parts, nodes, before, _, hparts, hout, hloop, rfl, ?_, ?_⟩
  · have hafter : definedNames (if hasContinue l.body then [] else parts.between l) = [] := by
      split
      · rfl
      · exact definedNames_between hparts
    rw [hloop, definedNames_append, definedNames_append, hbefore, hafter, hbody, List.nil_append,
      List.append_nil]
  · rw [captures_iff hbody, ← or_assoc]
    refine or_congr_left ?_
    cases hasContinue l.body <;> simp

end

/-- A loop whose body declares a name that its step does not have. -/
def ownNameLoop : String :=
  "for (; ready; i++) \x7b let a = i; f(a); \x7d"

/-- Whether statements are one loop that is converted and declares only a name of its own. -/
def declaresOwnName (statements : List Node) : Bool :=
  match statements with
  | [n] =>
    match sourceLoop? n with
    | some l =>
      decide (namesOf (roundNames aloneContext.program l.body) = ["a"]) &&
        decide (l.NamesApart aloneContext.program) && endsWith
          (control.statement (converter defaultCapabilities 20) n aloneContext default) fun _ _ => true
    | none => false
  | _ => false

theorem loop_captures_ownName :
    ∃ file nextId n l nodes after,
      parseFrom 0 "main.ts" ownNameLoop = .ok (file, nextId) ∧ file.statements = [n] ∧
      sourceLoop? n = some l ∧
      control.statement (converter defaultCapabilities 20) n aloneContext default =
        .ok (some nodes) after ∧
      definedNames (emittedLoop nodes) = ["a"] ∧
      ∃ before body behind, emittedLoop nodes = before ++ body ++ behind ∧
        ¬ l.Captures aloneContext.program body behind := by
  have hc : succeedsWith (parseFrom 0 "main.ts" ownNameLoop)
      (fun r => declaresOwnName r.1.statements) = true := by
    decide +kernel
  obtain ⟨⟨file, nextId⟩, hp, htests⟩ := succeedsWith_iff.mp hc
  dsimp only at htests
  unfold declaresOwnName at htests
  split at htests
  · rename_i n hn
    split at htests
    · rename_i l hl
      simp only [Bool.and_eq_true, decide_eq_true_eq] at htests
      obtain ⟨⟨hnames, hapart⟩, hend⟩ := htests
      obtain ⟨out, after, hout, -⟩ := endsWith_iff.mp hend
      obtain ⟨parts, nodes, before, behind, -, rfl, hloop, -, hdefined, hcaptures⟩ :=
        loop_captures hl hout
      exact ⟨file, nextId, n, l, nodes, after, hp, hn, hl, hout, hdefined.trans hnames, before,
        parts.body, behind, hloop, hcaptures.mpr (.inr (.inr hapart))⟩
    · exact absurd htests nofun
  · exact absurd htests nofun

end ScriptBridge.Conversion
