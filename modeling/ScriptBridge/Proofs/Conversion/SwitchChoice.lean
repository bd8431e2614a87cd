import ScriptBridge.Conversion.Module
import ScriptBridge.Proofs.Conversion.Outline

/-!
# Which clause a switch carries out

A switch carries out the first clause with statements at or after the first case that matches, or at or
after the clause for all other values. It becomes a chain of conditionals in which the cases that share
the body of a case are asked for in order, and in which that clause comes last. So the chain cannot tell
cases that share the body of that clause, or have no body behind them, from values that no case matches.

* `selectedClause`: the clause that a switch carries out.
* `takenClause`: the clause that the chain carries out.
* `Expressible`: the chain can tell that the first case that matches is the first.
* `takenClause_eq_iff`: these two are the same clause just in that case.
-/

namespace ScriptBridge.Conversion

open TypeScript

/-! ## Clauses -/

/-- Whether a clause is for one value. -/
def isCase : Node → Bool
  | .caseClause .. => true
  | _ => false

/-- Whether a clause is for all other values. -/
def isDefault : Node → Bool
  | .defaultClause .. => true
  | _ => false

/-- The statements of a clause. -/
def clauseStatements : Node → List Node
  | .caseClause _ _ statements | .defaultClause _ statements => statements
  | _ => []

/-- Whether a clause has statements. -/
def hasStatements (clause : Node) : Bool :=
  !(clauseStatements clause).isEmpty

/-! ## What the source selects

Clauses are told by their places; a place goes with the clauses from there on. -/

/-- The first case that matches. -/
def matchFrom (equals : Nat → Bool) : Nat → List Node → Option (Nat × List Node)
  | _, [] => none
  | i, clause :: rest =>
    if isCase clause && equals i then some (i, clause :: rest) else matchFrom equals (i + 1) rest

/-- The clause for all other values; of several the last. -/
def defaultFrom : Nat → List Node → Option (Nat × List Node)
  | _, [] => none
  | i, clause :: rest =>
    (defaultFrom (i + 1) rest).or (if isDefault clause then some (i, clause :: rest) else none)

/-- The first clause with statements. -/
def bodyFrom : Nat → List Node → Option (Nat × List Node)
  | _, [] => none
  | i, clause :: rest =>
    if hasStatements clause then some (i, clause :: rest) else bodyFrom (i + 1) rest

/-- The clause whose body is carried out from a place on. -/
def bodyOf (start : Nat × List Node) : Option Nat :=
  (bodyFrom start.1 start.2).map Prod.fst

/-- The clause that a switch carries out, `equals` telling which cases the value is equal to. -/
def selectedClause (equals : Nat → Bool) (clauses : List Node) : Option Nat :=
  ((matchFrom equals 0 clauses).or (defaultFrom 0 clauses)).bind bodyOf

/-! ## What the chain takes -/

/-- The case whose body a case shares that stands here. -/
def sharedBody : Nat → List Node → Option Nat
  | _, [] => none
  | i, clause :: rest =>
    if isDefault clause then none
    else if hasStatements clause then some i else sharedBody (i + 1) rest

/-- The body of the first case that matches among those that share the body of a case. -/
def takenMatch (equals : Nat → Bool) : Nat → List Node → Option Nat
  | _, [] => none
  | i, clause :: rest =>
    (if isCase clause && equals i then sharedBody i (clause :: rest) else none).or
      (takenMatch equals (i + 1) rest)

/-- The clause that the chain carries out. -/
def takenClause (equals : Nat → Bool) (clauses : List Node) : Option Nat :=
  (takenMatch equals 0 clauses).or ((defaultFrom 0 clauses).bind bodyOf)

/-- If the first case that matches has no body behind it, then there is none for all other values; if it
shares the body of the clause for all other values, then that is the last such clause and no further
case that matches shares the body of a case. -/
def Expressible (equals : Nat → Bool) (clauses : List Node) : Prop :=
  ∀ i rest, matchFrom equals 0 clauses = some (i, rest) →
    match bodyFrom i rest with
    | some (j, target :: after) => isDefault target = true →
      takenMatch equals (j + 1) after = none ∧ ∀ clause ∈ after, isDefault clause = false
    | _ => (defaultFrom 0 clauses).bind bodyOf = none

/-- Only as the last clause, the clause for all other values has no statements. -/
def DefaultsClose : List Node → Prop
  | [] => True
  | clause :: rest =>
    (isDefault clause = true → hasStatements clause = false → rest = []) ∧ DefaultsClose rest

section
variable {equals : Nat → Bool} {clauses rest : List Node} {i j : Nat}

theorem not_isDefault_of_isCase {clause : Node} (h : isCase clause = true) :
    isDefault clause = false := by
  unfold isCase at h
  split at h
  · rfl
  · cases h

theorem isCase_or_isDefault {clause : Node} (h : hasStatements clause = true) :
    isCase clause = true ∨ isDefault clause = true := by
  unfold hasStatements clauseStatements at h
  split at h
  · exact .inl rfl
  · exact .inr rfl
  · cases h

/-! ## Finding clauses -/

/-- The first case that matches heads the clauses from there on, which are the last ones. -/
theorem matchFrom_eq_some (h : matchFrom equals i clauses = some (j, rest)) :
    ∃ clause after, rest = clause :: after ∧ isCase clause = true ∧ equals j = true ∧
      rest <:+ clauses ∧ takenMatch equals i clauses = takenMatch equals j rest := by
  fun_induction matchFrom equals i clauses with
  | case1 => cases h
  | case2 i clause after hc =>
    cases h
    obtain ⟨hcase, hequals⟩ := Bool.and_eq_true_iff.mp hc
    exact ⟨clause, after, rfl, hcase, hequals, List.suffix_refl _, rfl⟩
  | case3 i clause after hc ih =>
    obtain ⟨clause', after', hrest, hcase, hequals, hs, ht⟩ := ih h
    refine ⟨clause', after', hrest, hcase, hequals, hs.trans (List.suffix_cons _ _), ?_⟩
    rw [takenMatch, if_neg hc, Option.none_or, ht]

theorem DefaultsClose.of_suffix (h : DefaultsClose clauses) (hs : rest <:+ clauses) :
    DefaultsClose rest := by
  induction clauses with
  | nil => exact List.suffix_nil.mp hs ▸ trivial
  | cons clause after ih =>
    rcases List.suffix_cons_iff.mp hs with rfl | hs
    · exact h
    · exact ih h.2 hs

theorem takenMatch_of_matchFrom_none (h : matchFrom equals i clauses = none) :
    takenMatch equals i clauses = none := by
  fun_induction matchFrom equals i clauses with
  | case1 => rfl
  | case2 => cases h
  | case3 i clause after hc ih => rw [takenMatch, if_neg hc, Option.none_or, ih h]

/-- Without statements nothing is shared. -/
theorem shared_of_bodyFrom_none (h : bodyFrom i clauses = none) :
    sharedBody i clauses = none ∧ takenMatch equals i clauses = none := by
  fun_induction bodyFrom i clauses with
  | case1 => exact ⟨rfl, rfl⟩
  | case2 => cases h
  | case3 i clause after hs ih =>
    obtain ⟨hshared, htaken⟩ := ih h
    have hhead : sharedBody i (clause :: after) = none := by
      simp only [sharedBody, hs, hshared, ite_self, Bool.false_eq_true, if_false]
    refine ⟨hhead, ?_⟩
    rw [takenMatch, hhead, htaken]
    split <;> rfl

/-- Up to the first clause with statements there is nothing to take. -/
theorem shared_of_bodyFrom (equals : Nat → Bool) {target : Node} {after : List Node}
    (hclose : DefaultsClose clauses)
    (h : bodyFrom i clauses = some (j, target :: after)) :
    sharedBody i clauses = (if isDefault target then none else some j) ∧
      (isDefault target = true → takenMatch equals i clauses = takenMatch equals (j + 1) after) := by
  fun_induction bodyFrom i clauses with
  | case1 => cases h
  | case2 k clause rest hs =>
    cases h
    have hshared : sharedBody j (target :: after) = if isDefault target then none else some j := by
      rw [sharedBody, if_pos hs]
    refine ⟨hshared, fun hd => ?_⟩
    rw [takenMatch, hshared, if_pos hd]
    split <;> exact Option.none_or
  | case3 i clause rest hs ih =>
    obtain ⟨hshared, htaken⟩ := ih hclose.2 h
    have hd : isDefault clause = false := by
      refine Bool.eq_false_iff.mpr fun hd => ?_
      have hnil := hclose.1 hd (Bool.eq_false_iff.mpr hs)
      rw [hnil] at h
      cases h
    have hhead : sharedBody i (clause :: rest) = sharedBody (i + 1) rest := by
      rw [sharedBody, hd, if_neg nofun, if_neg hs]
    refine ⟨hhead.trans hshared, fun ht => ?_⟩
    rw [takenMatch, hhead, hshared, if_pos ht, htaken ht]
    split <;> exact Option.none_or

/-- The first clause with statements heads the clauses from there on. -/
theorem bodyFrom_eq_some (h : bodyFrom i clauses = some (j, rest)) :
    ∃ target after, rest = target :: after ∧ hasStatements target = true ∧ rest <:+ clauses ∧
      i + clauses.length = j + rest.length := by
  fun_induction bodyFrom i clauses with
  | case1 => cases h
  | case2 i clause after hs =>
    cases h
    exact ⟨clause, after, rfl, hs, List.suffix_refl _, rfl⟩
  | case3 i clause after hs ih =>
    obtain ⟨target, after', hrest, ht, hsuffix, hplace⟩ := ih h
    refine ⟨target, after', hrest, ht, hsuffix.trans (List.suffix_cons _ _), ?_⟩
    rw [List.length_cons]
    omega

theorem place_of_matchFrom (h : matchFrom equals i clauses = some (j, rest)) :
    i + clauses.length = j + rest.length := by
  fun_induction matchFrom equals i clauses with
  | case1 => cases h
  | case2 => cases h; rfl
  | case3 i clause after _ ih =>
    have := ih h
    rw [List.length_cons]
    omega

theorem le_of_bodyOf (h : bodyOf (i, clauses) = some j) : i ≤ j := by
  obtain ⟨⟨j', rest⟩, hbody, rfl⟩ := Option.map_eq_some_iff.mp h
  obtain ⟨_, _, -, -, hsuffix, hplace⟩ := bodyFrom_eq_some hbody
  have hlength : rest.length ≤ clauses.length := hsuffix.length_le
  have hplace : i + clauses.length = j' + rest.length := hplace
  change i ≤ j'
  omega

theorem le_of_sharedBody (h : sharedBody i clauses = some j) : i ≤ j := by
  fun_induction sharedBody i clauses with
  | case1 => cases h
  | case2 => cases h
  | case3 => cases h; exact Nat.le_refl _
  | case4 i clause rest hd hs ih => exact Nat.le_of_succ_le (ih h)

theorem le_of_takenMatch (h : takenMatch equals i clauses = some j) : i ≤ j := by
  induction clauses generalizing i with
  | nil => cases h
  | cons clause rest ih =>
    rw [takenMatch] at h
    rcases Option.or_eq_some_iff.mp h with h | ⟨-, h⟩
    · split at h
      · exact le_of_sharedBody h
      · cases h
    · exact Nat.le_of_succ_le (ih h)

/-! ### The clause for all other values -/

theorem defaultFrom_none (h : ∀ clause ∈ clauses, isDefault clause = false) :
    defaultFrom i clauses = none := by
  induction clauses generalizing i with
  | nil => rfl
  | cons clause rest ih =>
    obtain ⟨hclause, hrest⟩ := List.forall_mem_cons.mp h
    rw [defaultFrom, ih hrest, hclause]
    rfl

/-- A clause for all other values heads the clauses from there on. -/
theorem defaultFrom_eq_some (h : defaultFrom i clauses = some (j, rest)) :
    ∃ clause after, rest = clause :: after ∧ isDefault clause = true ∧ i ≤ j ∧
      clauses.drop (j - i) = rest := by
  induction clauses generalizing i with
  | nil => cases h
  | cons clause after ih =>
    rw [defaultFrom] at h
    rcases Option.or_eq_some_iff.mp h with h | ⟨-, h⟩
    · obtain ⟨clause', after', hrest, hd, hle, hdrop⟩ := ih h
      refine ⟨clause', after', hrest, hd, Nat.le_of_succ_le hle, ?_⟩
      rw [show j - i = (j - (i + 1)) + 1 by omega, List.drop_succ_cons, hdrop]
    · split at h
      · cases h
        exact ⟨clause, after, rfl, ‹_›, Nat.le_refl _, by rw [Nat.sub_self, List.drop_zero]⟩
      · cases h

theorem exists_defaultFrom (h : ∃ clause ∈ clauses, isDefault clause = true) :
    ∃ d, defaultFrom i clauses = some d := by
  induction clauses generalizing i with
  | nil =>
    obtain ⟨_, hmem, -⟩ := h
    cases hmem
  | cons clause rest ih =>
    obtain ⟨d, hmem, hd⟩ := h
    rw [defaultFrom]
    rcases List.mem_cons.mp hmem with rfl | hmem
    · rw [hd]
      cases defaultFrom (i + 1) rest with
      | none => exact ⟨_, rfl⟩
      | some d => exact ⟨d, rfl⟩
    · obtain ⟨found, hfound⟩ := ih (i := i + 1) ⟨d, hmem, hd⟩
      exact ⟨found, by rw [hfound, Option.some_or]⟩

/-- The last clause for all other values is found from any place before it. -/
theorem defaultFrom_of_suffix {found : Nat × List Node} (hs : rest <:+ clauses)
    (hplace : i + clauses.length = j + rest.length) (h : defaultFrom j rest = some found) :
    defaultFrom i clauses = some found := by
  induction clauses generalizing i with
  | nil =>
    rw [List.suffix_nil.mp hs] at h
    cases h
  | cons clause after ih =>
    rcases List.suffix_cons_iff.mp hs with rfl | hs
    · obtain rfl : i = j := by omega
      exact h
    · rw [List.length_cons] at hplace
      rw [defaultFrom, ih hs (by omega), Option.some_or]

/-- Which clause is the last one for all other values, after the first one of them. -/
theorem bodyOf_default_iff {target : Node} {after : List Node} (hd : isDefault target = true)
    (hs : hasStatements target = true) (hsuffix : target :: after <:+ clauses)
    (hplace : clauses.length = j + (after.length + 1)) :
    (defaultFrom 0 clauses).bind bodyOf = some j ↔ ∀ clause ∈ after, isDefault clause = false := by
  have hplace : 0 + clauses.length = j + (target :: after).length := by
    rw [List.length_cons]
    omega
  constructor
  · intro h clause hmem
    refine Bool.eq_false_iff.mpr fun hclause => ?_
    obtain ⟨⟨k, rest⟩, hfound⟩ := exists_defaultFrom (i := j + 1) ⟨clause, hmem, hclause⟩
    have hhead : defaultFrom j (target :: after) = some (k, rest) := by
      rw [defaultFrom, hfound, Option.some_or]
    rw [defaultFrom_of_suffix hsuffix hplace hhead, Option.bind_some] at h
    obtain ⟨_, _, -, -, hle, -⟩ := defaultFrom_eq_some hfound
    exact absurd (Nat.le_trans hle (le_of_bodyOf h)) (Nat.not_succ_le_self j)
  · intro h
    have hhead : defaultFrom j (target :: after) = some (j, target :: after) := by
      rw [defaultFrom, defaultFrom_none h, hd]
      rfl
    rw [defaultFrom_of_suffix hsuffix hplace hhead, Option.bind_some, bodyOf, bodyFrom, if_pos hs]
    rfl

/-- The chain carries out the clause that the switch carries out just if that is expressible. -/
theorem takenClause_eq_iff (hclose : DefaultsClose clauses) :
    takenClause equals clauses = selectedClause equals clauses ↔ Expressible equals clauses := by
  unfold takenClause selectedClause Expressible
  cases hm : matchFrom equals 0 clauses with
  | none =>
    rw [takenMatch_of_matchFrom_none hm, Option.none_or, Option.none_or]
    exact iff_of_true rfl nofun
  | some start =>
    obtain ⟨i, rest⟩ := start
    have hstart {P : Nat → List Node → Prop} :
        (∀ k more, some (i, rest) = some (k, more) → P k more) ↔ P i rest :=
      ⟨fun h => h _ _ rfl, fun h k more he => by cases he; exact h⟩
    obtain ⟨clause, more, rfl, hcase, hequals, hsuffix, htaken⟩ := matchFrom_eq_some hm
    have hplace := place_of_matchFrom hm
    rw [hstart, htaken, Option.some_or, Option.bind_some]
    cases hb : bodyFrom i (clause :: more) with
    | none =>
      have hselected : bodyOf (i, clause :: more) = none := by rw [bodyOf, hb]; rfl
      rw [(shared_of_bodyFrom_none hb).2, Option.none_or, hselected]
    | some body =>
      obtain ⟨j, behind⟩ := body
      obtain ⟨target, after, rfl, hs, hsuffix', hplace'⟩ := bodyFrom_eq_some hb
      obtain ⟨hshared, hskip⟩ :=
        shared_of_bodyFrom equals (hclose.of_suffix hsuffix) hb
      have hselected : bodyOf (i, clause :: more) = some j := by rw [bodyOf, hb]; rfl
      have hhead : takenMatch equals i (clause :: more) =
          (sharedBody i (clause :: more)).or (takenMatch equals (i + 1) more) := by
        rw [takenMatch, hcase, hequals]
        rfl
      rw [hselected]
      dsimp only
      cases hd : isDefault target with
      | false =>
        rw [hhead, hshared, hd]
        exact iff_of_true rfl nofun
      | true =>
        rw [hskip hd, eq_self_iff_true, true_imp_iff]
        rw [← hplace, Nat.zero_add, List.length_cons] at hplace'
        have hlast := bodyOf_default_iff hd hs (hsuffix'.trans hsuffix) hplace'
        cases ht : takenMatch equals (j + 1) after with
        | none => rw [Option.none_or, hlast, eq_self_iff_true, true_and]
        | some k =>
          have hle := le_of_takenMatch ht
          refine iff_of_false ?_ nofun
          rw [Option.some_or, Option.some_inj]
          omega

/-- A case at the very end that shares no body is not told from the values that no case matches. -/
example (m : Mark) (value jump : Node) :
    let clauses : List Node := [.defaultClause m [jump], .caseClause m value []]
    selectedClause (· == 1) clauses = none ∧ takenClause (· == 1) clauses = some 0 :=
  ⟨rfl, rfl⟩

end

end ScriptBridge.Conversion
