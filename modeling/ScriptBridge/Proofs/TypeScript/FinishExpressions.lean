import ScriptBridge.Proofs.TypeScript.AdvanceExpressions
import ScriptBridge.Proofs.TypeScript.FinishTypes

/-!
# Rules for expressions come to an end

Every rule for expressions comes to an end if the rules one level of nesting further in do. The
substitutions of a template are parsed on their own tokens, which weigh less than the template. Where no
arrow function comes next the parser goes back, and nothing is gained; the levels of nesting are then
still enough for what is tried instead.

* `Rules.Finishing.templateSpans`: the substitutions of a template.
* `Rules.Finishing.arrowFunction?`: an arrow function, or nothing.
* `Rules.Finishing.anyExpression`: any expression.
-/

namespace ScriptBridge.TypeScript.Rules.Finishing

open ScriptBridge.TypeScript.Parser

variable {r : Rules} {n k : Nat} {t : Token}

/-! ## Literals -/

theorem argument (h : r.Finishing n) : Finishes 1 (n - 1) r.argument := by
  refine .current fun _ => Finishes.atToken (.accept ?_ h.assignment)
  exact (h.assignment.mono (by omega)).bind fun _ => finishes_build _ _

theorem arguments (h : r.Finishing n) : Finishes 1 n r.arguments := by
  refine (finishes_skip "(").bind fun _ => ?_
  refine (h.argument.commaUntil _ (by omega) (by rw [h.bound]; omega)).withIn.bind fun _ => ?_
  exact (finishes_skip ")").bind fun _ => .pure _

theorem arrayItems (h : r.Finishing n) {m : Nat} (hk : k ≤ n - 1) (hm : k ≤ 3 * m + 2) :
    Finishes 0 k (r.arrayItems m) := by
  induction m generalizing k with
  | zero => exact .of_lt (by omega)
  | succ m ih =>
    refine .sees fun _ => .ite (.pure _) (.current fun t => Finishes.atToken (.accept ?_ ?_))
    · exact (finishes_buildAt t _).bind fun _ => (ih (by omega) (by omega)).bind fun _ => .pure _
    · refine (h.argument.mono hk).bind fun _ => .accept ?_ (.pure _)
      exact (ih (by omega) (by omega)).bind fun _ => .pure _

theorem arrayLiteral (h : r.Finishing n) : Finishes 1 n r.arrayLiteral := by
  refine (finishes_expect "[").bind fun _ => ?_
  refine (h.arrayItems (by omega) (by rw [h.bound]; omega)).withIn.bind fun _ => ?_
  exact (finishes_skip "]").bind fun _ => finishes_build _ _

theorem methodTail (h : r.Finishing n) (start : Span) (name : Node) (kind : MethodKind)
    (isAsync isGenerator : Bool) : Finishes 1 n (r.methodTail start name kind isAsync isGenerator) :=
  h.typeParameters?.bind fun _ => h.parameters.bind fun _ => (h.resultType?.mono (by omega)).bind
    fun _ => (h.block.withIn.mono (by omega)).bind fun _ => finishes_build _ _

theorem valueTail (h : r.Finishing n) (start : Span) (name : Node) :
    Finishes 0 n (r.valueTail start name) := by
  refine .accept ((h.assignment.mono (by omega)).bind fun _ => finishes_build _ _) ?_
  cases name with
  | ident i =>
    refine .before (finishes_fail _) (.accept ?_ (finishes_build _ _))
    exact ((h.assignment.map _).mono (by omega)).bind fun _ => finishes_build _ _
  | _ => exact finishes_fail _

theorem objectMember (h : r.Finishing n) : Finishes 1 n r.objectMember := by
  refine .current fun t => Finishes.atToken (.accept ?spread (.peek fun next => ?_))
  case spread =>
    exact (finishes_markFrom _).bind fun _ => (h.assignment.mono (by omega)).bind fun _ => .pure _
  extract_lets startsName rest
  have hrest (head : MethodKind × Bool) : Finishes 1 n (rest head) := by
    obtain ⟨kind, isAsync⟩ := head
    refine (finishes_accept "*").bind fun _ => h.propertyName.bind fun _ => .seesAny fun _ => ?_
    refine .ite ((h.methodTail _ _ _ _ _).forget.mono (by omega)) (.ite (finishes_fail _) ?_)
    exact (h.valueTail _ _).mono (by omega)
  refine .ite ?_ (.ite ?_ ((Finishes.pure _).bind hrest))
  · exact finishes_advance.bind fun _ => (Finishes.pure _).bind hrest
  · exact finishes_advance.bind fun _ => (Finishes.pure _).bind hrest

theorem objectLiteral (h : r.Finishing n) : Finishes 1 n r.objectLiteral := by
  refine (finishes_expect _).bind fun _ => ?_
  refine (h.objectMember.commaUntil _ (by omega) (by rw [h.bound]; omega)).withIn.bind fun _ => ?_
  exact (finishes_skip _).bind fun _ => finishes_build _ _

theorem functionExpression (h : r.Finishing n) (start : Span) (isAsync : Bool) :
    Finishes 1 n (r.functionExpression start isAsync) := by
  refine (finishes_skip _).bind fun _ => (finishes_accept "*").bind fun _ => .current fun _ => ?_
  extract_lets rest
  have hrest (name : Option Ident) : Finishes 0 n (rest name) :=
    h.typeParameters?.bind fun _ => h.parameters.bind fun _ => (h.resultType?.mono (by omega)).bind
      fun _ => (h.block.withIn.mono (by omega)).bind fun _ => finishes_build _ _
  refine Finishes.atToken (.ite ?_ ((hrest none).mono (by omega)))
  exact (finishes_identifier.map _).bind fun name => (hrest name).mono (by omega)

/-! ## Templates -/

theorem substitution (h : r.Finishing n) : Finishes 1 (n - 2) r.substitution := by
  refine .current fun _ => Finishes.atToken (.before (finishes_fail _) ?_)
  refine h.expression.bind fun _ => .current fun t => Finishes.atToken ?_
  exact .before (finishes_failAt t _) (.pure _)

/-- Parsing the substitutions of the template at `i` from the `k`-th one on. Each of them stands on its own
tokens, for which the levels are enough, and a numeral in it stands in the template. -/
theorem templateSpans (h : r.Finishing n) {s₀ s : ParserState} (hs₀ : s₀.Standing) (hs : Reaches s₀ s)
    {gain i k : Nat} (hg : s₀.pos + gain ≤ s.pos) (hi : s₀.pos ≤ i) {rest : List (List Token × String)}
    (hrest : ∀ t, s.tokens[i]? = some t → t.pieces.drop k = rest)
    (hinner : ∀ piece ∈ rest, ∀ nextId, ({ tokens := piece.1.toArray, nextId } : ParserState).Standing)
    (hweight : ∀ piece ∈ rest, 3 * tokensWeight piece.1 ≤ n - 2)
    (hfaulty : ∀ piece ∈ rest, ∀ u ∈ piece.1, ∀ fault, u.Faulty fault →
      ∃ t ∈ s₀.tokens.toList, t.Faulty fault) :
    Outcome gain s₀ (r.templateSpans i k rest s) := by
  induction rest generalizing k s with
  | nil => exact .ok hs hg
  | cons piece rest ih =>
    obtain ⟨tokens, literal⟩ := piece
    obtain ⟨hinner, hinners⟩ := List.forall_mem_cons.mp hinner
    obtain ⟨hweight, hweights⟩ := List.forall_mem_cons.mp hweight
    obtain ⟨hfaulty, hfaultys⟩ := List.forall_mem_cons.mp hfaulty
    have hrun := h.substitution _ (hinner s.nextId) hweight
    have hback {inner : ParserState} (hr : Reaches { tokens := tokens.toArray, nextId := s.nextId } inner) :=
      Advancing.putBack hs.advances hi hr.advances hrest
    have hreaches {inner : ParserState}
        (hr : Reaches { tokens := tokens.toArray, nextId := s.nextId } inner) :=
      Reaches.mk (hback hr).1 ((hback hr).1.standing hs₀ (by
        rw [Array.size_modify]
        exact hs.standing.sound.inside))
    unfold Rules.templateSpans
    simp only [Bind.bind, EStateM.bind]
    generalize r.substitution { tokens := tokens.toArray, nextId := s.nextId } = result at hrun
    cases hrun with
    | grammar hr => exact .grammar (hreaches hr)
    | numeral hr hf =>
      obtain ⟨u, hu, hf⟩ := hf
      exact .numeral (hreaches hr) (hfaulty u hu _ hf)
    | @ok e inner hr _ =>
      refine Outcome.bind (g := gain) (f := fun more => pure (_ :: more)) ?_ fun more s' _ hr' hg' =>
        .ok hr' hg'
      refine ih ?_ hg ?_ hinners hweights hfaultys
      · exact (hreaches hr).stay rfl rfl
      · exact (hback hr).2

theorem templateLiteral (h : r.Finishing n) (hkind : t.kind = .template) :
    FinishesAt t 1 n r.templateLiteral := by
  rintro s hs rfl hload
  have hk : s.next.kind ≠ .eof := by
    rw [hkind]
    decide
  have hr := hs.reaches_behind hk
  unfold Rules.templateLiteral
  rw [get_bind, bind_ok (advance_apply hk)]
  split
  · exact (finishes_buildAt _ _ s.behind hr.standing (Nat.le_refl _)).of_reaches hr (Nat.le_refl _)
  refine Outcome.bind (g := 1) ?_ fun spans s' _ hr' hg => ?_
  · refine h.templateSpans hs hr (Nat.le_refl _) (Nat.le_refl _) (fun t ht => ?_)
      (fun piece hpiece => hs.substitution hkind hpiece) (fun piece hpiece => ?_)
      fun piece hpiece u hu fault hf => ⟨s.next, hs.next_mem, .inner hpiece hu hf⟩
    · cases hs.sound.getElem?_pos.symm.trans ht
      exact List.drop_zero
    · have := hs.weight_lt hkind hpiece
      omega
  · exact (finishes_buildAt _ _ s' hr'.standing (Nat.le_refl _)).of_reaches hr' hg

/-! ## Primary expressions and accesses -/

theorem primary (h : r.Finishing n) : Finishes 1 n r.primary := by
  refine .current fun t => .peek fun next => ?_
  refine .ite (fun ht => .token (Token.ne_eof_of_kind ht (by decide))) ?_
  refine .ite (fun ht => .token (Token.ne_eof_of_kind ht (by decide))) ?_
  refine .ite (fun ht => h.templateLiteral (eq_of_beq ht)) ?_
  refine .ite (fun ht => .token (Token.ne_eof_of_isAny ht)) ?_
  refine .ite (fun ht => .token (Token.ne_eof_of_isAny ht)) ?_
  refine .ite (fun ht => .token (Token.ne_eof_of_isAny ht)) ?_
  refine .ite (fun _ => (h.functionExpression _ _).atToken) (.ite (fun _ => ?async) ?_)
  case async => exact (finishes_advance.bind fun _ => h.functionExpression _ _).atToken
  refine .ite (fun _ => (finishes_failAt t _).atToken) (.ite (fun ht => ?nested) ?_)
  case nested =>
    refine .advance (Token.ne_eof_of_isAny ht) ?_
    exact (h.expression.withIn.mono (by omega)).bind fun _ => (finishes_skip ")").bind fun _ =>
      finishes_build _ _
  refine .ite (fun _ => h.arrayLiteral.atToken) (.ite (fun _ => h.objectLiteral.atToken) ?_)
  refine .ite (fun ht => ?_) (finishes_failAt t _).atToken
  exact .advance (Token.ne_eof_of_isIdentifier ht) ((finishes_identOf _).bind fun _ => .pure _)

theorem indexTail (h : r.Finishing n) : Finishes 1 (n - 2) r.indexTail :=
  h.expression.withIn.bind fun _ => (finishes_skip "]").bind fun _ => .pure _

theorem constructorAccesses (h : r.Finishing n) (start : Span) {m : Nat} (callee : Node) (hk : k ≤ n)
    (hm : k ≤ 3 * m + 2) : Finishes 0 k (r.constructorAccesses start m callee) := by
  induction m generalizing k callee with
  | zero => exact .of_lt (by omega)
  | succ m ih =>
    refine .accept (finishes_word.bind fun _ => (finishes_build _ _).bind fun _ => ?_) (.accept ?_ (.pure _))
    · exact ih _ (by omega) (by omega)
    · refine (h.indexTail.mono (by omega)).bind fun _ => (finishes_build _ _).bind fun _ => ?_
      exact ih _ (by omega) (by omega)

theorem newExpression (h : r.Finishing n) : Finishes 1 n r.newExpression := by
  refine (finishes_expect "new").bind fun _ => .sees fun _ => .before (finishes_fail _) (.sees fun _ => ?_)
  extract_lets rest
  have hrest {k' : Nat} (hk : k' ≤ n) (callee : Node) : Finishes 0 k' (rest callee) := by
    refine (h.constructorAccesses _ _ hk (by rw [h.bound]; omega)).bind fun _ => .sees fun _ => ?_
    exact .ite ((h.arguments.mono hk).bind fun _ => finishes_build _ _)
      ((Finishes.pure _).bind fun _ => finishes_build _ _)
  refine .ite ((h.construction.mono (by omega)).bind fun _ => ?_) ((h.primary.mono (by omega)).bind fun _ => ?_)
  · exact hrest (by omega) _
  · exact hrest (by omega) _

theorem optionalAccess (h : r.Finishing n) (start : Span) (e : Node) :
    Finishes 0 (n - 2) (r.optionalAccess start e) := by
  refine .sees fun _ => .ite ((h.arguments.mono (by omega)).bind fun _ => finishes_build _ _) ?_
  refine .accept ((h.indexTail.mono (by omega)).bind fun _ => finishes_build _ _) ?_
  exact finishes_word.bind fun _ => finishes_build _ _

theorem accesses (h : r.Finishing n) (start : Span) {m : Nat} (e : Node) (hk : k ≤ n)
    (hm : k ≤ 3 * m + 2) : Finishes 0 k (r.accesses start m e) := by
  induction m generalizing k e with
  | zero => exact .of_lt (by omega)
  | succ m ih =>
    have hrest {k' : Nat} (hk' : k' ≤ k - 3) (e : Node) : Finishes 0 k' (r.accesses start m e) :=
      ih e (by omega) (by omega)
    refine .current fun t => ?_
    refine .ite (fun ht => .advance (Token.ne_eof_of_isAny ht) ?property) ?_
    case property =>
      exact finishes_word.bind fun _ => (finishes_build _ _).bind fun _ => hrest (by omega) _
    refine .ite (fun ht => .advance (Token.ne_eof_of_isAny ht) ?optional) ?_
    case optional =>
      exact ((h.optionalAccess _ _).mono (by omega)).bind fun _ => hrest (by omega) _
    refine .ite (fun ht => .advance (Token.ne_eof_of_isAny ht) ?index) ?_
    case index =>
      exact (h.indexTail.mono (by omega)).bind fun _ => (finishes_build _ _).bind fun _ =>
        hrest (by omega) _
    refine .ite (fun _ => Finishes.atToken ?call) (.ite (fun ht => ?nonNull) ?_)
    case call =>
      exact (h.arguments.mono hk).bind fun _ => (finishes_build _ _).bind fun _ => hrest (by omega) _
    case nonNull =>
      refine .advance (Token.ne_eof_of_isAny (Bool.and_eq_true_iff.mp ht).1) ?_
      exact (finishes_build _ _).bind fun _ => hrest (by omega) _
    exact .ite (fun _ => (finishes_failAt t _).atToken) (Finishes.pure _).atToken

theorem leftHandSide (h : r.Finishing n) : Finishes 1 n r.leftHandSide := by
  refine .current fun _ => Finishes.atToken (.sees fun _ => .ite ?_ ?_)
  · exact h.newExpression.bind fun _ => h.accesses _ _ (by omega) (by rw [h.bound]; omega)
  · exact h.primary.bind fun _ => h.accesses _ _ (by omega) (by rw [h.bound]; omega)

/-! ## Operators -/

theorem wordOperator (h : r.Finishing n) (f : Mark → Node → Node) (ht : t.kind ≠ .eof) :
    FinishesAt t 1 n (r.wordOperator f) :=
  .advance ht ((finishes_markFrom _).bind fun _ => (h.unary.mono (by omega)).bind fun _ => .pure _)

theorem unaryExpression (h : r.Finishing n) : Finishes 1 n r.unaryExpression := by
  refine .current fun t => .ite (fun ht => ?operator) ?_
  case operator =>
    refine .advance (Token.ne_eof_of_kind (Bool.and_eq_true_iff.mp ht).1 (by decide)) ?_
    exact (h.unary.mono (by omega)).bind fun _ => finishes_build _ _
  refine .ite (fun ht => h.wordOperator _ (Token.ne_eof_of_isAny ht)) ?_
  refine .ite (fun ht => h.wordOperator _ (Token.ne_eof_of_isAny ht)) ?_
  refine .ite (fun ht => h.wordOperator _ (Token.ne_eof_of_isAny ht)) (.peek fun _ => ?_)
  refine .ite (fun ht => h.wordOperator _ (Token.ne_eof_of_isAny (Bool.and_eq_true_iff.mp ht).1)) ?_
  refine Finishes.atToken (.ite (finishes_failAt t _) (h.leftHandSide.bind fun e => ?_))
  refine .current fun _ => Finishes.atToken (.ite ?_ (.pure e))
  exact finishes_advance.bind fun _ => finishes_build _ _

theorem assertedType (h : r.Finishing n) : Finishes 1 (n - 1) r.assertedType :=
  .current fun t => Finishes.atToken (.accept (finishes_buildAt t _) h.type)

theorem operations (h : r.Finishing n) (start : Span) (least : Nat) {m : Nat} (left : Node) (hk : k ≤ n)
    (hm : k ≤ 3 * m + 2) : Finishes 0 k (r.operations start least m left) := by
  induction m generalizing k left with
  | zero => exact .of_lt (by omega)
  | succ m ih =>
    have hrest {k' : Nat} (hk' : k' ≤ k - 3) (left : Node) :
        Finishes 0 k' (r.operations start least m left) :=
      ih left (by omega) (by omega)
    refine .current fun t => .ite (fun ht => ?assertion) ?_
    case assertion =>
      simp only [Bool.and_eq_true] at ht
      refine .advance (Token.ne_eof_of_kind ht.1.1.1 (by decide)) ?_
      exact (h.assertedType.mono (by omega)).bind fun _ => (finishes_build _ _).bind fun _ =>
        hrest (by omega) _
    split
    · exact (Finishes.pure _).atToken
    · refine .get fun s => ?_
      split
      · exact (Finishes.pure _).atToken
      rename_i hstop
      have hkind : t.kind ≠ .eof := by
        intro heof
        simp [heof] at hstop
      refine .advance hkind (((h.binary _).mono (by omega)).bind fun _ => ?_)
      exact (finishes_build _ _).bind fun _ => hrest (by omega) _

theorem binaryExpression (h : r.Finishing n) (least : Nat) : Finishes 1 n (r.binaryExpression least) := by
  refine .current fun _ => Finishes.atToken (h.unaryExpression.bind fun _ => ?_)
  exact h.operations _ _ _ (by omega) (by rw [h.bound]; omega)

theorem conditionalExpression (h : r.Finishing n) : Finishes 1 n r.conditionalExpression := by
  refine .current fun _ => Finishes.atToken ((h.binaryExpression 1).bind fun test => .accept ?_ (.pure test))
  exact (h.assignment.withIn.mono (by omega)).bind fun _ => (finishes_skip ":").bind fun _ =>
    (h.assignment.mono (by omega)).bind fun _ => finishes_build _ _

/-! ## Arrow functions -/

theorem arrowHead (h : r.Finishing n) : Finishes 1 n r.arrowHead :=
  h.typeParameters?.bind fun _ => h.parameters.bind fun _ => (h.resultType?.mono (by omega)).bind
    fun _ => .sees fun _ => .before (finishes_fail _) (.pure _)

theorem arrowBody (h : r.Finishing n) : Finishes 1 (n - 3) r.arrowBody := by
  refine .current fun t => Finishes.atToken (.ite (h.block.withIn.mono (by omega)) (.ite ?_ ?_))
  · exact h.statement.withIn.bind fun _ => (finishes_freshMark _).bind fun _ => .pure _
  · exact h.assignment.mono (by omega)

theorem arrowAsync : Finishes 0 k Rules.arrowAsync :=
  .peek fun _ => .sees fun _ => .peek fun _ => .ite (finishes_advance.bind fun _ => .pure _) (.pure _)

theorem arrowHead? (h : r.Finishing n) : Finishes 0 n r.arrowHead? := by
  refine .current fun _ => .peek fun _ => Finishes.atToken (.ite ?_ (.ite h.arrowHead.speculate (.pure _)))
  exact finishes_identifier.bind fun _ => (finishes_freshMark _).bind fun _ => .pure _

/-- An arrow function takes a token. Where there is none the parser goes back, and what comes then has as
much to read as before. -/
theorem arrowFunction? (h : r.Finishing n) {f : Option Node → Parser Node}
    (hsome : ∀ k e, Finishes 0 k (f (some e))) (hnone : Finishes 1 n (f none)) :
    Finishes 1 n (r.arrowFunction? >>= f) := by
  intro s hs hload
  simp only [Rules.arrowFunction?, bind_assoc]
  rw [current_bind, get_bind]
  refine (arrowAsync s hs (Nat.le_refl _)).bind fun isAsync s₁ _ hr₁ hg₁ => ?_
  have hless := hr₁.advances.load_le hr₁.standing
  have hhead := (h.arrowHead? s₁ hr₁.standing (by omega)).of_reaches hr₁ hg₁
  refine hhead.bind fun head s₂ _ hr₂ hg₂ => ?_
  cases head with
  | none =>
    have hadvances := hr₂.advances.rewind (Nat.le_refl s.pos) s₂.noIn
    have hr : Reaches s { s₂ with pos := s.pos } := by
      refine ⟨hadvances, hadvances.standing hs ?_⟩
      exact hadvances.tokens.size_eq.symm ▸ hs.sound.inside
    have hless := hr.advances.load_le hr.standing
    exact (hnone _ hr.standing (by omega)).of_reaches hr (Nat.le_refl _)
  | some head =>
    have hless := hr₂.advances.load_le hr₂.standing
    have hrest : Finishes 1 n (do
        if (← current).newlineBefore then fail .lineBreakBeforeArrow
        skip "=>"
        let body ← r.arrowBody
        some <$> build s.next.span (.arrow · head.params body head.result head.typeParams isAsync)) := by
      refine .current fun _ => Finishes.atToken (.before (finishes_fail _) ?_)
      exact (finishes_skip "=>").bind fun _ => (h.arrowBody.mono (by omega)).bind fun _ =>
        (finishes_build _ _).map _
    refine Outcome.of_reaches (g := 1) ?_ hr₂ (Nat.add_le_add_right hg₂ 1)
    refine hrest.bind (fun arrow => ?_) s₂ hr₂.standing (by omega)
    cases arrow with
    | none => exact hnone.forget.mono (by omega)
    | some e => exact hsome _ e

theorem assignmentExpression (h : r.Finishing n) : Finishes 1 n r.assignmentExpression := by
  refine h.arrowFunction? (fun k e => .pure e) (.current fun _ => Finishes.atToken ?_)
  refine h.conditionalExpression.bind fun left => .current fun _ => Finishes.atToken (.ite ?_ (.pure left))
  exact finishes_advance.bind fun _ => (h.assignment.mono (by omega)).bind fun _ => finishes_build _ _

theorem commaTail (h : r.Finishing n) (start : Span) {m : Nat} (left : Node) (hk : k ≤ n)
    (hm : k ≤ 3 * m + 2) : Finishes 0 k (r.commaTail start m left) := by
  induction m generalizing k left with
  | zero => exact .of_lt (by omega)
  | succ m ih =>
    refine .accept ((h.assignment.mono (by omega)).bind fun _ => ?_) (.pure left)
    exact (finishes_build _ _).bind fun _ => ih _ (by omega) (by omega)

theorem anyExpression (h : r.Finishing n) : Finishes 1 (n - 1) r.anyExpression := by
  refine .current fun _ => Finishes.atToken (h.assignment.bind fun _ => ?_)
  exact h.commaTail _ _ (by omega) (by rw [h.bound]; omega)

end ScriptBridge.TypeScript.Rules.Finishing
