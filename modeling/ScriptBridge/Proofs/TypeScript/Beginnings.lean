import ScriptBridge.Proofs.TypeScript.Grouping
import ScriptBridge.Proofs.TypeScript.Steps
import ScriptBridge.Proofs.TypeScript.AdvanceStatements

/-!
# Where expressions begin

An expression begins where the next token does when it is read, whatever it is made of: a rule that goes
on behind a left operand builds its nodes from the token that the operand starts with. What a rule for
unary expressions reads is no binary operation.

* `Rules.unaryExpression_operand`: unary expressions.
* `next_span_of_back`: where the parser stands when no arrow function came next.
* `Rules.assignmentExpression_begins`: assignments and all that binds more tightly.
-/

namespace ScriptBridge.TypeScript

open ScriptBridge.TypeScript.Parser

theorem advance_token {s s' : ParserState} {t : Token} (h : advance s = .ok t s') : t = s.next := by
  by_cases hk : s.next.kind = .eof
  · rw [advance_eof hk] at h
    cases h
    rfl
  · rw [advance_apply hk] at h
    cases h
    rfl

theorem expect_token {s s' : ParserState} {t : Token} {text : String}
    (h : expect text s = .ok t s') : t = s.next := by
  replace h : (if s.next.isAny [text] then advance else failAt s.next _ : Parser Token) s = .ok t s' := h
  split at h
  · exact advance_token h
  · cases h

/-! ## Tokens that stay -/

/-- The given words and operators cannot be split. -/
theorem Token.canSplit_of_isAny {t : Token} {texts : List String} (h : t.isAny texts = true)
    (htexts : ∀ text ∈ texts, text.toList.head? ≠ some '>') : t.canSplit = false := by
  have hmem : t.text ∈ texts := by
    simpa using (Bool.and_eq_true_iff.mp h).2
  simp [canSplit, htexts _ hmem]

theorem Keeps.advances {α : Type} {p : Parser α} (hp : Keeps p) {s s' : ParserState} {a : α}
    (h : p s = .ok a s') : Advances s s' := by
  have hkeeps := hp s
  rwa [h] at hkeeps

theorem Cut.span_eq {t t' : Token} (h : Cut t t') (ht : t.canSplit = false) : t'.span = t.span := by
  induction h with
  | same => rfl
  | angle h => exact absurd h (by simp [ht])
  | piece _ _ _ _ _ ih => exact ih ht

/-- A token that cannot be split is where it was when the parser goes back to it. -/
theorem next_span_of_back {s s' : ParserState} (h : Advances s s') (hpos : s'.pos = s.pos)
    (hnext : s.next.canSplit = false) : s'.next.span = s.next.span := by
  by_cases hinside : s.pos < s.tokens.size
  · have ht : s.tokens[s.pos]? = some s.tokens[s.pos] := Array.getElem?_eq_getElem hinside
    have hinside' : s.pos < s'.tokens.size := h.tokens.size_eq ▸ hinside
    have ht' : s'.tokens[s.pos]? = some s'.tokens[s.pos] := Array.getElem?_eq_getElem hinside'
    have hcut := h.tokens.cut _ _ _ ht ht'
    simp only [ParserState.next, hpos, ht, ht', Option.getD_some] at hnext ⊢
    exact hcut.span_eq hnext
  · have htokens : s'.tokens = s.tokens := by
      refine Array.ext h.tokens.size_eq fun i hi' hi => ?_
      have hbefore := h.tokens.before i (by omega)
      rwa [Array.getElem?_eq_getElem hi', Array.getElem?_eq_getElem hi, Option.some.injEq] at hbefore
    simp only [ParserState.next, hpos, htokens]

/-! ## Operands -/

/-- A node that begins at an offset and is no binary operation. -/
structure Node.OperandFrom (start : Nat) (e : Node) : Prop where
  begins : e.span.start = start
  whole : e.grouping = .operand e

section
variable {s : ParserState} {start : Span} {offset : Nat}

theorem upTo_start (start last : Span) : (start.upTo last).start = start.start := by
  unfold Span.upTo
  split <;> rfl

/-- A node that is built from a start begins there. -/
theorem answers_build {f : Mark → Node} (hmark : ∀ m, (f m).mark = m) :
    Answers s (build start f) fun e _ => e.span.start = start.start := by
  intro e s' h
  rw [build_apply] at h
  cases h
  rw [Node.span, hmark]
  exact upTo_start start _

theorem answers_build_operand {f : Mark → Node} (hstart : start.start = offset)
    (hmark : ∀ m, (f m).mark = m) (hwhole : ∀ m, (f m).grouping = .operand (f m)) :
    Answers s (build start f) fun e _ => e.OperandFrom offset := by
  intro e s' h
  refine ⟨(answers_build hmark e s' h).trans hstart, ?_⟩
  rw [build_apply] at h
  cases h
  exact hwhole _

theorem answers_buildAt {t : Token} {f : Mark → Node} (hstart : t.span.start = offset)
    (hmark : ∀ m, (f m).mark = m) (hwhole : ∀ m, (f m).grouping = .operand (f m)) :
    Answers s (buildAt t f) fun e _ => e.OperandFrom offset := by
  intro e s' h
  cases h
  exact ⟨by rw [Node.span, hmark, hstart], hwhole _⟩

/-- A node over the next token. -/
theorem answers_token {f : Mark → Node} (hmark : ∀ m, (f m).mark = m)
    (hwhole : ∀ m, (f m).grouping = .operand (f m)) :
    Answers s (do buildAt (← advance) f) fun e _ => e.OperandFrom s.next.span.start :=
  .bind fun _ _ ht => answers_buildAt (congrArg (·.span.start) (advance_token ht)) hmark hwhole

end

namespace Rules

variable {r : Rules} {s : ParserState} {start : Span} {offset : Nat}

theorem arrayLiteral_operand : Answers s r.arrayLiteral fun e _ => e.OperandFrom s.next.span.start :=
  .bind fun _ _ ht => .bind fun _ _ _ => .bind fun _ _ _ =>
    answers_build_operand (congrArg (·.span.start) (expect_token ht)) (fun _ => rfl) fun _ => rfl

theorem objectLiteral_operand : Answers s r.objectLiteral fun e _ => e.OperandFrom s.next.span.start :=
  .bind fun _ _ ht => .bind fun _ _ _ => .bind fun _ _ _ =>
    answers_build_operand (congrArg (·.span.start) (expect_token ht)) (fun _ => rfl) fun _ => rfl

theorem functionExpression_operand (hstart : start.start = offset) (isAsync : Bool) :
    Answers s (r.functionExpression start isAsync) fun e _ => e.OperandFrom offset := by
  refine .bind fun _ _ _ => .bind fun _ _ _ => .bind fun _ _ _ => ?_
  extract_lets rest
  have hrest (name : Option Ident) (s : ParserState) :
      Answers s (rest name) fun e _ => e.OperandFrom offset :=
    .bind fun _ _ _ => .bind fun _ _ _ => .bind fun _ _ _ => .bind fun _ _ _ =>
      answers_build_operand hstart (fun _ => rfl) fun _ => rfl
  exact .ite (.bind fun _ _ _ => hrest _ _) (.bind fun _ _ _ => hrest _ _)

theorem templateLiteral_operand :
    Answers s r.templateLiteral fun e _ => e.OperandFrom s.next.span.start := by
  refine .bind fun _ _ hget => .bind fun t _ ht => ?_
  cases hget
  have hstart : t.span.start = s.next.span.start := congrArg (·.span.start) (advance_token ht)
  refine .ite (answers_buildAt hstart (fun _ => rfl) fun _ => rfl) (.bind fun _ _ _ => ?_)
  exact answers_buildAt hstart (fun _ => rfl) fun _ => rfl

theorem primary_operand : Answers s r.primary fun e _ => e.OperandFrom s.next.span.start := by
  refine .current (.peek fun next => ?_)
  have token {f : Mark → Node} (hmark : ∀ m, (f m).mark = m)
      (hwhole : ∀ m, (f m).grouping = .operand (f m)) :
      Answers s (do buildAt (← advance) f) fun e _ => e.OperandFrom s.next.span.start :=
    answers_token hmark hwhole
  refine .ite (token (fun _ => rfl) fun _ => rfl) (.ite (token (fun _ => rfl) fun _ => rfl) ?_)
  refine .ite templateLiteral_operand (.ite (token (fun _ => rfl) fun _ => rfl) ?_)
  refine .ite (token (fun _ => rfl) fun _ => rfl) (.ite (token (fun _ => rfl) fun _ => rfl) ?_)
  refine .ite (functionExpression_operand rfl false) (.ite ?async (.ite (answers_failAt _ _) ?_))
  case async => exact .bind fun _ _ _ => functionExpression_operand rfl true
  refine .ite ?nested (.ite arrayLiteral_operand (.ite objectLiteral_operand ?_))
  case nested =>
    exact .bind fun _ _ _ => .bind fun _ _ _ => .bind fun _ _ _ =>
      answers_build_operand rfl (fun _ => rfl) fun _ => rfl
  refine .ite (.bind fun t _ ht => .bind fun i _ hi => ?_) (answers_failAt _ _)
  cases hi
  exact answers_pure ⟨congrArg (·.span.start) (advance_token ht), rfl⟩

theorem newExpression_operand : Answers s r.newExpression fun e _ => e.OperandFrom s.next.span.start := by
  refine .bind fun t _ ht => ?_
  have hstart : t.span.start = s.next.span.start := congrArg (·.span.start) (expect_token ht)
  refine .sees (.ite (.bind fun _ _ h => nomatch h) (.sees ?_))
  extract_lets rest
  have hrest (callee : Node) (s₁ : ParserState) :
      Answers s₁ (rest callee) fun e _ => e.OperandFrom s.next.span.start := by
    refine .bind fun _ _ _ => .sees (.ite (.bind fun _ _ _ => ?_) ?_)
    · exact answers_build_operand hstart (fun _ => rfl) fun _ => rfl
    · exact answers_build_operand hstart (fun _ => rfl) fun _ => rfl
  exact .ite (.bind fun _ _ _ => hrest _ _) (.bind fun _ _ _ => hrest _ _)

theorem optionalAccess_operand (hstart : start.start = offset) (e : Node) :
    Answers s (r.optionalAccess start e) fun e _ => e.OperandFrom offset := by
  have built {s : ParserState} {f : Mark → Node} (hmark : ∀ m, (f m).mark = m)
      (hwhole : ∀ m, (f m).grouping = .operand (f m)) :
      Answers s (build start f) fun e _ => e.OperandFrom offset :=
    answers_build_operand hstart hmark hwhole
  refine .sees (.ite (.bind fun _ _ _ => built (fun _ => rfl) fun _ => rfl) ?_)
  refine .bind fun _ _ _ => .ite (.bind fun _ _ _ => built (fun _ => rfl) fun _ => rfl) ?_
  exact .bind fun _ _ _ => built (fun _ => rfl) fun _ => rfl

theorem accesses_operand (hstart : start.start = offset) (n : Nat) {e : Node}
    (he : e.OperandFrom offset) : Answers s (r.accesses start n e) fun e _ => e.OperandFrom offset := by
  induction n generalizing e s with
  | zero => exact answers_throw _
  | succ n ih =>
    have built {s : ParserState} {f : Mark → Node} (hmark : ∀ m, (f m).mark = m)
        (hwhole : ∀ m, (f m).grouping = .operand (f m)) :
        Answers s (build start f >>= r.accesses start n) fun e _ => e.OperandFrom offset :=
      .bind fun e s₁ h => ih (answers_build_operand hstart hmark hwhole e s₁ h)
    refine .current ?_
    refine .ite ?property (.ite ?optional (.ite ?index (.ite ?call (.ite ?nonNull ?_))))
    case property => exact .bind fun _ _ _ => .bind fun _ _ _ => built (fun _ => rfl) fun _ => rfl
    case optional =>
      exact .bind fun _ _ _ => .bind fun e s₁ h => ih (optionalAccess_operand hstart _ e s₁ h)
    case index => exact .bind fun _ _ _ => .bind fun _ _ _ => built (fun _ => rfl) fun _ => rfl
    case call => exact .bind fun _ _ _ => built (fun _ => rfl) fun _ => rfl
    case nonNull => exact .bind fun _ _ _ => built (fun _ => rfl) fun _ => rfl
    exact .ite (answers_failAt _ _) (answers_pure he)

theorem leftHandSide_operand : Answers s r.leftHandSide fun e _ => e.OperandFrom s.next.span.start := by
  refine .current (.sees (.ite (.bind fun e s₁ h => ?_) (.bind fun e s₁ h => ?_)))
  · exact accesses_operand rfl _ (newExpression_operand e s₁ h)
  · exact accesses_operand rfl _ (primary_operand e s₁ h)

theorem wordOperator_operand {f : Mark → Node → Node} (hmark : ∀ m e, (f m e).mark = m)
    (hwhole : ∀ m e, (f m e).grouping = .operand (f m e)) :
    Answers s (r.wordOperator f) fun e _ => e.OperandFrom s.next.span.start := by
  refine .bind fun t s₁ ht => .bind fun m s₂ hm => .bind fun e s₃ _ => answers_pure ⟨?_, hwhole m e⟩
  have hbuilt : build t.span Node.this s₁ = .ok (.this m) s₂ := by
    simp only [build, Bind.bind, EStateM.bind, hm]
    rfl
  rw [Node.span, hmark, ← advance_token ht]
  exact answers_build (f := Node.this) (fun _ => rfl) _ _ hbuilt

/-- A unary expression begins where its first token does, and is no binary operation. -/
theorem unaryExpression_operand :
    Answers s r.unaryExpression fun e _ => e.OperandFrom s.next.span.start := by
  refine .current (.ite (.bind fun _ _ _ => .bind fun _ _ _ => ?_) ?_)
  · exact answers_build_operand rfl (fun _ => rfl) fun _ => rfl
  have word {f : Mark → Node → Node} (hmark : ∀ m e, (f m e).mark = m)
      (hwhole : ∀ m e, (f m e).grouping = .operand (f m e)) :
      Answers s (r.wordOperator f) fun e _ => e.OperandFrom s.next.span.start :=
    wordOperator_operand hmark hwhole
  refine .ite (word (fun _ _ => rfl) fun _ _ => rfl) (.ite (word (fun _ _ => rfl) fun _ _ => rfl) ?_)
  refine .ite (word (fun _ _ => rfl) fun _ _ => rfl) (.peek fun _ => ?_)
  refine .ite (word (fun _ _ => rfl) fun _ _ => rfl) (.ite (answers_failAt _ _) ?_)
  refine .bind fun e s₁ he => .current (.ite (.bind fun _ _ _ => ?_) ?_)
  · exact answers_build_operand rfl (fun _ => rfl) fun _ => rfl
  · exact answers_pure (leftHandSide_operand e s₁ he)

/-! ## Expressions of all kinds -/

theorem operations_begins {least : Nat} {left : Node} (hstart : start.start = offset)
    (hleft : left.span.start = offset) (n : Nat) :
    Answers s (r.operations start least n left) fun e _ => e.span.start = offset := by
  induction n generalizing left s with
  | zero => exact answers_throw _
  | succ n ih =>
    refine .current (.ite ?_ ?_)
    · refine .bind fun _ _ _ => .bind fun type _ _ => .then (answers_build fun m => ?_) fun _ _ he => ?_
      · split <;> rfl
      · exact ih (he.trans hstart)
    split
    · exact answers_pure hleft
    · refine .bind fun _ _ _ => .ite (answers_pure hleft) (.bind fun _ _ _ => .bind fun _ _ _ => ?_)
      exact .then (answers_build fun _ => rfl) fun _ _ he => ih (he.trans hstart)

theorem binaryExpression_begins (least : Nat) :
    Answers s (r.binaryExpression least) fun e _ => e.span.start = s.next.span.start :=
  .current (.bind fun left _ h => operations_begins rfl (unaryExpression_operand left _ h).begins _)

theorem conditionalExpression_begins :
    Answers s r.conditionalExpression fun e _ => e.span.start = s.next.span.start := by
  refine .current (.then (binaryExpression_begins 1) fun test s₁ htest => ?_)
  refine .bind fun _ _ _ => .ite ?_ (answers_pure htest)
  exact .bind fun _ _ _ => .bind fun _ _ _ => .bind fun _ _ _ => answers_build fun _ => rfl

theorem arrowAsync_stays :
    Answers s Rules.arrowAsync fun _ s' => s' = s ∨ s.next.canSplit = false := by
  refine .peek fun _ => .sees (.peek fun _ => .dite (fun hasync => ?_) (answers_pure (.inl rfl)))
  have hnext : s.next.isAny ["async"] = true := by simp_all
  exact .bind fun _ _ _ => answers_pure (.inr (Token.canSplit_of_isAny hnext (by decide)))

theorem arrowHead?_stays :
    Answers s r.arrowHead? fun head s' => head = none → s' = s ∨ s.next.canSplit = false := by
  refine .current (.peek fun _ => .ite ?_ (.dite (fun hnext => ?_) (answers_pure fun _ => .inl rfl)))
  · exact .bind fun _ _ _ => .bind fun _ _ _ => answers_pure nofun
  · exact fun _ _ _ _ => .inr (Token.canSplit_of_isAny hnext (by decide))

/-- An arrow function begins where it is read. Where none comes next, the next token starts where it
did. -/
theorem arrowFunction?_begins (h : r.Advancing) :
    Answers s r.arrowFunction? fun arrow s' => (∀ e ∈ arrow, e.span.start = s.next.span.start) ∧
      (arrow = none → s'.next.span.start = s.next.span.start) := by
  refine .current ?_
  show Answers s (Rules.arrowAsync >>= _) _
  refine .bind fun isAsync s₁ hasync => .bind fun head s₂ hhead => ?_
  cases head with
  | none =>
    have hkeeps := (Advancing.arrowAsync.advances hasync).trans (h.arrowHead?.advances hhead)
    have hstays : s₂ = s ∨ s.next.canSplit = false := by
      obtain rfl | hsplit := arrowAsync_stays isAsync s₁ hasync
      · exact arrowHead?_stays none s₂ hhead rfl
      · exact .inr hsplit
    refine .bind fun _ s₃ hback => answers_pure ⟨nofun, fun _ => ?_⟩
    cases hback
    obtain rfl | hsplit := hstays
    · rfl
    · exact congrArg (·.start) (next_span_of_back (hkeeps.rewind (Nat.le_refl _) _) rfl hsplit)
  | some head =>
    refine .current (.unless (fun _ _ h => nomatch h) (.bind fun _ _ _ => .bind fun _ _ _ => .map ?_))
    refine (answers_build fun _ => rfl).mono fun e _ he => ⟨fun e' he' => ?_, nofun⟩
    cases he'
    exact he

/-- An assignment begins where it is read. -/
theorem assignmentExpression_begins (h : r.Advancing) :
    Answers s r.assignmentExpression fun e _ => e.span.start = s.next.span.start := by
  refine .then (arrowFunction?_begins h) fun arrow s₁ ⟨hsome, hnone⟩ => ?_
  cases arrow with
  | some arrow => exact answers_pure (hsome arrow rfl)
  | none =>
    refine .current (.then conditionalExpression_begins fun left s₂ hleft => .current ?_)
    refine .ite (.bind fun _ _ _ => .bind fun _ _ _ => ?_) (answers_pure (hleft.trans (hnone rfl)))
    exact (answers_build fun _ => rfl).mono fun _ _ he => he.trans (hnone rfl)

end Rules

end ScriptBridge.TypeScript
