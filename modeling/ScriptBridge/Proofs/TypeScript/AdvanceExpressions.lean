import ScriptBridge.Proofs.TypeScript.AdvanceTypes

/-!
# Rules for expressions move on

Every rule for expressions only moves on if the rules one level of nesting further in do. A template is
the case apart: its substitutions are parsed as token lists of their own, and what has become of them is
put back into the token of the template.

* `Rules.Advancing.templateSpans`: the substitutions of a template.
* `Rules.Advancing.arrowHead`: the head of an arrow function.
* `Rules.Advancing.anyExpression`: any expression.
-/

namespace ScriptBridge.TypeScript.Rules.Advancing

open ScriptBridge.TypeScript.Parser

variable {r : Rules}

/-! ## Literals -/

theorem argument (h : r.Advancing) : Keeps r.argument :=
  keeps_current.bind fun _ => (keeps_accept "...").bind fun _ =>
    .ite (h.assignment.bind fun _ => keeps_build _ _) h.assignment

theorem arguments (h : r.Advancing) : Keeps r.arguments :=
  (keeps_skip "(").bind fun _ => (h.argument.commaUntil _ _).withIn.bind fun _ =>
    (keeps_skip ")").bind fun _ => keeps_pure _

theorem arrayItems (h : r.Advancing) (n : Nat) : Keeps (r.arrayItems n) := by
  induction n with
  | zero => exact keeps_throw _
  | succ n ih =>
    refine (keeps_sees "]").bind fun _ => .ite (keeps_pure _) (keeps_current.bind fun t => ?_)
    refine (keeps_accept ",").bind fun _ => .ite ?_ (h.argument.bind fun _ => ?_)
    · exact (keeps_buildAt t _).bind fun _ => ih.bind fun _ => keeps_pure _
    · exact (keeps_accept ",").bind fun _ => .ite (ih.bind fun _ => keeps_pure _) (keeps_pure _)

theorem arrayLiteral (h : r.Advancing) : Keeps r.arrayLiteral :=
  (keeps_expect "[").bind fun _ => (h.arrayItems _).withIn.bind fun _ =>
    (keeps_skip "]").bind fun _ => keeps_build _ _

theorem methodTail (h : r.Advancing) (start : Span) (name : Node) (kind : MethodKind)
    (isAsync isGenerator : Bool) : Keeps (r.methodTail start name kind isAsync isGenerator) :=
  h.typeParameters?.bind fun _ => h.parameters.bind fun _ => h.resultType?.bind fun _ =>
    h.block.withIn.bind fun _ => keeps_build _ _

theorem valueTail (h : r.Advancing) (start : Span) (name : Node) :
    Keeps (r.valueTail start name) := by
  refine (keeps_accept ":").bind fun _ => .ite (h.assignment.bind fun _ => keeps_build _ _) ?_
  cases name with
  | ident i =>
    refine .before (keeps_fail _) ((keeps_accept "=").bind fun _ => ?_)
    exact .ite (h.assignment.map.bind fun _ => keeps_build _ _) (keeps_build _ _)
  | _ => exact keeps_fail _

theorem objectMember (h : r.Advancing) : Keeps r.objectMember := by
  refine keeps_current.bind fun t => (keeps_accept "...").bind fun _ => .ite ?spread ?_
  case spread =>
    exact (keeps_markFrom _).bind fun _ => h.assignment.bind fun _ => keeps_pure _
  refine (keeps_peek 1).bind fun next => ?_
  extract_lets startsName rest
  have hrest (head : MethodKind × Bool) : Keeps (rest head) := by
    obtain ⟨kind, isAsync⟩ := head
    refine (keeps_accept "*").bind fun _ => h.propertyName.bind fun _ => ?_
    refine (keeps_seesAny _).bind fun _ => .ite (h.methodTail _ _ _ _ _) ?_
    exact .ite (keeps_fail _) (h.valueTail _ _)
  refine .ite ?_ (.ite ?_ ((keeps_pure _).bind hrest))
  · exact keeps_advance.bind fun _ => (keeps_pure _).bind hrest
  · exact keeps_advance.bind fun _ => (keeps_pure _).bind hrest

theorem objectLiteral (h : r.Advancing) : Keeps r.objectLiteral :=
  (keeps_expect _).bind fun _ => (h.objectMember.commaUntil _ _).withIn.bind fun _ =>
    (keeps_skip _).bind fun _ => keeps_build _ _

theorem functionExpression (h : r.Advancing) (start : Span) (isAsync : Bool) :
    Keeps (r.functionExpression start isAsync) := by
  refine (keeps_skip _).bind fun _ => (keeps_accept "*").bind fun _ => keeps_current.bind fun _ => ?_
  extract_lets rest
  have hrest (name : Option Ident) : Keeps (rest name) :=
    h.typeParameters?.bind fun _ => h.parameters.bind fun _ => h.resultType?.bind fun _ =>
      h.block.withIn.bind fun _ => keeps_build _ _
  exact .ite (keeps_identifier.map.bind hrest) (hrest none)

/-! ## Templates -/

theorem substitution (h : r.Advancing) : Keeps r.substitution := by
  refine keeps_current.bind fun _ => .before (keeps_fail _) ?_
  refine h.expression.bind fun _ => keeps_current.bind fun t => ?_
  exact .before (keeps_failAt t _) (keeps_pure _)

/-- The tokens of the `k`-th piece of the template at `i` are put back as a parser has left them. -/
theorem putBack {s₀ s inner : ParserState} (h : Advances s₀ s) {i k : Nat} (hi : s₀.pos ≤ i)
    {tokens : List Token} {literal : String} {rest : List (List Token × String)}
    (hinner : Advances { tokens := tokens.toArray, nextId := s.nextId } inner)
    (hrest : ∀ t, s.tokens[i]? = some t → t.pieces.drop k = (tokens, literal) :: rest) :
    let put (t : Token) : Token :=
      { t with pieces := t.pieces.set k (inner.tokens.toList, literal) }
    let s' := { s with nextId := inner.nextId, tokens := s.tokens.modify i put }
    Advances s₀ s' ∧ ∀ t, s'.tokens[i]? = some t → t.pieces.drop (k + 1) = rest := by
  intro put s'
  have hget (j : Nat) : s'.tokens[j]? = if i = j then s.tokens[j]?.map put else s.tokens[j]? :=
    Array.getElem?_modify
  refine ⟨⟨h.pos_le, h.tokens.trans (Nat.le_refl _) (allCut_of_one hi Array.size_modify ?_ ?_)⟩, ?_⟩
  · exact fun j hj => (hget j).trans (if_neg (Ne.symm hj))
  · intro t t' ht ht'
    rw [hget, if_pos rfl, ht] at ht'
    cases ht'
    have hk : t.pieces[k]? = some (tokens, literal) := by
      rw [← List.head?_drop, hrest t ht, List.head?_cons]
    refine .piece hk ?_ ?_ (.same _)
    · simpa using hinner.tokens.size_eq
    · intro j u u' hu hu'
      exact hinner.tokens.cut j u u' (by simpa using hu) (by simpa using hu')
  · intro t ht
    rw [hget, if_pos rfl] at ht
    obtain ⟨u, hu, rfl⟩ := Option.map_eq_some_iff.mp ht
    have hdrop : u.pieces.drop (k + 1) = rest := by
      rw [← List.drop_drop, hrest u hu, List.drop_one, List.tail_cons]
    simp only [put, List.drop_set, Nat.lt_succ_self, ↓reduceIte, hdrop]

/-- Parsing the substitutions of the template at `i`: its pieces from the `k`-th on are those that are
still to be parsed. -/
theorem templateSpans (h : r.Advancing) {s₀ s : ParserState} (hs : Advances s₀ s) {i k : Nat}
    (hi : s₀.pos ≤ i) {rest : List (List Token × String)}
    (hrest : ∀ t, s.tokens[i]? = some t → t.pieces.drop k = rest) :
    Advances s₀ (endState (r.templateSpans i k rest s)) := by
  induction rest generalizing k s with
  | nil => exact hs
  | cons piece rest ih =>
    obtain ⟨tokens, literal⟩ := piece
    have hinner := h.substitution { tokens := tokens.toArray, nextId := s.nextId }
    obtain ⟨hput, hnext⟩ := putBack hs hi hinner hrest
    unfold Rules.templateSpans
    refine Advances.bind ?_ fun e s₁ he h₁ => ?_
    · dsimp only
      cases hr : r.substitution { tokens := tokens.toArray, nextId := s.nextId } with
      | ok e inner =>
        rw [hr] at hput
        exact hput
      | error fault inner =>
        rw [hr] at hput
        exact hput
    · have hpieces : ∀ t, s₁.tokens[i]? = some t → t.pieces.drop (k + 1) = rest := by
        dsimp only at he
        cases hr : r.substitution { tokens := tokens.toArray, nextId := s.nextId } with
        | ok e inner =>
          rw [hr] at he hnext
          cases he
          exact hnext
        | error fault inner =>
          rw [hr] at he
          cases he
      refine .bind (h₁.trans (keeps_freshMark e.span s₁)) fun span s₂ hspan h₂ => ?_
      refine .bind (ih h₂ ?_) fun more s₃ _ h₃ => h₃
      cases hspan
      exact hpieces

/-- Taking a token gives the one at the place of the parser, and leaves all tokens alone. -/
theorem advance_ok {s s' : ParserState} {t : Token} (h : advance s = .ok t s') :
    s'.tokens = s.tokens ∧ ∀ u, s.tokens[s.pos]? = some u → t = u := by
  let u := (s.tokens[s.pos]?).getD (s.tokens.back?.getD default)
  have hstep : advance s = .ok u (if u.kind != .eof then { s with pos := s.pos + 1 } else s) := by
    show (if u.kind != .eof then _ else _ : Parser Token) s = _
    split <;> rfl
  obtain ⟨rfl, rfl⟩ := EStateM.Result.ok.inj (hstep.symm.trans h)
  refine ⟨by split <;> rfl, fun v hv => ?_⟩
  simp only [u, hv, Option.getD_some]

theorem templateLiteral (h : r.Advancing) : Keeps r.templateLiteral := by
  intro s
  show Advances s (endState ((advance >>= _) s))
  refine .bind (keeps_advance s) fun t s₁ ht h₁ => ?_
  obtain ⟨htokens, htoken⟩ := advance_ok ht
  show Advances s (endState ((if t.pieces.isEmpty then _ else _ : Parser Node) s₁))
  split
  · exact h₁.trans (keeps_buildAt t _ s₁)
  · refine .bind (h.templateSpans h₁ (Nat.le_refl _) fun u hu => ?_) fun spans s₂ _ h₂ => ?_
    · rw [htoken u (htokens ▸ hu), List.drop_zero]
    · exact h₂.trans (keeps_buildAt t _ s₂)

/-! ## Primary expressions and accesses -/

theorem primary (h : r.Advancing) : Keeps r.primary := by
  have token (f : Mark → Node) : Keeps (do buildAt (← advance) f) :=
    keeps_advance.bind fun t => keeps_buildAt t f
  refine keeps_current.bind fun t => (keeps_peek 1).bind fun next => ?_
  refine .ite (keeps_advance.bind fun _ => keeps_buildAt _ _) ?_
  refine .ite (keeps_advance.bind fun _ => keeps_buildAt _ _) ?_
  refine .ite h.templateLiteral (.ite (token _) (.ite (token _) (.ite (token _) ?_)))
  refine .ite (h.functionExpression _ _) (.ite ?async (.ite (keeps_failAt t _) ?_))
  case async => exact keeps_advance.bind fun _ => h.functionExpression _ _
  refine .ite ?nested (.ite h.arrayLiteral (.ite h.objectLiteral (.ite ?name (keeps_failAt t _))))
  case nested =>
    exact keeps_advance.bind fun _ => h.expression.withIn.bind fun _ =>
      (keeps_skip ")").bind fun _ => keeps_build _ _
  case name => exact keeps_advance.bind fun _ => (keeps_identOf _).bind fun _ => keeps_pure _

theorem indexTail (h : r.Advancing) : Keeps r.indexTail :=
  h.expression.withIn.bind fun _ => (keeps_skip "]").bind fun _ => keeps_pure _

theorem constructorAccesses (h : r.Advancing) (start : Span) (n : Nat) (callee : Node) :
    Keeps (r.constructorAccesses start n callee) := by
  induction n generalizing callee with
  | zero => exact keeps_throw _
  | succ n ih =>
    refine (keeps_accept ".").bind fun _ => .ite ?_ ((keeps_accept "[").bind fun _ => ?_)
    · exact keeps_word.bind fun _ => (keeps_build _ _).bind ih
    · exact .ite (h.indexTail.bind fun _ => (keeps_build _ _).bind ih) (keeps_pure _)

theorem newExpression (h : r.Advancing) : Keeps r.newExpression := by
  refine (keeps_expect "new").bind fun _ => (keeps_sees ".").bind fun _ => .before (keeps_fail _) ?_
  refine (keeps_sees "new").bind fun _ => ?_
  extract_lets rest
  have hrest (callee : Node) : Keeps (rest callee) := by
    refine (h.constructorAccesses _ _ _).bind fun _ => (keeps_sees "(").bind fun _ => ?_
    exact .ite (h.arguments.bind fun _ => keeps_build _ _) (keeps_build _ _)
  exact .ite (h.construction.bind hrest) (h.primary.bind hrest)

theorem optionalAccess (h : r.Advancing) (start : Span) (e : Node) :
    Keeps (r.optionalAccess start e) := by
  refine (keeps_sees "(").bind fun _ => .ite (h.arguments.bind fun _ => keeps_build _ _) ?_
  refine (keeps_accept "[").bind fun _ => .ite (h.indexTail.bind fun _ => keeps_build _ _) ?_
  exact keeps_word.bind fun _ => keeps_build _ _

theorem accesses (h : r.Advancing) (start : Span) (n : Nat) (e : Node) :
    Keeps (r.accesses start n e) := by
  induction n generalizing e with
  | zero => exact keeps_throw _
  | succ n ih =>
    refine keeps_current.bind fun t => ?_
    refine .ite ?property (.ite ?optional (.ite ?index (.ite ?call (.ite ?nonNull ?_))))
    case property => exact keeps_advance.bind fun _ => keeps_word.bind fun _ => (keeps_build _ _).bind ih
    case optional => exact keeps_advance.bind fun _ => (h.optionalAccess _ _).bind ih
    case index => exact keeps_advance.bind fun _ => h.indexTail.bind fun _ => (keeps_build _ _).bind ih
    case call => exact h.arguments.bind fun _ => (keeps_build _ _).bind ih
    case nonNull => exact keeps_advance.bind fun _ => (keeps_build _ _).bind ih
    exact .ite (keeps_failAt t _) (keeps_pure _)

theorem leftHandSide (h : r.Advancing) : Keeps r.leftHandSide := by
  refine keeps_current.bind fun _ => (keeps_sees "new").bind fun _ => ?_
  refine .ite (h.newExpression.bind fun _ => ?_) (h.primary.bind fun _ => ?_)
  · exact h.accesses _ _ _
  · exact h.accesses _ _ _

/-! ## Operators -/

theorem wordOperator (h : r.Advancing) (f : Mark → Node → Node) : Keeps (r.wordOperator f) :=
  keeps_advance.bind fun _ => (keeps_markFrom _).bind fun _ => h.unary.bind fun _ => keeps_pure _

theorem unaryExpression (h : r.Advancing) : Keeps r.unaryExpression := by
  refine keeps_current.bind fun t => .ite ?_ ?_
  · exact keeps_advance.bind fun _ => h.unary.bind fun _ => keeps_build _ _
  refine .ite (h.wordOperator _) (.ite (h.wordOperator _) (.ite (h.wordOperator _) ?_))
  refine (keeps_peek 1).bind fun _ => .ite (h.wordOperator _) (.ite (keeps_failAt t _) ?_)
  refine h.leftHandSide.bind fun e => keeps_current.bind fun _ => .ite ?_ (keeps_pure e)
  exact keeps_advance.bind fun _ => keeps_build _ _

theorem assertedType (h : r.Advancing) : Keeps r.assertedType :=
  keeps_current.bind fun t => (keeps_accept "const").bind fun _ => .ite (keeps_buildAt t _) h.type

theorem operations (h : r.Advancing) (start : Span) (least n : Nat) (left : Node) :
    Keeps (r.operations start least n left) := by
  induction n generalizing left with
  | zero => exact keeps_throw _
  | succ n ih =>
    refine keeps_current.bind fun t => .ite ?_ ?_
    · exact keeps_advance.bind fun _ => h.assertedType.bind fun _ => (keeps_build _ _).bind ih
    split
    · exact keeps_pure left
    · refine keeps_get.bind fun _ => .ite (keeps_pure left) ?_
      exact keeps_advance.bind fun _ => (h.binary _).bind fun _ => (keeps_build _ _).bind ih

theorem binaryExpression (h : r.Advancing) (least : Nat) : Keeps (r.binaryExpression least) :=
  keeps_current.bind fun _ => h.unaryExpression.bind fun _ => h.operations _ _ _ _

theorem conditionalExpression (h : r.Advancing) : Keeps r.conditionalExpression := by
  refine keeps_current.bind fun _ => (h.binaryExpression 1).bind fun test => ?_
  refine (keeps_accept "?").bind fun _ => .ite ?_ (keeps_pure test)
  exact h.assignment.withIn.bind fun _ => (keeps_skip ":").bind fun _ =>
    h.assignment.bind fun _ => keeps_build _ _

/-! ## Arrow functions -/

theorem arrowHead (h : r.Advancing) : Keeps r.arrowHead :=
  h.typeParameters?.bind fun _ => h.parameters.bind fun _ => h.resultType?.bind fun _ =>
    (keeps_sees "=>").bind fun _ => .before (keeps_fail _) (keeps_pure _)

theorem arrowBody (h : r.Advancing) : Keeps r.arrowBody := by
  refine keeps_current.bind fun t => .ite h.block.withIn (.ite ?_ h.assignment)
  exact h.statement.withIn.bind fun _ => (keeps_freshMark _).bind fun _ => keeps_pure _

theorem arrowAsync : Keeps Rules.arrowAsync := by
  refine (keeps_peek 1).bind fun _ => (keeps_sees "async").bind fun _ => (keeps_peek 2).bind fun _ => ?_
  exact .ite (keeps_advance.bind fun _ => keeps_pure _) (keeps_pure _)

theorem arrowHead? (h : r.Advancing) : Keeps r.arrowHead? := by
  refine keeps_current.bind fun _ => (keeps_peek 1).bind fun _ => .ite ?_ ?_
  · exact keeps_identifier.bind fun _ => (keeps_freshMark _).bind fun _ => keeps_pure _
  · exact .ite h.arrowHead.speculate (keeps_pure _)

/-- Where no arrow function comes next, the parser goes back to where it stood before `async`. -/
theorem arrowFunction? (h : r.Advancing) : Keeps r.arrowFunction? := by
  intro s
  refine keeps_current.bind_from (.refl s) fun _ s₁ h₁ => ?_
  show Advances s (endState ((Rules.arrowAsync >>= _) s₁))
  refine arrowAsync.bind_from h₁ fun isAsync s₂ h₂ => ?_
  refine h.arrowHead?.bind_from h₂ fun head s₃ h₃ => ?_
  cases head with
  | none => exact h₃.rewind h₁.pos_le s₃.noIn
  | some head =>
    refine h₃.trans (Keeps.bind keeps_current (fun _ => .before (keeps_fail _) ?_) s₃)
    exact (keeps_skip "=>").bind fun _ => h.arrowBody.bind fun _ => (keeps_build _ _).map

theorem assignmentExpression (h : r.Advancing) : Keeps r.assignmentExpression := by
  refine h.arrowFunction?.bind fun arrow => ?_
  cases arrow with
  | some arrow => exact keeps_pure arrow
  | none =>
    refine keeps_current.bind fun _ => h.conditionalExpression.bind fun left => ?_
    refine keeps_current.bind fun _ => .ite ?_ (keeps_pure left)
    exact keeps_advance.bind fun _ => h.assignment.bind fun _ => keeps_build _ _

theorem commaTail (h : r.Advancing) (start : Span) (n : Nat) (left : Node) :
    Keeps (r.commaTail start n left) := by
  induction n generalizing left with
  | zero => exact keeps_throw _
  | succ n ih =>
    refine (keeps_accept ",").bind fun _ => .ite ?_ (keeps_pure left)
    exact h.assignment.bind fun _ => (keeps_build _ _).bind ih

theorem anyExpression (h : r.Advancing) : Keeps r.anyExpression :=
  keeps_current.bind fun _ => h.assignment.bind fun _ => h.commaTail _ _ _

end ScriptBridge.TypeScript.Rules.Advancing
