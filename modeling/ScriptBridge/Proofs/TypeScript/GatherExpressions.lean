import ScriptBridge.Proofs.TypeScript.GatherTypes

/-!
# Rules for expressions gather their nodes

Every rule for expressions gathers the nodes of its answer if the rules one level of nesting further in do.
A rule that goes on behind a left operand keeps in mind where that operand starts. A template is the case
apart: the nodes of its substitutions are read from token lists of their own, which lie inside the one
token of the template.

* `Rules.Gathering.templateSpans`: the substitutions of a template.
* `Rules.Gathering.constructorAccesses`, `Rules.Gathering.accesses`: accesses that start with the word
  `new`, and those that start with their operand.
* `Rules.Gathering.anyExpression`: any expression.
-/

namespace ScriptBridge.TypeScript.Rules.Gathering

open ScriptBridge.TypeScript.Parser

variable {r : Rules} {s₀ s : ParserState} {start : Span}

/-! ## The order of parts -/

/-- Nodes read behind others that stand in front of them among the children. -/
theorem perm_tail (front middle back : List Node) :
    (front ++ middle ++ back).Perm (front ++ back ++ middle) := by
  simpa only [List.append_assoc] using List.perm_append_comm.append_left front

/-- The parts of a function: its children, and the order in which they are read. -/
theorem perm_signature (front params body result typeParams : List Node) :
    (front ++ params ++ body ++ result ++ typeParams).Perm
      (front ++ typeParams ++ params ++ result ++ body) := by
  have hbody : (front ++ params ++ body ++ result ++ typeParams).Perm
      (front ++ (params ++ result ++ body) ++ typeParams) := by
    simpa only [List.append_assoc] using (perm_tail (front ++ params) body result).append_right typeParams
  have htypes := hbody.trans (perm_tail front (params ++ result ++ body) typeParams)
  simpa only [List.append_assoc] using htypes

/-- The parts of a function with a body. -/
theorem perm_function (front params : List Node) (body : Node) (result typeParams : List Node) :
    (front ++ params ++ body :: result ++ typeParams).Perm
      (front ++ typeParams ++ params ++ result ++ [body]) := by
  rw [List.append_cons]
  exact perm_signature front params [body] result typeParams

/-! ## Literals -/

theorem argument (h : r.Gathering) : Collects true r.argument ([·]) := by
  intro s hs
  have g := Gathered.begin hs
  refine .current (g.accept (fun _ g => ?_) (g.last h.assignment))
  exact g.read h.assignment fun _ _ _ g => g.build rfl fun _ => rfl

theorem arguments (h : r.Gathering) : Collects true r.arguments fun ns => ns := by
  intro s hs
  refine (Gathered.begin hs).pass (collects_skip "(") fun _ _ _ g => ?_
  refine g.read (h.argument.commaUntil _ _).withIn fun _ _ _ g => ?_
  exact g.pass (collects_skip ")") fun _ _ _ g => answers_pure g

theorem arrayItems (h : r.Gathering) (n : Nat) : Collects false (r.arrayItems n) fun ns => ns := by
  induction n with
  | zero => exact fun _ _ => answers_throw _
  | succ n ih =>
    intro s hs
    have g := Gathered.begin hs
    refine .sees (.ite (answers_pure g) (.current (g.accept (fun hk _ => ?hole) ?_)))
    case hole =>
      exact .then (g.buildAt hk fun _ => rfl) fun _ _ g => g.read ih fun _ _ _ g => answers_pure g.forget
    refine g.read h.argument fun _ _ _ g => g.pass (collects_accept ",") fun _ _ _ g => ?_
    exact .ite (g.read ih fun _ _ _ g => answers_pure g.forget) (answers_pure g.forget)

theorem arrayLiteral (h : r.Gathering) : Collects true r.arrayLiteral ([·]) := by
  intro s hs
  refine (Gathered.begin hs).pass (collects_expect _) fun t _ ht g => ?_
  refine g.read (h.arrayItems _).withIn fun _ _ _ g => g.pass (collects_skip _) fun _ _ _ g => ?_
  exact g.build (by rw [expect_token ht]; rfl) fun _ => rfl

theorem methodTail (h : r.Gathering) {name : Node} (g : Gathered true s₀ s [name])
    (hstart : start.start = s₀.ahead) (kind : MethodKind) (isAsync isGenerator : Bool) :
    Answers s (r.methodTail start name kind isAsync isGenerator) fun e s' =>
      Gathered true s₀ s' [e] := by
  refine g.pass h.typeParameters? fun _ _ _ g => g.read h.parameters fun params _ _ g => ?_
  refine g.read h.resultType? fun result _ _ g => g.read h.block.withIn fun body _ _ g => ?_
  have hperm := perm_function [name] params body result.toList []
  rw [List.append_nil] at hperm
  exact g.buildFrom hstart hperm fun _ => rfl

theorem valueTail (h : r.Gathering) {name : Node} (g : Gathered true s₀ s [name])
    (hstart : start.start = s₀.ahead) :
    Answers s (r.valueTail start name) fun e s' => Gathered true s₀ s' [e] := by
  refine g.pass (collects_accept ":") fun _ _ _ g => .ite ?_ ?_
  · exact g.read h.assignment fun _ _ _ g => g.build hstart fun _ => rfl
  cases name with
  | ident i =>
    refine .unless (fun _ _ h => nomatch h) (g.pass (collects_accept "=") fun _ _ _ g => .ite ?_ ?_)
    · exact g.read h.assignment.some fun _ _ _ g => g.build hstart fun _ => rfl
    · exact .pure_bind (g.build hstart fun _ => rfl)
  | _ => exact answers_fail _

theorem objectMember (h : r.Gathering) : Collects true r.objectMember ([·]) := by
  intro s hs
  have g := Gathered.begin hs
  refine .current (g.accept (fun _ g => ?spread) (.peek fun next => ?_))
  case spread =>
    refine g.mark fun mark s₁ hspan g => .bind fun e s₂ he => answers_pure ?_
    exact g.early rfl (h.assignment s₁ g.sound e s₂ he) hspan rfl rfl rfl
  extract_lets startsName rest
  have hrest (form : MethodKind × Bool) {s' : ParserState} (g : Gathered false s s' []) :
      Answers s' (rest form) fun e s' => Gathered true s s' [e] := by
    obtain ⟨kind, isAsync⟩ := form
    refine g.pass (collects_accept "*") fun _ _ _ g => g.read h.propertyName fun _ _ _ g => ?_
    exact .seesAny (.ite (h.methodTail g rfl _ _ _) (.ite (answers_fail _) (h.valueTail g rfl)))
  clear_value rest
  refine .ite ?_ (.ite ?_ (.pure_bind (hrest _ g)))
  · exact g.pass collects_advance fun _ _ _ g => .pure_bind (hrest _ g)
  · exact g.pass collects_advance fun _ _ _ g => .pure_bind (hrest _ g)

theorem objectLiteral (h : r.Gathering) : Collects true r.objectLiteral ([·]) := by
  intro s hs
  refine (Gathered.begin hs).pass (collects_expect _) fun t _ ht g => ?_
  refine g.read (h.objectMember.commaUntil _ _).withIn fun _ _ _ g => ?_
  exact g.pass (collects_skip _) fun _ _ _ g => g.build (by rw [expect_token ht]; rfl) fun _ => rfl

theorem functionExpression (h : r.Gathering) {m : Bool} (g : Gathered m s₀ s [])
    (hstart : start.start = s₀.ahead) (isAsync : Bool) :
    Answers s (r.functionExpression start isAsync) fun e s' => Gathered true s₀ s' [e] := by
  refine g.pass (collects_skip _) fun _ _ _ g => g.pass (collects_accept "*") fun _ _ _ g => .current ?_
  extract_lets rest
  have hrest (name : Option Ident) {s' : ParserState}
      (g : Gathered true s₀ s' (name.toList.map .ident)) :
      Answers s' (rest name) fun e s' => Gathered true s₀ s' [e] := by
    refine g.read h.typeParameters? fun typeParams _ _ g => g.read h.parameters fun params _ _ g => ?_
    refine g.read h.resultType? fun result _ _ g => g.read h.block.withIn fun body _ _ g => ?_
    have hperm := perm_function (name.toList.map .ident) params body result.toList typeParams
    exact g.buildFrom hstart hperm fun _ => rfl
  refine .ite ?_ (.pure_bind (hrest none g))
  have hname : Collects true (some <$> identifier) fun name => name.toList.map Node.ident :=
    collects_identifier.map
  exact g.read hname fun name _ _ g => hrest name g

/-! ## Templates -/

theorem substitution (h : r.Gathering) : Collects true r.substitution ([·]) := by
  intro s hs
  refine .current (.unless (fun _ _ h => nomatch h) ?_)
  refine (Gathered.begin hs).read h.expression fun _ _ _ g => .current ?_
  exact .unless (fun _ _ h => nomatch h) (answers_pure g)

/-- The nodes of substitutions lie where their tokens do. -/
theorem templateSpans (h : r.Gathering) {i k a b : Nat} {pieces : List (List Token × String)}
    (hframed : Framed a b pieces) (hsturdy : ∀ u ∈ innerTokens pieces, u.Sturdy) :
    Answers s (r.templateSpans i k pieces) fun spans s' => s'.pos = s.pos ∧ Laid none a b spans := by
  induction pieces generalizing a k s with
  | nil => exact answers_pure ⟨rfl, .nil⟩
  | cons piece pieces ih =>
    obtain ⟨tokens, literal⟩ := piece
    let inner : ParserState := { tokens := tokens.toArray, nextId := s.nextId }
    have hinner : inner.Sound := ParserState.sound_of_framed hframed hsturdy s.nextId
    obtain ⟨hwithin, hapart, hends⟩ := hframed
    have hendss := (List.forall_mem_cons.mp hends).2
    obtain ⟨-, hpieces, hbetween⟩ := List.pairwise_append.mp hapart
    have hsturdies := (List.forall_mem_append.mp hsturdy).2
    obtain ⟨hwithin, hwithins⟩ := List.forall_mem_append.mp hwithin
    refine .bind fun e s₁ he => .bind fun mark s₂ hmark => .bind fun more s₃ hmore => ?_
    dsimp only at he
    cases hr : r.substitution inner with
    | error fault inner' =>
      rw [hr] at he
      cases he
    | ok e' inner' =>
      rw [hr] at he
      cases he
      cases hmark
      have g := h.substitution inner hinner e inner' hr
      -- what the substitution reaches is inside the template, and before the tokens of the others
      have hstop : inner'.reached ≤ b :=
        g.advances.reached_le_of_stop_le hinner g.sound fun u hu => (hwithin u hu).2
      have hbefore (v : Token) (hv : v ∈ innerTokens pieces) : inner'.reached ≤ v.span.start :=
        g.advances.reached_le_of_stop_le hinner g.sound fun u hu => hbetween u hu v hv
      have hstart : a ≤ inner.ahead :=
        (hwithin _ (Array.mem_toList_iff.mpr (Array.mem_of_getElem? hinner.getElem?_pos))).1
      have hframed : Framed inner'.reached b pieces :=
        ⟨fun v hv => ⟨hbefore v hv, (hwithins v hv).2⟩, hpieces, hendss⟩
      obtain ⟨hpos, hmore⟩ := ih hframed hsturdies more s₃ hmore
      refine answers_pure ⟨hpos, ?_⟩
      have hspan := g.wrap (n := .templateSpan ⟨inner'.nextId, e.span⟩ e literal) rfl rfl rfl rfl
      have hle : inner.ahead ≤ inner'.reached := hspan.start_le_reached
      exact (hspan.laid.append hmore hle (Nat.le_refl _) hstop).mono hstart (Nat.le_refl b)

theorem templateLiteral (h : r.Gathering) (hs : s.Sound) (hk : s.next.kind = .template) :
    Answers s r.templateLiteral fun e s' => Gathered true s s' [e] := by
  have hkind : s.next.kind ≠ .eof := by
    rw [hk]
    decide
  have g := Gathered.begin hs
  show Answers s (advance >>= _) _
  refine g.take hkind fun g => .ite ((Gathered.begin hs).buildAt hkind fun _ => rfl) ?_
  refine .bind fun spans s₂ hspans => ?_
  have hpieces (t : Token) (ht : s.tokens[s.pos]? = some t) : t.pieces.drop 0 = s.next.pieces := by
    cases hs.getElem?_pos.symm.trans ht
    exact List.drop_zero
  have hadvances : Advances s s₂ := by
    have hkeeps := h.advancing.templateSpans g.advances (Nat.le_refl s.pos) hpieces
    rwa [hspans] at hkeeps
  obtain ⟨hpos, hlaid⟩ :=
    templateSpans h (hs.next_sturdy.framed hk) (hs.next_sturdy.inner hk) spans s₂ hspans
  have hinside : s₂.pos < s₂.tokens.size := by
    rw [hpos, hadvances.tokens.size_eq]
    exact g.sound.inside
  have hmoved : s.pos < s₂.pos := by
    rw [hpos]
    exact Nat.lt_succ_self _
  have g₂ : Gathered true s s₂ [] := ⟨hadvances, hs, hadvances.sound hs hinside, fun _ => hmoved, .nil⟩
  intro e s' h
  cases h
  let n : Node := .template ⟨s₂.nextId, s.next.span⟩ s.next.head spans
  have hnests : n.Nests :=
    Laid.nests (n := n) hlaid hs.next_sturdy.ordered (.refl _) rfl
  refine (g₂.single (n := n) (.of_children hnests nofun hlaid.placed) (Nat.le_refl _) ?_).congr rfl rfl
  exact hadvances.stop_le_reached hs g₂.sound hmoved

/-! ## Primary expressions -/

theorem primary (h : r.Gathering) : Collects true r.primary ([·]) := by
  intro s hs
  have g := Gathered.begin hs
  refine .current (.peek fun _ => ?_)
  refine .dite (fun hk => g.token (Token.ne_eof_of_kind hk nofun) fun _ => rfl) ?_
  refine .dite (fun hk => g.token (Token.ne_eof_of_kind hk nofun) fun _ => rfl) ?_
  refine .dite (fun hk => h.templateLiteral hs (eq_of_beq hk)) ?_
  refine .dite (fun hk => g.token (Token.ne_eof_of_isAny hk) fun _ => rfl) ?_
  refine .dite (fun hk => g.token (Token.ne_eof_of_isAny hk) fun _ => rfl) ?_
  refine .dite (fun hk => g.token (Token.ne_eof_of_isAny hk) fun _ => rfl) ?_
  refine .ite (h.functionExpression g rfl false) (.ite ?async (.ite (answers_failAt _ _) ?_))
  case async => exact g.pass collects_advance fun _ _ _ g => h.functionExpression g rfl true
  refine .ite ?nested (.ite (g.last h.arrayLiteral) (.ite (g.last h.objectLiteral) ?_))
  case nested =>
    refine g.pass collects_advance fun _ _ _ g => g.read h.expression.withIn fun _ _ _ g => ?_
    exact g.pass (collects_skip ")") fun _ _ _ g => g.build rfl fun _ => rfl
  refine .dite (fun hname => ?_) (answers_failAt _ _)
  have hkind : s.next.kind ≠ .eof := Token.ne_eof_of_kind (Bool.and_eq_true_iff.mp hname).1 nofun
  exact g.take hkind fun _ => .then (g.identOf hkind) fun _ _ g => answers_pure g

theorem indexTail (h : r.Gathering) : Collects true r.indexTail ([·]) := by
  intro s hs
  refine (Gathered.begin hs).read h.expression.withIn fun _ _ _ g => ?_
  exact g.pass (collects_skip "]") fun _ _ _ g => answers_pure g

/-! ## Accesses -/

/-- The accesses in the head of a `new` expression start with it. -/
theorem constructorAccesses (h : r.Gathering) (n : Nat) {callee : Node}
    (g : Gathered true s₀ s [callee] (some s₀.ahead)) (hstart : start.start = s₀.ahead) :
    Answers s (r.constructorAccesses start n callee) fun e s' =>
      Gathered true s₀ s' [e] (some s₀.ahead) := by
  induction n generalizing callee s with
  | zero => exact answers_throw _
  | succ n ih =>
    refine g.pass (collects_accept ".") fun _ _ _ g => .ite ?_ ?_
    · refine g.read collects_word fun _ _ _ g => ?_
      exact .then (g.buildHead hstart (fun _ => rfl) fun _ _ => rfl) fun _ _ g => ih g
    refine g.pass (collects_accept "[") fun _ _ _ g => .ite ?_ (answers_pure g)
    refine g.read h.indexTail fun _ _ _ g => ?_
    exact .then (g.buildHead hstart (fun _ => rfl) fun _ _ => rfl) fun _ _ g => ih g

theorem newExpression (h : r.Gathering) : Collects true r.newExpression ([·]) := by
  intro s hs
  refine (Gathered.begin hs).pass (collects_expect "new") fun t _ ht g => .sees ?_
  have hstart : t.span.start = s.ahead := by rw [expect_token ht]; rfl
  refine .unless (fun _ _ h => nomatch h) (.sees ?_)
  extract_lets rest
  have hrest (callee : Node) {s' : ParserState} (g : Gathered true s s' [callee]) :
      Answers s' (rest callee) fun e s' => Gathered true s s' [e] := by
    refine .then (h.constructorAccesses _ (g.atHead _) hstart) fun callee _ g => .sees ?_
    refine .ite (g.read h.arguments fun _ _ _ g => ?_) (.pure_bind ?_)
    · exact g.buildHead hstart (fun _ => rfl) fun _ hm => congrArg some hm
    · exact g.buildHead hstart (fun _ => rfl) fun _ hm => congrArg some hm
  refine .ite (g.read h.construction fun _ _ _ g => hrest _ g) (g.read h.primary fun _ _ _ g => hrest _ g)

theorem optionalAccess (h : r.Gathering) {e : Node} (grown : Grown s₀ s e)
    (hstart : start.start = s₀.ahead) :
    Answers s (r.optionalAccess start e) fun e s' => Grown s₀ s' e := by
  obtain ⟨g, hbegins⟩ := grown
  refine .sees (.ite (g.read h.arguments fun _ _ _ g => g.buildAround hstart hbegins fun _ => rfl) ?_)
  refine g.pass (collects_accept "[") fun _ _ _ g => .ite ?_ ?_
  · exact g.read h.indexTail fun _ _ _ g => g.buildAround hstart hbegins fun _ => rfl
  · exact g.read collects_word fun _ _ _ g => g.buildAround hstart hbegins fun _ => rfl

/-- All other accesses start with their operand. -/
theorem accesses (h : r.Gathering) (n : Nat) {e : Node} (grown : Grown s₀ s e)
    (hstart : start.start = s₀.ahead) :
    Answers s (r.accesses start n e) fun e s' => Grown s₀ s' e := by
  induction n generalizing e s with
  | zero => exact answers_throw _
  | succ n ih =>
    obtain ⟨g, hbegins⟩ := grown
    refine .current ?_
    refine .ite ?property (.ite ?optional (.ite ?index (.ite ?call (.ite ?nonNull ?_))))
    case property =>
      refine g.pass collects_advance fun _ _ _ g => g.read collects_word fun _ _ _ g => ?_
      exact .then (g.buildAround hstart hbegins fun _ => rfl) fun _ _ grown => ih grown
    case optional =>
      refine g.pass collects_advance fun _ _ _ g => ?_
      exact .then (h.optionalAccess ⟨g, hbegins⟩ hstart) fun _ _ grown => ih grown
    case index =>
      refine g.pass collects_advance fun _ _ _ g => g.read h.indexTail fun _ _ _ g => ?_
      exact .then (g.buildAround hstart hbegins fun _ => rfl) fun _ _ grown => ih grown
    case call =>
      refine g.read h.arguments fun _ _ _ g => ?_
      exact .then (g.buildAround hstart hbegins fun _ => rfl) fun _ _ grown => ih grown
    case nonNull =>
      refine g.pass collects_advance fun _ _ _ g => ?_
      exact .then (g.buildAround hstart hbegins fun _ => rfl) fun _ _ grown => ih grown
    exact .ite (answers_failAt _ _) (answers_pure ⟨g, hbegins⟩)

theorem leftHandSide (h : r.Gathering) (hs : s.Sound) :
    Answers s r.leftHandSide fun e s' => Grown s s' e := by
  have g := Gathered.begin hs
  refine .current (.sees (.ite ?_ ?_))
  · refine g.read h.newExpression fun e s₁ he g => h.accesses _ ⟨g, ?_⟩ rfl
    exact (newExpression_operand e s₁ he).begins
  · refine g.read h.primary fun e s₁ he g => h.accesses _ ⟨g, ?_⟩ rfl
    exact (primary_operand e s₁ he).begins

/-! ## Operators -/

/-- The region of a word operator ends before its operand. -/
theorem wordOperator (h : r.Gathering) {f : Mark → Node → Node} (hs : s.Sound)
    (hkind : s.next.kind ≠ .eof) (hf : ∀ m e, (f m e).parts = (m, [e], none, true)) :
    Answers s (r.wordOperator f) fun e s' => Gathered true s s' [e] := by
  refine (Gathered.begin hs).take hkind fun g => g.mark fun mark s₁ hspan g => ?_
  refine .bind fun e s₂ he => answers_pure ?_
  obtain ⟨hmark, hchildren, hleft, hearly⟩ := Node.parts_eq.mp (hf mark e)
  refine g.early rfl (h.unary s₁ g.sound e s₂ he) ?_ hchildren hearly hleft
  rw [Node.span, hmark, hspan]

theorem unaryExpression (h : r.Gathering) : Collects true r.unaryExpression ([·]) := by
  intro s hs
  have g := Gathered.begin hs
  refine .current (.ite ?_ ?_)
  · refine g.pass collects_advance fun _ _ _ g => g.read h.unary fun _ _ _ g => ?_
    exact g.build rfl fun _ => rfl
  refine .dite (fun hk => h.wordOperator hs (Token.ne_eof_of_isAny hk) fun _ _ => rfl) ?_
  refine .dite (fun hk => h.wordOperator hs (Token.ne_eof_of_isAny hk) fun _ _ => rfl) ?_
  refine .dite (fun hk => h.wordOperator hs (Token.ne_eof_of_isAny hk) fun _ _ => rfl) (.peek fun _ => ?_)
  refine .dite (fun hk => ?await) (.ite (answers_failAt _ _) ?_)
  case await =>
    exact h.wordOperator hs (Token.ne_eof_of_isAny (Bool.and_eq_true_iff.mp hk).1) fun _ _ => rfl
  refine .then (h.leftHandSide hs) fun e s₁ ⟨g, hbegins⟩ => .current (.ite ?_ (answers_pure g))
  refine g.pass collects_advance fun _ _ _ g => ?_
  exact .mono (g.buildAround rfl hbegins fun _ => rfl) fun _ _ grown => grown.gathered

theorem assertedType (h : r.Gathering) : Collects true r.assertedType ([·]) := by
  intro s hs
  have g := Gathered.begin hs
  exact .current (g.accept (fun hk _ => g.buildAt hk fun _ => rfl) (g.last h.type))

theorem operations (h : r.Gathering) (least n : Nat) {left : Node} (grown : Grown s₀ s left)
    (hstart : start.start = s₀.ahead) :
    Answers s (r.operations start least n left) fun e s' => Grown s₀ s' e := by
  induction n generalizing left s with
  | zero => exact answers_throw _
  | succ n ih =>
    obtain ⟨g, hbegins⟩ := grown
    refine .current (.ite ?_ ?_)
    · refine g.pass collects_advance fun _ _ _ g => g.read h.assertedType fun _ _ _ g => ?_
      refine .then ?_ fun _ _ grown => ih grown
      split
      · exact g.buildAround hstart hbegins fun _ => rfl
      · exact g.buildAround hstart hbegins fun _ => rfl
    split
    · exact answers_pure ⟨g, hbegins⟩
    · show Answers s (if _ then _ else _) _
      refine .ite (answers_pure ⟨g, hbegins⟩) (g.pass collects_advance fun _ _ _ g => ?_)
      refine g.read (h.binary _) fun _ _ _ g => ?_
      exact .then (g.buildAround hstart hbegins fun _ => rfl) fun _ _ grown => ih grown

theorem binaryExpression (h : r.Gathering) (least : Nat) :
    Collects true (r.binaryExpression least) ([·]) := by
  intro s hs
  refine .current ((Gathered.begin hs).read h.unaryExpression fun left s₁ hleft g => ?_)
  refine (h.operations _ _ ⟨g, ?_⟩ rfl).mono fun _ _ grown => grown.gathered
  exact (unaryExpression_operand left s₁ hleft).begins

theorem conditionalExpression (h : r.Gathering) : Collects true r.conditionalExpression ([·]) := by
  intro s hs
  refine .current ((Gathered.begin hs).read (h.binaryExpression 1) fun test s₁ htest g => ?_)
  refine g.pass (collects_accept "?") fun _ _ _ g => .ite ?_ (answers_pure g)
  refine g.read h.assignment.withIn fun _ _ _ g => g.pass (collects_skip ":") fun _ _ _ g => ?_
  refine g.read h.assignment fun _ _ _ g => ?_
  have hbegins := binaryExpression_begins 1 test s₁ htest
  exact .mono (g.buildAround rfl hbegins fun _ => rfl) fun _ _ grown => grown.gathered

/-! ## Arrow functions -/

/-- The nodes of the head of an arrow function, in the order in which they are read. -/
def headNodes (head : ArrowHead) : List Node :=
  head.typeParams ++ head.params ++ head.result.toList

theorem arrowHead (h : r.Gathering) : Collects true r.arrowHead headNodes := by
  intro s hs
  refine (Gathered.begin hs).read h.typeParameters? fun _ _ _ g => g.read h.parameters fun _ _ _ g => ?_
  refine g.read h.resultType? fun _ _ _ g => .sees (.unless (fun _ _ h => nomatch h) ?_)
  exact answers_pure g

theorem arrowBody (h : r.Gathering) : Collects true r.arrowBody ([·]) := by
  intro s hs
  have g := Gathered.begin hs
  refine .current (.ite (g.last h.block.withIn) (.ite ?_ (g.last h.assignment)))
  refine g.read h.statement.withIn fun statement s₁ _ g => .bind fun mark s₂ hmark => ?_
  cases hmark
  let n : Node := .block ⟨s₁.nextId, statement.span⟩ [statement]
  exact answers_pure ((g.wrap (n := n) rfl rfl rfl rfl).congr rfl rfl)

theorem arrowAsync : Collects false Rules.arrowAsync fun _ => [] := by
  intro s hs
  have g := Gathered.begin hs
  refine .peek fun _ => .sees (.peek fun _ => .ite ?_ (answers_pure g))
  exact g.pass collects_advance fun _ _ _ g => answers_pure g

theorem arrowHead? (h : r.Gathering) :
    Collects false r.arrowHead? fun head => head.elim [] headNodes := by
  intro s hs
  have g := Gathered.begin hs
  refine .current (.peek fun _ => .ite ?_ (.ite ?_ (answers_pure g)))
  · refine g.read collects_identifier fun name s₁ _ g => .bind fun mark s₂ hmark => ?_
    cases hmark
    let n : Node := .parameter ⟨s₁.nextId, name.mark.span⟩ (.ident name) none none false false
    exact answers_pure ((g.wrap (n := n) rfl rfl rfl rfl).forget.congr rfl rfl)
  · exact g.last (h.arrowHead.speculate h.advancing.arrowHead)

/-- An arrow function, if one comes next. -/
theorem arrowFunction? (h : r.Gathering) (hs : s.Sound) :
    Answers s r.arrowFunction? fun arrow s' => Gathered arrow.isSome s s' arrow.toList := by
  have g := Gathered.begin hs
  refine .current ?_
  show Answers s (Rules.arrowAsync >>= _) _
  refine g.pass arrowAsync fun isAsync s₁ _ g => g.read h.arrowHead? fun head s₂ _ g => ?_
  cases head with
  | none =>
    refine .bind fun _ s₃ hback => answers_pure ?_
    cases hback
    exact .of_stay hs (g.advances.rewind (Nat.le_refl _) _) rfl
  | some head =>
    refine .current (.unless (fun _ _ h => nomatch h) ?_)
    refine g.pass (collects_skip "=>") fun _ _ _ g => g.read h.arrowBody fun body _ _ g => .map ?_
    have hperm := perm_function [] head.params body head.result.toList head.typeParams
    exact g.buildFrom rfl hperm fun _ => rfl

/-! ## Expressions of all kinds -/

theorem assignmentExpression (h : r.Gathering) : Collects true r.assignmentExpression ([·]) := by
  intro s hs
  refine .bind fun arrow s₁ harrow => ?_
  have g := h.arrowFunction? hs arrow s₁ harrow
  cases arrow with
  | some arrow => exact answers_pure g
  | none =>
    have hback : s₁.ahead = s.ahead := (arrowFunction?_begins h.advancing none s₁ harrow).2 rfl
    refine .current (g.read h.conditionalExpression fun left s₂ hleft g => .current ?_)
    refine .ite (g.pass collects_advance fun _ _ _ g => g.read h.assignment fun _ _ _ g => ?_)
      (answers_pure g)
    have hbegins := (conditionalExpression_begins left s₂ hleft).trans hback
    exact .mono (g.buildAround hback hbegins fun _ => rfl) fun _ _ grown => grown.gathered

theorem commaTail (h : r.Gathering) (n : Nat) {left : Node} (grown : Grown s₀ s left)
    (hstart : start.start = s₀.ahead) :
    Answers s (r.commaTail start n left) fun e s' => Grown s₀ s' e := by
  induction n generalizing left s with
  | zero => exact answers_throw _
  | succ n ih =>
    obtain ⟨g, hbegins⟩ := grown
    refine g.pass (collects_accept ",") fun _ _ _ g => .ite ?_ (answers_pure ⟨g, hbegins⟩)
    refine g.read h.assignment fun _ _ _ g => ?_
    exact .then (g.buildAround hstart hbegins fun _ => rfl) fun _ _ grown => ih grown

theorem anyExpression (h : r.Gathering) : Collects true r.anyExpression ([·]) := by
  intro s hs
  refine .current ((Gathered.begin hs).read h.assignment fun left s₁ hleft g => ?_)
  refine (h.commaTail _ ⟨g, ?_⟩ rfl).mono fun _ _ grown => grown.gathered
  exact h.assignment_begins s left s₁ hleft

end ScriptBridge.TypeScript.Rules.Gathering
