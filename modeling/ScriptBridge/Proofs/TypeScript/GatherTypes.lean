import ScriptBridge.Proofs.TypeScript.Gathering

/-!
# Rules for patterns and types gather their nodes

Every rule for patterns, parameters and types gathers the nodes of its answer, if the rules one level of
nesting further in do. What a rule reads and drops, such as the type parameters of a method, leaves a gap
between those nodes.

* `Rules.Gathering`: the rules of a level gather the nodes of their answers.
* `Rules.Gathering.anyType`: so does the rule for types made from them.
-/

namespace ScriptBridge.TypeScript

open ScriptBridge.TypeScript.Parser

/-- The rules of a level of nesting gather the nodes of their answers. -/
structure Rules.Gathering (r : Rules) : Prop where
  advancing : r.Advancing
  statement : Collects true r.statement ([·])
  expression : Collects true r.expression ([·])
  assignment : Collects true r.assignment ([·])
  binary : ∀ least, Collects true (r.binary least) ([·])
  unary : Collects true r.unary ([·])
  construction : Collects true r.construction ([·])
  bindingName : Collects true r.bindingName ([·])
  type : Collects true r.type ([·])
  typeOperator : Collects true r.typeOperator ([·])
  /-- An assignment begins where it is read. -/
  assignment_begins : ∀ s, Answers s r.assignment fun e _ => e.span.start = s.ahead

namespace Rules.Gathering

variable {r : Rules}

/-! ## Patterns and parameters -/

theorem propertyName (h : r.Gathering) : Collects true r.propertyName ([·]) := by
  intro s hs
  have g := Gathered.begin hs
  refine .current (.dite (fun hk => g.token (Token.ne_eof_of_kind hk nofun) fun _ => rfl) ?_)
  refine .dite (fun hk => g.token (Token.ne_eof_of_kind hk nofun) fun _ => rfl) (.ite ?_ ?_)
  · refine g.pass collects_advance fun _ _ _ g => g.read h.assignment.withIn fun _ _ _ g => ?_
    exact g.pass (collects_skip "]") fun _ _ _ g => g.build rfl fun _ => rfl
  · exact g.read collects_word fun _ _ _ g => answers_pure g

theorem fallback (h : r.Gathering) : Collects false r.fallback Option.toList := by
  intro s hs
  refine (Gathered.begin hs).pass (collects_accept "=") fun _ _ _ g => .ite ?_ (answers_pure g)
  exact g.last h.assignment.withIn.some.forget

theorem objectElement (h : r.Gathering) : Collects true r.objectElement ([·]) := by
  intro s hs
  have g := Gathered.begin hs
  refine .current (g.accept (fun _ g => ?rest) (g.read h.propertyName fun key _ _ g => ?_))
  case rest => exact g.read collects_identifier fun _ _ _ g => g.build rfl fun _ => rfl
  refine g.pass (collects_accept ":") fun _ _ _ g => .ite ?_ ?_
  · exact g.read h.bindingName fun _ _ _ g => .pure_bind <|
      g.read h.fallback fun _ _ _ g => g.build rfl fun _ => rfl
  cases key with
  | ident i =>
    refine .ite (answers_failSpan _ _) (.pure_bind (g.read h.fallback fun _ _ _ g => ?_))
    exact g.build rfl fun _ => rfl
  | _ => exact answers_failSpan _ _

theorem objectPattern (h : r.Gathering) : Collects true r.objectPattern ([·]) := by
  intro s hs
  refine (Gathered.begin hs).pass (collects_expect _) fun t _ ht g => ?_
  refine g.read (h.objectElement.commaUntil _ _) fun _ _ _ g => g.pass (collects_skip _) fun _ _ _ g => ?_
  exact g.build (by rw [expect_token ht]; rfl) fun _ => rfl

theorem arrayElements (h : r.Gathering) (n : Nat) : Collects false (r.arrayElements n) fun ns => ns := by
  induction n with
  | zero => exact fun _ _ => answers_throw _
  | succ n ih =>
    intro s hs
    have g := Gathered.begin hs
    refine .sees (.ite (answers_pure g) (.current (g.accept (fun hk _ => ?hole) ?_)))
    case hole =>
      exact .then (g.buildAt hk fun _ => rfl) fun _ _ g => g.read ih fun _ _ _ g => answers_pure g.forget
    refine g.pass (collects_accept "...") fun _ _ _ g => g.read h.bindingName fun _ _ _ g => ?_
    refine g.read h.fallback fun _ _ _ g => .then (g.build rfl fun _ => rfl) fun _ _ g => ?_
    refine g.pass (collects_accept ",") fun _ _ _ g => ?_
    exact .ite (g.read ih fun _ _ _ g => answers_pure g.forget) (answers_pure g.forget)

theorem arrayPattern (h : r.Gathering) : Collects true r.arrayPattern ([·]) := by
  intro s hs
  refine (Gathered.begin hs).pass (collects_expect _) fun t _ ht g => ?_
  refine g.read (h.arrayElements _) fun _ _ _ g => g.pass (collects_skip _) fun _ _ _ g => ?_
  exact g.build (by rw [expect_token ht]; rfl) fun _ => rfl

theorem binding (h : r.Gathering) : Collects true r.binding ([·]) := by
  intro s hs
  have g := Gathered.begin hs
  refine .sees (.ite (g.last h.objectPattern) (.sees (.ite (g.last h.arrayPattern) ?_)))
  exact g.read collects_identifier fun _ _ _ g => answers_pure g

theorem annotation? (h : r.Gathering) : Collects false r.annotation? Option.toList := by
  intro s hs
  refine (Gathered.begin hs).pass (collects_accept ":") fun _ _ _ g => .ite ?_ (answers_pure g)
  exact g.last h.type.some.forget

theorem skipAccessWords (n : Nat) : Collects false (Rules.skipAccessWords n) fun _ => [] := by
  induction n with
  | zero => exact fun _ _ => answers_throw _
  | succ n ih =>
    intro s hs
    have g := Gathered.begin hs
    refine .peek fun _ => .current (.ite ?_ (answers_pure g))
    exact g.pass collects_advance fun _ _ _ g => g.last ih

theorem parameter (h : r.Gathering) : Collects true r.parameter ([·]) := by
  intro s hs
  refine .current ((Gathered.begin hs).pass (skipAccessWords _) fun _ s₁ _ g => ?_)
  refine g.pass (collects_accept "...") fun _ s₂ _ g => .sees ?_
  extract_lets rest
  have hrest (target : Node) {s' : ParserState} (g : Gathered true s s' [target]) :
      Answers s' (rest target) fun e s' => Gathered true s s' [e] := by
    refine g.pass (collects_accept "?") fun _ _ _ g => g.read h.annotation? fun _ _ _ g => ?_
    exact g.read h.fallback fun _ _ _ g => g.build rfl fun _ => rfl
  refine .dite (fun hthis => ?_) (g.read h.binding fun target _ _ g => hrest target g)
  have hkind := Token.ne_eof_of_isAny hthis
  have hname : Answers s₂.behind (Node.ident <$> identOf s₂.next) fun e s' =>
      Gathered true s s' [e] := .map (g.identOf hkind)
  exact g.take hkind fun _ => hname.then fun target _ g => hrest target g

theorem parameters (h : r.Gathering) : Collects true r.parameters fun ns => ns := by
  intro s hs
  refine (Gathered.begin hs).pass (collects_skip "(") fun _ _ _ g => ?_
  refine g.read (h.parameter.commaUntil _ _) fun _ _ _ g => ?_
  exact g.pass (collects_skip ")") fun _ _ _ g => answers_pure g

theorem typeParameter (h : r.Gathering) : Collects true r.typeParameter ([·]) := by
  intro s hs
  have g := Gathered.begin hs
  refine .current (.peek fun _ => g.optional collects_advance fun s₁ g => ?_)
  refine g.read collects_identifier fun name _ _ g => g.pass (collects_accept _) fun _ _ _ g => ?_
  extract_lets afterBound
  have hafterBound (bound : Option Node) {s' : ParserState}
      (g : Gathered true s s' ([.ident name] ++ bound.toList)) :
      Answers s' (afterBound bound) fun e s' => Gathered true s s' [e] := by
    refine g.pass (collects_accept "=") fun _ _ _ g => .ite ?_ (g.nothing.build rfl fun _ => rfl)
    exact g.read h.type.some fun _ _ _ g => g.build rfl fun _ => rfl
  exact .ite (g.read h.type.some fun bound _ _ g => hafterBound bound g) (hafterBound none g)

theorem typeParameters (h : r.Gathering) : Collects true r.typeParameters fun ns => ns := by
  intro s hs
  refine (Gathered.begin hs).pass (collects_skip "<") fun _ _ _ g => ?_
  refine g.read (h.typeParameter.commaList _) fun _ _ _ g => ?_
  exact g.pass collects_closeAngle fun _ _ _ g => answers_pure g

theorem typeParameters? (h : r.Gathering) : Collects false r.typeParameters? fun ns => ns := by
  intro s hs
  have g := Gathered.begin hs
  exact .sees (.ite (g.last h.typeParameters.forget) (answers_pure g))

theorem resultType (h : r.Gathering) : Collects true r.resultType ([·]) := by
  intro s hs
  have g := Gathered.begin hs
  refine .current (.peek fun _ => .dite (fun hasserts => ?_) (.ite ?_ (g.last h.type)))
  · refine g.take (Token.ne_eof_of_isAny (Bool.and_eq_true_iff.mp hasserts).1) fun g => ?_
    refine g.pass collects_advance fun _ _ _ g => g.pass (collects_accept "is") fun _ _ _ g => ?_
    exact g.optional h.type fun _ g => g.build rfl fun _ => rfl
  · refine g.pass collects_advance fun _ _ _ g => g.pass collects_advance fun _ _ _ g => ?_
    exact g.pass h.type fun _ _ _ g => g.build rfl fun _ => rfl

theorem resultType? (h : r.Gathering) : Collects false r.resultType? Option.toList := by
  intro s hs
  refine (Gathered.begin hs).pass (collects_accept ":") fun _ _ _ g => .ite ?_ (answers_pure g)
  exact g.last h.resultType.some.forget

theorem block (h : r.Gathering) : Collects true r.block ([·]) := by
  intro s hs
  refine (Gathered.begin hs).pass (collects_expect _) fun t _ ht g => ?_
  refine g.read (h.statement.nodesUntil _ _).withIn fun _ _ _ g => ?_
  exact g.pass (collects_skip _) fun _ _ _ g => g.build (by rw [expect_token ht]; rfl) fun _ => rfl

/-! ## Members of types -/

theorem literalNumber_stays {text : String} {x : Double} {s s' : ParserState}
    (h : Rules.literalNumber text s = .ok x s') : s' = s := by
  unfold Rules.literalNumber at h
  cases hvalue : numericValue text <;> rw [hvalue] at h <;> cases h
  rfl

theorem seesMappedType : Collects false Rules.seesMappedType fun _ => [] :=
  fun _ hs => .peek fun _ => .peek fun _ => .peek fun _ => .peek fun _ => .peek fun _ =>
    answers_pure (.begin hs)

theorem signature (h : r.Gathering) :
    Collects true r.signature fun (params, result) => params ++ result.toList := by
  intro s hs
  refine (Gathered.begin hs).pass h.typeParameters? fun _ _ _ g => g.read h.parameters fun _ _ _ g => ?_
  exact g.read h.resultType? fun _ _ _ g => answers_pure g

theorem memberName (h : r.Gathering) : Collects true r.memberName fun _ => [] := by
  intro s hs
  have g := Gathered.begin hs
  refine .sees (.ite ?_ (g.pass h.propertyName fun name _ _ g => ?_))
  · exact g.pass (collects_skipBalanced _ _ _) fun _ _ _ g => answers_pure g
  · cases name <;> exact answers_pure g

theorem namedMember (h : r.Gathering) {s₀ s : ParserState} {start : Span} (g : Gathered false s₀ s [])
    (hstart : start.start = s₀.ahead) :
    Answers s (r.namedMember start) fun e s' => Gathered true s₀ s' [e] := by
  refine g.pass h.memberName fun _ _ _ g => g.pass (collects_accept "?") fun _ _ _ g => .seesAny ?_
  refine .ite (g.read h.signature fun _ _ _ g => g.build hstart fun _ => rfl) ?_
  exact g.read h.annotation? fun _ _ _ g => g.build hstart fun _ => rfl

theorem typeMember (h : r.Gathering) : Collects false r.typeMember Option.toList := by
  intro s hs
  have g := Gathered.begin hs
  refine .current (.seesAny (.ite (g.pass h.signature fun _ _ _ g => answers_pure g.forget) ?_))
  refine .sees (.peek fun _ => .ite (g.pass collects_advance fun _ _ _ g => ?construct) ?_)
  case construct => exact g.pass h.signature fun _ _ _ g => answers_pure g.forget
  refine .sees (.peek fun _ => g.optional collects_advance fun _ g => .seesAny ?_)
  refine .peek fun _ => .peek fun _ => g.optional collects_advance fun _ g => .sees ?_
  refine .peek fun _ => .peek fun _ => .ite ?_ (.map ?_)
  · refine g.pass collects_advance fun _ _ _ g => g.pass collects_advance fun _ _ _ g => ?_
    refine g.pass collects_advance fun _ _ _ g => g.read h.type fun _ _ _ g => ?_
    refine g.pass (collects_skip "]") fun _ _ _ g => g.pass (collects_skip ":") fun _ _ _ g => ?_
    refine g.read h.type fun _ _ _ g => .map ?_
    exact (g.build rfl fun _ => rfl).mono fun _ _ g => g.forget
  · exact (h.namedMember g rfl).mono fun _ _ g => g.forget

theorem skipMemberEnds (n : Nat) : Collects false (Rules.skipMemberEnds n) fun _ => [] := by
  induction n with
  | zero => exact fun _ _ => answers_throw _
  | succ n ih =>
    intro s hs
    have g := Gathered.begin hs
    exact .seesAny (.ite (g.pass collects_advance fun _ _ _ g => g.last ih) (answers_pure g))

theorem typeMembers (h : r.Gathering) : Collects true r.typeMembers fun ns => ns := by
  intro s hs
  refine (Gathered.begin hs).pass (collects_skip _) fun _ _ _ g => ?_
  extract_lets member
  have hmember : Collects false member Option.toList := fun s hs =>
    (Gathered.begin hs).read h.typeMember fun _ _ _ g =>
      g.pass (skipMemberEnds _) fun _ _ _ g => answers_pure g
  refine g.read (hmember.itemsUntil _ _) fun members _ _ g => ?_
  refine g.pass (collects_skip _) fun _ _ _ g => answers_pure ?_
  have hmembers : members.filterMap (fun m => m) = members.flatMap Option.toList :=
    List.filterMap_eq_flatMap_toList _ _
  rwa [hmembers]

theorem typeLiteral (h : r.Gathering) : Collects true r.typeLiteral ([·]) := by
  intro s hs
  have g := Gathered.begin hs
  refine .current (g.pass seesMappedType fun _ _ _ g => .ite ?_ ?_)
  · exact g.pass (collects_skipBalanced _ _ _) fun _ _ _ g => g.build rfl fun _ => rfl
  · exact g.read h.typeMembers fun _ _ _ g => g.build rfl fun _ => rfl

/-! ## Primary types -/

theorem tupleElement (h : r.Gathering) : Collects true r.tupleElement ([·]) := by
  intro s hs
  refine (Gathered.begin hs).pass (collects_accept "...") fun _ _ _ g => ?_
  refine .current (.peek fun _ => .peek fun _ => ?_)
  extract_lets rest
  have hrest (u : PUnit) {s' : ParserState} (g : Gathered false s s' []) :
      Answers s' (rest u) fun e s' => Gathered true s s' [e] :=
    g.read h.type fun _ _ _ g => g.pass (collects_accept "?") fun _ _ _ g => answers_pure g
  refine .ite (g.pass collects_advance fun _ _ _ g => ?_) (hrest ⟨⟩ g)
  refine g.pass (collects_accept "?") fun _ _ _ g => ?_
  exact g.pass (collects_skip ":") fun u _ _ g => hrest u g.forget

theorem tupleType (h : r.Gathering) : Collects true r.tupleType ([·]) := by
  intro s hs
  refine (Gathered.begin hs).pass (collects_expect _) fun t _ ht g => ?_
  refine g.read (h.tupleElement.commaUntil _ _) fun _ _ _ g => g.pass (collects_skip _) fun _ _ _ g => ?_
  exact g.build (by rw [expect_token ht]; rfl) fun _ => rfl

theorem typeArguments (h : r.Gathering) : Collects true r.typeArguments fun ns => ns := by
  intro s hs
  refine (Gathered.begin hs).pass (collects_skip "<") fun _ _ _ g => ?_
  refine g.read (h.type.commaList _) fun _ _ _ g => ?_
  exact g.pass collects_closeAngle fun _ _ _ g => answers_pure g

/-- The accesses of a type query start with it. -/
theorem queryAccesses {s₀ s : ParserState} {start : Span} (n : Nat) {e : Node}
    (g : Gathered true s₀ s [e] (some s₀.ahead)) (hstart : start.start = s₀.ahead) :
    Answers s (Rules.queryAccesses start n e) fun e s' =>
      Gathered true s₀ s' [e] (some s₀.ahead) := by
  induction n generalizing e s with
  | zero => exact answers_throw _
  | succ n ih =>
    refine g.pass (collects_accept ".") fun _ _ _ g => .ite ?_ (answers_pure g)
    refine g.read collects_word fun _ _ _ g => ?_
    exact .then (g.buildHead hstart (fun _ => rfl) fun _ _ => rfl) fun _ _ g => ih g

theorem qualifiers (n : Nat) (name : String) : Collects false (Rules.qualifiers n name) fun _ => [] := by
  induction n generalizing name with
  | zero => exact fun _ _ => answers_throw _
  | succ n ih =>
    intro s hs
    refine (Gathered.begin hs).pass (collects_accept ".") fun _ _ _ g => .ite ?_ (answers_pure g)
    exact g.pass collects_word fun _ _ _ g => (g.last (ih _)).mono fun _ _ g => g.forget

theorem primaryType (h : r.Gathering) : Collects true r.primaryType ([·]) := by
  intro s hs
  have g := Gathered.begin hs
  refine .current (.dite (fun hk => g.token (Token.ne_eof_of_kind hk nofun) fun _ => rfl) ?_)
  refine .dite ?number (.peek fun _ => ?_)
  case number =>
    intro hk
    have hkind := Token.ne_eof_of_kind hk nofun
    refine g.take hkind fun _ => .bind fun x s₁ hx => ?_
    cases literalNumber_stays hx
    exact g.buildAt hkind fun _ => rfl
  refine .dite ?negative (.dite (fun hk => g.token (Token.ne_eof_of_isAny hk) fun _ => rfl) ?_)
  case negative =>
    intro hminus
    refine g.take (Token.ne_eof_of_isAny (Bool.and_eq_true_iff.mp hminus).1) fun g => ?_
    refine g.pass collects_advance fun _ _ _ g => g.mark fun mark s₁ hspan g => .bind fun x s₂ hx => ?_
    cases literalNumber_stays hx
    exact answers_pure (g.around rfl hspan (.refl _) rfl nofun)
  refine .dite (fun hk => g.token (Token.ne_eof_of_kind hk nofun) fun _ => rfl) ?_
  refine .ite (g.last h.typeLiteral) (.ite (g.last h.tupleType) ?_)
  refine .ite ?nested (.dite ?query ?_)
  case nested =>
    refine g.pass collects_advance fun _ _ _ g => g.read h.type fun _ _ _ g => ?_
    exact g.pass (collects_skip ")") fun _ _ _ g => answers_pure g
  case query =>
    intro _
    refine g.pass collects_advance fun _ _ _ g => g.read collects_identifier fun _ _ _ g => ?_
    refine .then (queryAccesses _ (g.atHead _) rfl) fun _ _ g => ?_
    exact g.buildHead rfl (fun _ => rfl) fun _ hstart => congrArg some hstart
  refine .dite (fun hk => g.token (Token.ne_eof_of_isAny hk) fun _ => rfl) (.peek fun _ => ?_)
  refine .dite (fun hk => ?word) (.dite (fun hk => ?reference) (answers_failAt _ _))
  case word =>
    have hword := (Bool.and_eq_true_iff.mp (Bool.and_eq_true_iff.mp hk).1).1
    exact g.token (Token.ne_eof_of_kind hword nofun) fun _ => rfl
  case reference =>
    refine g.take (Token.ne_eof_of_kind hk nofun) fun g => g.pass (qualifiers _ _) fun _ _ _ g => .sees ?_
    refine .current (.ite (g.read h.typeArguments fun _ _ _ g => g.build rfl fun _ => rfl) ?_)
    exact .pure_bind (g.build rfl fun _ => rfl)

/-! ## Operators on types -/

theorem typeSuffixes (h : r.Gathering) {s₀ s : ParserState} {start : Span} (n : Nat) {type : Node}
    (g : Gathered true s₀ s [type]) (hstart : start.start = s₀.ahead) :
    Answers s (r.typeSuffixes start n type) fun e s' => Gathered true s₀ s' [e] := by
  induction n generalizing type s with
  | zero => exact answers_throw _
  | succ n ih =>
    refine .sees (.current (.ite (g.pass collects_advance fun _ _ _ g => ?_) (answers_pure g)))
    refine g.pass (collects_accept "]") fun _ _ _ g => .ite ?_ (g.read h.type fun _ _ _ g => ?_)
    · exact .then (g.build hstart fun _ => rfl) fun _ _ g => ih g
    · refine g.pass (collects_skip "]") fun _ _ _ g => ?_
      exact .then (g.build hstart fun _ => rfl) fun _ _ g => ih g

theorem operatorType (h : r.Gathering) : Collects true r.operatorType ([·]) := by
  intro s hs
  have g := Gathered.begin hs
  refine .current (.peek fun _ => .ite (g.pass collects_advance fun _ _ _ g => ?_) ?_)
  · exact g.read h.typeOperator fun _ _ _ g => g.build rfl fun _ => rfl
  · exact g.read h.primaryType fun _ _ _ g => h.typeSuffixes _ g rfl

theorem joinedTypes {m : Bool} {item : Parser Node} (hi : Collects m item ([·])) (joiner : String)
    (n : Nat) : Collects false (Rules.joinedTypes joiner item n) fun ns => ns := by
  induction n with
  | zero => exact fun _ _ => answers_throw _
  | succ n ih =>
    intro s hs
    refine (Gathered.begin hs).pass (collects_accept joiner) fun _ _ _ g => .ite ?_ (answers_pure g)
    exact g.read hi fun _ _ _ g => g.read ih fun _ _ _ g => answers_pure g.forget

theorem joined {item : Parser Node} (hi : Collects true item ([·])) (joiner : String)
    {f : Mark → List Node → Node} (hf : ∀ ns m, (f m ns).parts = (m, ns, none, false)) :
    Collects true (r.joined joiner f item) ([·]) := by
  intro s hs
  refine .current ((Gathered.begin hs).pass (collects_accept joiner) fun _ _ _ g => ?_)
  refine g.read hi fun first _ _ g => g.read (joinedTypes hi _ _) fun more _ _ g => ?_
  refine .dite (fun hempty => answers_pure ?_) (g.build rfl (hf _))
  rw [List.isEmpty_iff.mp hempty] at g
  exact g

theorem unionType (h : r.Gathering) : Collects true r.unionType ([·]) :=
  joined (joined h.operatorType _ fun _ _ => rfl) _ fun _ _ => rfl

theorem functionTypeHead (h : r.Gathering) : Collects true r.functionTypeHead fun ns => ns := by
  intro s hs
  refine (Gathered.begin hs).pass h.typeParameters? fun _ _ _ g => g.read h.parameters fun _ _ _ g => ?_
  exact .sees (.unless (fun _ _ h => nomatch h) (answers_pure g))

theorem constructOrUnion (h : r.Gathering) : Collects true r.constructOrUnion ([·]) := by
  intro s hs
  have g := Gathered.begin hs
  refine .current (.peek fun _ => .ite (g.pass (collects_accept _) fun _ _ _ g => ?_) (g.last h.unionType))
  refine g.pass collects_advance fun _ _ _ g => g.read h.functionTypeHead fun _ _ _ g => ?_
  refine g.pass (collects_skip "=>") fun _ _ _ g => ?_
  exact g.read h.type fun _ _ _ g => g.build rfl fun _ => rfl

theorem anyType (h : r.Gathering) : Collects true r.anyType ([·]) := by
  intro s hs
  have g := Gathered.begin hs
  refine .current (.ite ?_ (g.last h.constructOrUnion))
  refine g.read (h.functionTypeHead.speculate h.advancing.functionTypeHead) fun head _ _ g => ?_
  cases head with
  | none => exact g.last h.constructOrUnion
  | some params =>
    refine g.pass (collects_skip "=>") fun _ _ _ g => ?_
    exact g.read h.resultType fun _ _ _ g => g.build rfl fun _ => rfl

end Rules.Gathering

end ScriptBridge.TypeScript
