import ScriptBridge.Proofs.TypeScript.Advance

/-!
# Rules for patterns and types move on

Every rule for patterns, parameters and types only moves on if the rules one level of nesting further in
do.

* `Rules.Advancing`: the rules of a level only move on.
* `Rules.Advancing.anyType`: so does the rule for types made from them.
-/

namespace ScriptBridge.TypeScript

open ScriptBridge.TypeScript.Parser

/-- The rules of a level of nesting only move on. -/
structure Rules.Advancing (r : Rules) : Prop where
  statement : Keeps r.statement
  expression : Keeps r.expression
  assignment : Keeps r.assignment
  binary : ∀ least, Keeps (r.binary least)
  unary : Keeps r.unary
  construction : Keeps r.construction
  bindingName : Keeps r.bindingName
  type : Keeps r.type
  typeOperator : Keeps r.typeOperator

namespace Rules.Advancing

variable {r : Rules}

/-! ## Patterns and parameters -/

theorem propertyName (h : r.Advancing) : Keeps r.propertyName := by
  refine keeps_current.bind fun t => ?_
  refine .ite (keeps_advance.bind fun t => keeps_buildAt t _) ?_
  refine .ite (keeps_advance.bind fun t => keeps_buildAt t _) ?_
  refine .ite (keeps_advance.bind fun _ => ?_) (keeps_word.bind fun _ => keeps_pure _)
  exact h.assignment.withIn.bind fun _ => (keeps_skip "]").bind fun _ => keeps_build _ _

theorem fallback (h : r.Advancing) : Keeps r.fallback :=
  (keeps_accept "=").bind fun _ => .ite h.assignment.withIn.map (keeps_pure _)

theorem objectElement (h : r.Advancing) : Keeps r.objectElement := by
  refine keeps_current.bind fun t => (keeps_accept "...").bind fun _ => ?_
  refine .ite (keeps_identifier.bind fun name => keeps_build _ _) ?_
  refine h.propertyName.bind fun key => (keeps_accept ":").bind fun _ => ?_
  refine .ite (h.bindingName.bind fun _ => h.fallback.bind fun _ => keeps_build _ _) ?_
  cases key with
  | ident i => exact .ite (keeps_failSpan _ _) (h.fallback.bind fun _ => keeps_build _ _)
  | _ => exact keeps_failSpan _ _

theorem objectPattern (h : r.Advancing) : Keeps r.objectPattern :=
  (keeps_expect _).bind fun _ => (h.objectElement.commaUntil _ _).bind fun _ =>
    (keeps_skip _).bind fun _ => keeps_build _ _

theorem arrayElements (h : r.Advancing) (n : Nat) : Keeps (r.arrayElements n) := by
  induction n with
  | zero => exact keeps_throw _
  | succ n ih =>
    refine (keeps_sees "]").bind fun _ => .ite (keeps_pure _) ?_
    refine keeps_current.bind fun t => (keeps_accept ",").bind fun _ => ?_
    refine .ite ((keeps_buildAt t _).bind fun _ => ih.bind fun _ => keeps_pure _) ?_
    refine (keeps_accept "...").bind fun _ => h.bindingName.bind fun _ => h.fallback.bind fun _ => ?_
    refine (keeps_build _ _).bind fun _ => (keeps_accept ",").bind fun _ => ?_
    exact .ite (ih.bind fun _ => keeps_pure _) (keeps_pure _)

theorem arrayPattern (h : r.Advancing) : Keeps r.arrayPattern :=
  (keeps_expect "[").bind fun _ => (h.arrayElements _).bind fun _ =>
    (keeps_skip "]").bind fun _ => keeps_build _ _

theorem binding (h : r.Advancing) : Keeps r.binding := by
  refine (keeps_sees _).bind fun _ => .ite h.objectPattern ?_
  exact (keeps_sees "[").bind fun _ => .ite h.arrayPattern (keeps_identifier.bind fun _ => keeps_pure _)

theorem annotation? (h : r.Advancing) : Keeps r.annotation? :=
  (keeps_accept ":").bind fun _ => .ite h.type.map (keeps_pure _)

theorem skipAccessWords (n : Nat) : Keeps (Rules.skipAccessWords n) := by
  induction n with
  | zero => exact keeps_throw _
  | succ n ih =>
    refine (keeps_peek 1).bind fun _ => keeps_current.bind fun _ => ?_
    exact .ite (keeps_advance.bind fun _ => ih) (keeps_pure _)

theorem parameter (h : r.Advancing) : Keeps r.parameter := by
  refine keeps_current.bind fun _ => (skipAccessWords _).bind fun _ => ?_
  refine (keeps_accept "...").bind fun _ => (keeps_sees "this").bind fun _ => ?_
  extract_lets rest
  have hrest (target : Node) : Keeps (rest target) :=
    (keeps_accept "?").bind fun _ => h.annotation?.bind fun _ => h.fallback.bind fun _ =>
      keeps_build _ _
  exact .ite (keeps_advance.bind fun t => (keeps_identOf t).map.bind hrest) (h.binding.bind hrest)

theorem parameters (h : r.Advancing) : Keeps r.parameters :=
  (keeps_skip "(").bind fun _ => (h.parameter.commaUntil _ _).bind fun _ =>
    (keeps_skip ")").bind fun _ => keeps_pure _

theorem typeParameter (h : r.Advancing) : Keeps r.typeParameter := by
  refine keeps_current.bind fun t => (keeps_peek 1).bind fun _ => .before keeps_advance ?_
  refine keeps_identifier.bind fun name => (keeps_accept "extends").bind fun _ => ?_
  extract_lets value
  have hvalue (bound : Option Node) : Keeps (value bound) := by
    refine (keeps_accept "=").bind fun _ => ?_
    exact .ite (h.type.map.bind fun _ => keeps_build _ _) (keeps_build _ _)
  exact .ite (h.type.map.bind hvalue) (hvalue none)

theorem typeParameters (h : r.Advancing) : Keeps r.typeParameters :=
  (keeps_skip "<").bind fun _ => (h.typeParameter.commaList _).bind fun _ =>
    keeps_closeAngle.bind fun _ => keeps_pure _

theorem typeParameters? (h : r.Advancing) : Keeps r.typeParameters? :=
  (keeps_sees "<").bind fun _ => .ite h.typeParameters (keeps_pure _)

theorem resultType (h : r.Advancing) : Keeps r.resultType := by
  refine keeps_current.bind fun t => (keeps_peek 1).bind fun _ => .ite ?_ (.ite ?_ h.type)
  · refine keeps_advance.bind fun _ => keeps_advance.bind fun _ => (keeps_accept "is").bind fun _ => ?_
    exact .before h.type (keeps_build _ _)
  · exact keeps_advance.bind fun _ => keeps_advance.bind fun _ => h.type.bind fun _ => keeps_build _ _

theorem resultType? (h : r.Advancing) : Keeps r.resultType? :=
  (keeps_accept ":").bind fun _ => .ite h.resultType.map (keeps_pure _)

theorem block (h : r.Advancing) : Keeps r.block :=
  (keeps_expect _).bind fun _ => (h.statement.itemsUntil _ _).withIn.bind fun _ =>
    (keeps_skip _).bind fun _ => keeps_build _ _

/-! ## Members of types -/

theorem literalNumber (text : String) : Keeps (Rules.literalNumber text) := by
  unfold Rules.literalNumber
  split
  · exact keeps_pure _
  · exact keeps_throw _

theorem seesMappedType : Keeps Rules.seesMappedType := by
  refine (keeps_peek 1).bind fun _ => (keeps_peek _).bind fun _ => (keeps_peek _).bind fun _ => ?_
  exact (keeps_peek _).bind fun _ => (keeps_peek _).bind fun _ => keeps_pure _

theorem signature (h : r.Advancing) : Keeps r.signature :=
  h.typeParameters?.bind fun _ => h.parameters.bind fun _ => h.resultType?.bind fun _ => keeps_pure _

theorem memberName (h : r.Advancing) : Keeps r.memberName := by
  refine (keeps_sees "[").bind fun _ => .ite ?_ (h.propertyName.bind fun name => ?_)
  · exact (keeps_skipBalanced _ _ _).bind fun _ => keeps_pure _
  · cases name <;> exact keeps_pure _

theorem namedMember (h : r.Advancing) (start : Span) : Keeps (r.namedMember start) := by
  refine h.memberName.bind fun _ => (keeps_accept "?").bind fun _ => (keeps_seesAny _).bind fun _ => ?_
  exact .ite (h.signature.bind fun _ => keeps_build _ _) (h.annotation?.bind fun _ => keeps_build _ _)

theorem typeMember (h : r.Advancing) : Keeps r.typeMember := by
  refine keeps_current.bind fun _ => (keeps_seesAny _).bind fun _ => ?_
  refine .ite (h.signature.bind fun _ => keeps_pure _) ?_
  refine (keeps_sees "new").bind fun _ => (keeps_peek 1).bind fun _ => ?_
  refine .ite (keeps_advance.bind fun _ => h.signature.bind fun _ => keeps_pure _) ?_
  refine (keeps_sees "readonly").bind fun _ => (keeps_peek 1).bind fun _ => .before keeps_advance ?_
  refine (keeps_seesAny _).bind fun _ => (keeps_peek 1).bind fun _ => (keeps_peek 2).bind fun _ => ?_
  refine .before keeps_advance ?_
  refine (keeps_sees "[").bind fun _ => (keeps_peek 1).bind fun _ => (keeps_peek 2).bind fun _ => ?_
  refine .ite ?_ (h.namedMember _).map
  refine keeps_advance.bind fun _ => keeps_advance.bind fun _ => keeps_advance.bind fun _ => ?_
  refine h.type.bind fun _ => (keeps_skip "]").bind fun _ => (keeps_skip ":").bind fun _ => ?_
  exact h.type.bind fun _ => (keeps_build _ _).map

theorem skipMemberEnds (n : Nat) : Keeps (Rules.skipMemberEnds n) := by
  induction n with
  | zero => exact keeps_throw _
  | succ n ih =>
    exact (keeps_seesAny _).bind fun _ => .ite (keeps_advance.bind fun _ => ih) (keeps_pure _)

theorem typeMembers (h : r.Advancing) : Keeps r.typeMembers := by
  refine (keeps_skip _).bind fun _ => ?_
  refine Keeps.bind (Keeps.itemsUntil ?_ _ _) fun _ => (keeps_skip _).bind fun _ => keeps_pure _
  exact h.typeMember.bind fun _ => (skipMemberEnds _).bind fun _ => keeps_pure _

theorem typeLiteral (h : r.Advancing) : Keeps r.typeLiteral := by
  refine keeps_current.bind fun _ => seesMappedType.bind fun _ => .ite ?_ ?_
  · exact (keeps_skipBalanced _ _ _).bind fun _ => keeps_build _ _
  · exact h.typeMembers.bind fun _ => keeps_build _ _

/-! ## Primary types -/

theorem tupleElement (h : r.Advancing) : Keeps r.tupleElement := by
  refine (keeps_accept "...").bind fun _ => keeps_current.bind fun _ => (keeps_peek 1).bind fun _ => ?_
  refine (keeps_peek 2).bind fun _ => ?_
  extract_lets rest
  have hrest (u : PUnit) : Keeps (rest u) :=
    h.type.bind fun _ => (keeps_accept "?").bind fun _ => keeps_pure _
  refine .ite ?_ (hrest ⟨⟩)
  exact keeps_advance.bind fun _ => (keeps_accept "?").bind fun _ => (keeps_skip ":").bind hrest

theorem tupleType (h : r.Advancing) : Keeps r.tupleType :=
  (keeps_expect "[").bind fun _ => (h.tupleElement.commaUntil _ _).bind fun _ =>
    (keeps_skip "]").bind fun _ => keeps_build _ _

theorem typeArguments (h : r.Advancing) : Keeps r.typeArguments :=
  (keeps_skip "<").bind fun _ => (h.type.commaList _).bind fun _ =>
    keeps_closeAngle.bind fun _ => keeps_pure _

theorem queryAccesses (start : Span) (n : Nat) (e : Node) : Keeps (Rules.queryAccesses start n e) := by
  induction n generalizing e with
  | zero => exact keeps_throw _
  | succ n ih =>
    refine (keeps_accept ".").bind fun _ => .ite ?_ (keeps_pure _)
    exact keeps_word.bind fun _ => (keeps_build _ _).bind ih

theorem qualifiers (n : Nat) (name : String) : Keeps (Rules.qualifiers n name) := by
  induction n generalizing name with
  | zero => exact keeps_throw _
  | succ n ih =>
    exact (keeps_accept ".").bind fun _ => .ite (keeps_word.bind fun _ => ih _) (keeps_pure _)

theorem primaryType (h : r.Advancing) : Keeps r.primaryType := by
  have token (f : Mark → Node) : Keeps (do buildAt (← advance) f) :=
    keeps_advance.bind fun t => keeps_buildAt t f
  refine keeps_current.bind fun t => .ite (token _) (.ite ?number ((keeps_peek 1).bind fun _ => ?_))
  case number =>
    exact keeps_advance.bind fun _ => (literalNumber _).bind fun _ => keeps_buildAt _ _
  refine .ite ?negative (.ite (token _) (.ite (token _) (.ite h.typeLiteral (.ite h.tupleType ?_))))
  case negative =>
    exact keeps_advance.bind fun _ => keeps_advance.bind fun _ => (keeps_markFrom _).bind fun _ =>
      (literalNumber _).bind fun _ => keeps_pure _
  refine .ite ?nested (.ite ?query (.ite (token _) ((keeps_peek 1).bind fun _ => ?_)))
  case nested =>
    exact keeps_advance.bind fun _ => h.type.bind fun _ => (keeps_skip ")").bind fun _ => keeps_pure _
  case query =>
    exact keeps_advance.bind fun _ => keeps_identifier.bind fun _ =>
      (queryAccesses _ _ _).bind fun _ => keeps_build _ _
  refine .ite (token _) (.ite ?reference (keeps_failAt t _))
  case reference =>
    refine keeps_advance.bind fun _ => (qualifiers _ _).bind fun name => (keeps_sees "<").bind fun _ => ?_
    refine keeps_current.bind fun _ => ?_
    exact .ite (h.typeArguments.bind fun _ => keeps_build _ _) (keeps_build _ _)

/-! ## Operators on types -/

theorem typeSuffixes (h : r.Advancing) (start : Span) (n : Nat) (type : Node) :
    Keeps (r.typeSuffixes start n type) := by
  induction n generalizing type with
  | zero => exact keeps_throw _
  | succ n ih =>
    refine (keeps_sees "[").bind fun _ => keeps_current.bind fun _ => .ite ?_ (keeps_pure _)
    refine keeps_advance.bind fun _ => (keeps_accept "]").bind fun _ => .ite ?_ ?_
    · exact (keeps_build _ _).bind ih
    · exact h.type.bind fun _ => (keeps_skip "]").bind fun _ => (keeps_build _ _).bind ih

theorem operatorType (h : r.Advancing) : Keeps r.operatorType := by
  refine keeps_current.bind fun _ => (keeps_peek 1).bind fun _ => .ite ?_ ?_
  · exact keeps_advance.bind fun _ => h.typeOperator.bind fun _ => keeps_build _ _
  · exact h.primaryType.bind fun _ => h.typeSuffixes _ _ _

theorem joinedTypes {item : Parser Node} (hi : Keeps item) (joiner : String) (n : Nat) :
    Keeps (Rules.joinedTypes joiner item n) := by
  induction n with
  | zero => exact keeps_throw _
  | succ n ih =>
    refine (keeps_accept joiner).bind fun _ => .ite ?_ (keeps_pure _)
    exact hi.bind fun _ => ih.bind fun _ => keeps_pure _

theorem joined {item : Parser Node} (hi : Keeps item) (joiner : String)
    (f : Mark → List Node → Node) : Keeps (r.joined joiner f item) := by
  refine keeps_current.bind fun _ => (keeps_accept joiner).bind fun _ => hi.bind fun _ => ?_
  exact (joinedTypes hi _ _).bind fun _ => .ite (keeps_pure _) (keeps_build _ _)

theorem unionType (h : r.Advancing) : Keeps r.unionType :=
  joined (joined h.operatorType _ _) _ _

theorem functionTypeHead (h : r.Advancing) : Keeps r.functionTypeHead :=
  h.typeParameters?.bind fun _ => h.parameters.bind fun _ => (keeps_sees "=>").bind fun _ =>
    .before (keeps_fail _) (keeps_pure _)

theorem constructOrUnion (h : r.Advancing) : Keeps r.constructOrUnion := by
  refine keeps_current.bind fun _ => (keeps_peek 1).bind fun _ => .ite ?_ h.unionType
  refine (keeps_accept _).bind fun _ => keeps_advance.bind fun _ => h.functionTypeHead.bind fun _ => ?_
  exact (keeps_skip "=>").bind fun _ => h.type.bind fun _ => keeps_build _ _

theorem anyType (h : r.Advancing) : Keeps r.anyType := by
  refine keeps_current.bind fun t => .ite ?_ h.constructOrUnion
  refine h.functionTypeHead.speculate.bind fun head => ?_
  cases head with
  | none => exact h.constructOrUnion
  | some params =>
    exact (keeps_skip "=>").bind fun _ => h.resultType.bind fun _ => keeps_build _ _

end Rules.Advancing

end ScriptBridge.TypeScript
