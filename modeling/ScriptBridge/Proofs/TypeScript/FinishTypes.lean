import ScriptBridge.Proofs.TypeScript.Finishing

/-!
# Rules for patterns and types come to an end

Every rule for patterns, parameters and types comes to an end if the rules one level of nesting further in
do. They are only read behind a token, and with each token three levels become free: enough for a
statement, which may be an expression, which may be an assignment, none of them taking a token first.

* `Rules.Finishing`: the rules of a level come to an end.
* `Rules.Finishing.anyType`: so does the rule for types made from them.
-/

namespace ScriptBridge.TypeScript

open ScriptBridge.TypeScript.Parser

/-- The rules for `n` levels of nesting come to an end if these are enough for what is left to read. -/
structure Rules.Finishing (n : Nat) (r : Rules) : Prop where
  bound : r.bound = n
  statement : Finishes 1 (n - 3) r.statement
  expression : Finishes 1 (n - 2) r.expression
  assignment : Finishes 1 (n - 1) r.assignment
  binary : ∀ least, Finishes 1 (n - 1) (r.binary least)
  unary : Finishes 1 (n - 1) r.unary
  construction : Finishes 1 (n - 1) r.construction
  bindingName : Finishes 1 (n - 1) r.bindingName
  type : Finishes 1 (n - 1) r.type
  typeOperator : Finishes 1 (n - 1) r.typeOperator

namespace Rules.Finishing

variable {r : Rules} {n k : Nat} {t : Token}

/-! ## Patterns and parameters -/

theorem propertyName (h : r.Finishing n) : Finishes 1 n r.propertyName := by
  refine .current fun t => .ite (fun ht => .token (Token.ne_eof_of_kind ht (by decide))) ?_
  refine .ite (fun ht => .token (Token.ne_eof_of_kind ht (by decide))) ?_
  refine .ite (fun ht => .advance (Token.ne_eof_of_isAny ht) ?_) ?_
  · exact (h.assignment.withIn.mono (by omega)).bind fun _ => (finishes_skip "]").bind fun _ =>
      finishes_build _ _
  · exact (finishes_word.bind fun _ => .pure _).atToken

theorem fallback (h : r.Finishing n) : Finishes 0 n r.fallback :=
  .accept ((h.assignment.withIn.forget.map _).mono (by omega)) (.pure _)

theorem objectElement (h : r.Finishing n) : Finishes 1 n r.objectElement := by
  refine .current fun t => Finishes.atToken ?_
  refine .accept (finishes_identifier.bind fun name => finishes_build _ _) ?_
  refine h.propertyName.bind fun key => .accept ?_ ?_
  · exact (h.bindingName.mono (by omega)).bind fun _ => (h.fallback.mono (by omega)).bind fun _ =>
      finishes_build _ _
  cases key with
  | ident i =>
    exact .ite (finishes_failSpan _ _) ((h.fallback.mono (by omega)).bind fun _ => finishes_build _ _)
  | _ => exact finishes_failSpan _ _

theorem objectPattern (h : r.Finishing n) : Finishes 1 n r.objectPattern := by
  refine (finishes_expect _).bind fun _ => ?_
  refine (h.objectElement.commaUntil _ (by omega) (by rw [h.bound]; omega)).bind fun _ => ?_
  exact (finishes_skip _).bind fun _ => finishes_build _ _

theorem arrayElements (h : r.Finishing n) {m : Nat} (hk : k ≤ n - 1) (hm : k ≤ 3 * m + 2) :
    Finishes 0 k (r.arrayElements m) := by
  induction m generalizing k with
  | zero => exact .of_lt (by omega)
  | succ m ih =>
    refine .sees fun _ => .ite (.pure _) (.current fun t => Finishes.atToken (.accept ?_ ?_))
    · exact (finishes_buildAt t _).bind fun _ => (ih (by omega) (by omega)).bind fun _ => .pure _
    refine (finishes_accept _).bind fun _ => (h.bindingName.mono (by omega)).bind fun _ => ?_
    refine (h.fallback.mono (by omega)).bind fun _ => (finishes_build _ _).bind fun _ => .accept ?_ (.pure _)
    exact (ih (by omega) (by omega)).bind fun _ => .pure _

theorem arrayPattern (h : r.Finishing n) : Finishes 1 n r.arrayPattern := by
  refine (finishes_expect _).bind fun _ => ?_
  refine (h.arrayElements (by omega) (by rw [h.bound]; omega)).bind fun _ => ?_
  exact (finishes_skip _).bind fun _ => finishes_build _ _

theorem binding (h : r.Finishing n) : Finishes 1 n r.binding :=
  .sees fun _ => .ite h.objectPattern <| .sees fun _ => .ite h.arrayPattern <|
    finishes_identifier.bind fun _ => .pure _

theorem annotation? (h : r.Finishing n) : Finishes 0 n r.annotation? :=
  .accept ((h.type.forget.map _).mono (by omega)) (.pure _)

theorem skipAccessWords {m : Nat} (hm : k ≤ 3 * m + 2) : Finishes 0 k (Rules.skipAccessWords m) := by
  induction m generalizing k with
  | zero => exact .of_lt (by omega)
  | succ m ih =>
    refine .peek fun _ => .current fun t => .ite (fun ht => ?_) (Finishes.pure _).atToken
    have hwords : t.reads ["public", "private", "protected", "readonly"] = true :=
      (Bool.and_eq_true_iff.mp ht).1
    refine .of_text (fun hnone => ?_) fun hkind => .advance hkind (ih (by omega))
    rw [Token.reads, hnone] at hwords
    exact absurd hwords (by decide)

theorem parameter (h : r.Finishing n) : Finishes 1 n r.parameter := by
  refine .current fun _ => Finishes.atToken ?_
  refine (skipAccessWords (by rw [h.bound]; omega)).bind fun _ => (finishes_accept _).bind fun _ => ?_
  refine .of_token fun t => .sees ?_
  extract_lets rest
  have hrest (target : Node) : Finishes 0 n (rest target) :=
    (finishes_accept "?").bind fun _ => h.annotation?.bind fun _ => h.fallback.bind fun _ =>
      finishes_build _ _
  refine .ite (fun ht => ?_) (h.binding.bind fun _ => (hrest _).mono (by omega)).atToken
  exact .advance (Token.ne_eof_of_isAny ht) ((finishes_identOf t).bind fun _ => (hrest _).mono (by omega))

theorem parameters (h : r.Finishing n) : Finishes 1 n r.parameters := by
  refine (finishes_skip "(").bind fun _ => ?_
  refine (h.parameter.commaUntil _ (by omega) (by rw [h.bound]; omega)).bind fun _ => ?_
  exact (finishes_skip ")").bind fun _ => .pure _

theorem typeParameter (h : r.Finishing n) : Finishes 1 n r.typeParameter := by
  refine .current fun t => .peek fun _ => Finishes.atToken (.before finishes_advance ?_)
  refine finishes_identifier.bind fun name => ?_
  extract_lets value
  have hvalue (bound : Option Node) : Finishes 0 n (value bound) := by
    refine .accept ?_ (finishes_build _ _)
    exact ((h.type.map _).mono (by omega)).bind fun _ => finishes_build _ _
  exact .accept (((h.type.map _).mono (by omega)).bind fun _ => (hvalue _).mono (by omega))
    ((hvalue none).mono (by omega))

theorem typeParameters (h : r.Finishing n) : Finishes 1 n r.typeParameters := by
  refine (finishes_skip "<").bind fun _ => ?_
  refine (h.typeParameter.commaList (by omega) (by rw [h.bound]; omega)).bind fun _ => ?_
  exact finishes_closeAngle.bind fun _ => .pure _

theorem typeParameters? (h : r.Finishing n) : Finishes 0 n r.typeParameters? :=
  .sees fun _ => .ite h.typeParameters.forget (.pure _)

theorem resultType (h : r.Finishing n) : Finishes 1 (n - 1) r.resultType := by
  refine .current fun t => .peek fun _ => .ite (fun ht => ?_) (.ite (fun ht => ?_) h.type.atToken)
  · have hkind := Token.ne_eof_of_isAny (Bool.and_eq_true_iff.mp ht).1
    refine .advance hkind (finishes_advance.bind fun _ => .accept ?_ (finishes_build _ _))
    exact (h.type.mono (by omega)).bind fun _ => finishes_build _ _
  · have hkind : t.kind ≠ .eof := by
      simp only [Bool.and_eq_true, beq_iff_eq] at ht
      rw [ht.1.1]
      decide
    refine .advance hkind (finishes_advance.bind fun _ => (h.type.mono (by omega)).bind fun _ => ?_)
    exact finishes_build _ _

theorem resultType? (h : r.Finishing n) : Finishes 0 n r.resultType? :=
  .accept ((h.resultType.forget.map _).mono (by omega)) (.pure _)

theorem block (h : r.Finishing n) : Finishes 1 n r.block := by
  refine (finishes_expect _).bind fun _ => ?_
  refine (h.statement.itemsUntil _ (by omega) (by rw [h.bound]; omega)).withIn.bind fun _ => ?_
  exact (finishes_skip _).bind fun _ => finishes_build _ _

/-! ## Members of types -/

theorem seesMappedType : Finishes 0 k Rules.seesMappedType :=
  .peek fun _ => .peek fun _ => .peek fun _ => .peek fun _ => .peek fun _ => .pure _

theorem signature (h : r.Finishing n) : Finishes 1 n r.signature :=
  h.typeParameters?.bind fun _ => h.parameters.bind fun _ =>
    (h.resultType?.mono (by omega)).bind fun _ => .pure _

theorem memberName (h : r.Finishing n) : Finishes 1 n r.memberName := by
  refine .sees fun _ => .ite ?_ (h.propertyName.bind fun name => ?_)
  · exact (finishes_skipBalanced _ _ (by rw [h.bound]; omega)).bind fun _ => .pure _
  · cases name <;> exact .pure _

theorem namedMember (h : r.Finishing n) (start : Span) : Finishes 1 n (r.namedMember start) := by
  refine h.memberName.bind fun _ => (finishes_accept "?").bind fun _ => .seesAny fun _ => .ite ?_ ?_
  · exact (h.signature.mono (by omega)).bind fun _ => finishes_build _ _
  · exact (h.annotation?.mono (by omega)).bind fun _ => finishes_build _ _

theorem typeMember (h : r.Finishing n) : Finishes 1 n r.typeMember := by
  refine .current fun t => Finishes.atToken ?_
  refine .seesAny fun _ => .ite (h.signature.bind fun _ => .pure _) ?_
  refine .sees fun _ => .peek fun _ => .ite (finishes_advance.bind fun _ => h.signature.bind fun _ => .pure _) ?_
  refine .sees fun _ => .peek fun _ => .before finishes_advance ?_
  refine .seesAny fun _ => .peek fun _ => .peek fun _ => .before finishes_advance ?_
  refine .of_token fun t => .sees (.peek fun _ => .peek fun _ => .ite (fun ht => ?_) ?_)
  · have hkind := Token.ne_eof_of_isAny (Bool.and_eq_true_iff.mp (Bool.and_eq_true_iff.mp ht).1).1
    refine .advance hkind (finishes_advance.bind fun _ => finishes_advance.bind fun _ => ?_)
    refine (h.type.mono (by omega)).bind fun _ => (finishes_skip "]").bind fun _ =>
      (finishes_skip ":").bind fun _ => (h.type.mono (by omega)).bind fun _ => ?_
    exact (finishes_build _ _).map _
  · exact ((h.namedMember _).map _).atToken

theorem skipMemberEnds {m : Nat} (hm : k ≤ 3 * m + 2) : Finishes 0 k (Rules.skipMemberEnds m) := by
  induction m generalizing k with
  | zero => exact .of_lt (by omega)
  | succ m ih =>
    refine .of_token fun t => .seesAny (.ite (fun ht => ?_) (Finishes.pure _).atToken)
    exact .advance (Token.ne_eof_of_isAny ht) (ih (by omega))

theorem typeMembers (h : r.Finishing n) : Finishes 1 n r.typeMembers := by
  have hmember : Finishes 1 n (do
      let m ← r.typeMember
      Rules.skipMemberEnds r.bound
      return m) :=
    h.typeMember.bind fun _ => (skipMemberEnds (by rw [h.bound]; omega)).bind fun _ => .pure _
  refine (finishes_skip _).bind fun _ => ?_
  refine (hmember.itemsUntil _ (by omega) (by rw [h.bound]; omega)).bind fun _ => ?_
  exact (finishes_skip _).bind fun _ => .pure _

theorem typeLiteral (h : r.Finishing n) : Finishes 1 n r.typeLiteral := by
  refine .current fun _ => Finishes.atToken (seesMappedType.bind fun _ => .ite ?_ ?_)
  · exact (finishes_skipBalanced _ _ (by rw [h.bound]; omega)).bind fun _ => finishes_build _ _
  · exact h.typeMembers.bind fun _ => finishes_build _ _

/-! ## Primary types -/

theorem tupleElement (h : r.Finishing n) : Finishes 1 (n - 1) r.tupleElement := by
  refine (finishes_accept "...").bind fun _ => .current fun t => .peek fun _ => .peek fun _ => ?_
  extract_lets rest
  have hrest (u : PUnit) : Finishes 1 (n - 1) (rest u) :=
    h.type.bind fun _ => (finishes_accept "?").bind fun _ => .pure _
  refine .ite (fun ht => ?_) (hrest ⟨⟩).atToken
  have hkind := Token.ne_eof_of_kind (Bool.and_eq_true_iff.mp ht).1 (by decide)
  refine .advance hkind ((finishes_accept "?").bind fun _ => (finishes_skip ":").bind fun _ => ?_)
  exact (hrest ⟨⟩).forget.mono (by omega)

theorem tupleType (h : r.Finishing n) : Finishes 1 n r.tupleType := by
  refine (finishes_expect "[").bind fun _ => ?_
  refine (h.tupleElement.commaUntil _ (by omega) (by rw [h.bound]; omega)).bind fun _ => ?_
  exact (finishes_skip "]").bind fun _ => finishes_build _ _

theorem typeArguments (h : r.Finishing n) : Finishes 1 n r.typeArguments := by
  refine (finishes_skip "<").bind fun _ => ?_
  refine (h.type.commaList (by omega) (by rw [h.bound]; omega)).bind fun _ => ?_
  exact finishes_closeAngle.bind fun _ => .pure _

theorem queryAccesses (start : Span) {m : Nat} (e : Node) (hm : k ≤ 3 * m + 2) :
    Finishes 0 k (Rules.queryAccesses start m e) := by
  induction m generalizing k e with
  | zero => exact .of_lt (by omega)
  | succ m ih =>
    refine .accept ?_ (.pure _)
    exact finishes_word.bind fun _ => (finishes_build _ _).bind fun _ => ih _ (by omega)

theorem qualifiers {m : Nat} (name : String) (hm : k ≤ 3 * m + 2) :
    Finishes 0 k (Rules.qualifiers m name) := by
  induction m generalizing k name with
  | zero => exact .of_lt (by omega)
  | succ m ih => exact .accept (finishes_word.bind fun _ => ih _ (by omega)) (.pure _)

section
variable {s : ParserState}

/-- Where a numeral has no value, it stands among the tokens. -/
theorem literalNumber {f : Double → Parser Node} (hs : s.Standing) (ht : t ∈ s.tokens.toList)
    (hkind : t.kind = .number) (hf : ∀ k x, Finishes 0 k (f x)) :
    Outcome 0 s ((Rules.literalNumber t.text >>= f) s) := by
  cases hvalue : numericValue t.text with
  | ok x =>
    rw [Rules.literalNumber, hvalue]
    exact hf _ x s hs (Nat.le_refl _)
  | error fault =>
    rw [Rules.literalNumber, hvalue]
    exact .numeral (.refl hs) ⟨t, ht, .number hkind hvalue⟩

theorem numberType (hkind : t.kind = .number) :
    FinishesAt t 1 k (do
      let _ ← advance
      let x ← Rules.literalNumber t.text
      buildAt t (.literalType · (.num x))) := by
  rintro s hs rfl _
  have hk : s.next.kind ≠ .eof := by
    rw [hkind]
    decide
  have hr := hs.reaches_behind hk
  rw [bind_ok (advance_apply hk)]
  exact (literalNumber hr.standing hs.next_mem hkind fun _ _ => finishes_buildAt _ _).of_reaches hr
    (Nat.le_refl _)

theorem negativeType (hs : s.Standing) (hk : s.next.kind ≠ .eof) (hkind : s.behind.next.kind = .number) :
    Outcome 1 s ((do
      let _ ← advance
      let digits ← advance
      let mark ← markFrom s.next.span
      return Node.literalType mark (.num (← Rules.literalNumber digits.text).neg)) s) := by
  have hk' : s.behind.next.kind ≠ .eof := by
    rw [hkind]
    decide
  have hr := hs.reaches_behind hk
  have hr' := hr.standing.reaches_behind hk'
  rw [bind_ok (advance_apply hk), bind_ok (advance_apply hk'), bind_ok (markFrom_apply _ _)]
  have hmarked : Reaches s { s.behind.behind with nextId := s.behind.behind.nextId + 1 } :=
    (hr.trans hr').stay rfl rfl
  exact (literalNumber hmarked.standing hr.standing.next_mem hkind fun _ _ => .pure _).of_reaches
    hmarked (Nat.le_succ _)

end

theorem primaryType (h : r.Finishing n) : Finishes 1 n r.primaryType := by
  refine .current fun t => .ite (fun ht => .token (Token.ne_eof_of_kind ht (by decide))) ?_
  refine .ite (fun ht => numberType (eq_of_beq ht)) fun s hs hnext hload => ?_
  subst hnext
  show Outcome 1 s ((if s.next.isAny ["-"] && s.behind.next.kind == .number then _ else _ : Parser Node) s)
  by_cases ht : (s.next.isAny ["-"] && s.behind.next.kind == .number) = true
  · obtain ⟨hminus, hnumber⟩ := Bool.and_eq_true_iff.mp ht
    rw [if_pos ht]
    exact negativeType hs (Token.ne_eof_of_isAny hminus) (eq_of_beq hnumber)
  rw [if_neg ht]
  refine (?_ : FinishesAt s.next 1 n _) s hs rfl hload
  generalize s.next = t
  refine .ite (fun ht => .token (Token.ne_eof_of_isAny ht)) ?_
  refine .ite (fun ht => .token (Token.ne_eof_of_kind ht (by decide))) ?_
  refine .ite (fun _ => h.typeLiteral.atToken) (.ite (fun _ => h.tupleType.atToken) ?_)
  refine .ite (fun ht => .advance (Token.ne_eof_of_isAny ht) ?nested) ?_
  case nested =>
    exact (h.type.mono (by omega)).bind fun _ => (finishes_skip ")").bind fun _ => .pure _
  refine .ite (fun ht => .advance (Token.ne_eof_of_isAny ht) ?query) ?_
  case query =>
    refine finishes_identifier.bind fun _ => ?_
    exact (queryAccesses _ _ (by rw [h.bound]; omega)).bind fun _ => finishes_build _ _
  refine .ite (fun ht => .token (Token.ne_eof_of_isAny ht)) (.peek fun _ => ?_)
  refine .ite (fun ht => .token ?word) (.ite (fun ht => .advance ?_ ?_) (finishes_failAt t _).atToken)
  case word =>
    exact Token.ne_eof_of_kind (Bool.and_eq_true_iff.mp (Bool.and_eq_true_iff.mp ht).1).1 (by decide)
  · exact Token.ne_eof_of_kind ht (by decide)
  · refine (qualifiers _ (by rw [h.bound]; omega)).bind fun name => .sees fun _ => .current fun _ => ?_
    refine Finishes.atToken (.ite ?_ ((Finishes.pure _).bind fun _ => finishes_build _ _))
    exact (h.typeArguments.mono (by omega)).bind fun _ => finishes_build _ _

/-! ## Operators on types -/

theorem typeSuffixes (h : r.Finishing n) (start : Span) {m : Nat} (type : Node) (hk : k ≤ n)
    (hm : k ≤ 3 * m + 2) : Finishes 0 k (r.typeSuffixes start m type) := by
  induction m generalizing k type with
  | zero => exact .of_lt (by omega)
  | succ m ih =>
    refine .of_token fun t => .sees (.current (.ite (fun ht => ?_) (Finishes.pure _).atToken))
    refine .advance (Token.ne_eof_of_isAny (Bool.and_eq_true_iff.mp ht).1) (.accept ?_ ?_)
    · exact (finishes_build _ _).bind fun _ => ih _ (by omega) (by omega)
    · exact (h.type.mono (by omega)).bind fun _ => (finishes_skip "]").bind fun _ =>
        (finishes_build _ _).bind fun _ => ih _ (by omega) (by omega)

theorem operatorType (h : r.Finishing n) : Finishes 1 n r.operatorType := by
  refine .current fun t => .peek fun _ => .ite (fun ht => ?_) (Finishes.atToken ?_)
  · refine .advance (Token.ne_eof_of_isAny (Bool.and_eq_true_iff.mp ht).1) ?_
    exact (h.typeOperator.mono (by omega)).bind fun _ => finishes_build _ _
  · exact h.primaryType.bind fun _ => h.typeSuffixes _ _ (by omega) (by rw [h.bound]; omega)

theorem joinedTypes {item : Parser Node} (hi : Finishes 1 n item) (joiner : String) {m : Nat} (hk : k ≤ n)
    (hm : k ≤ 3 * m + 2) : Finishes 0 k (Rules.joinedTypes joiner item m) := by
  induction m generalizing k with
  | zero => exact .of_lt (by omega)
  | succ m ih =>
    refine .accept ((hi.mono (by omega)).bind fun _ => ?_) (.pure _)
    exact (ih (by omega) (by omega)).bind fun _ => .pure _

theorem joined (h : r.Finishing n) {item : Parser Node} (hi : Finishes 1 n item) (joiner : String)
    (f : Mark → List Node → Node) : Finishes 1 n (r.joined joiner f item) := by
  refine .current fun _ => Finishes.atToken ((finishes_accept joiner).bind fun _ => hi.bind fun _ => ?_)
  refine (joinedTypes hi _ (by omega) (by rw [h.bound]; omega)).bind fun _ => ?_
  exact .ite (.pure _) (finishes_build _ _)

theorem unionType (h : r.Finishing n) : Finishes 1 n r.unionType :=
  h.joined (h.joined h.operatorType _ _) _ _

theorem functionTypeHead (h : r.Finishing n) : Finishes 1 n r.functionTypeHead :=
  h.typeParameters?.bind fun _ => h.parameters.bind fun _ => .sees fun _ =>
    .before (finishes_fail _) (.pure _)

theorem constructOrUnion (h : r.Finishing n) : Finishes 1 n r.constructOrUnion := by
  refine .current fun t => .peek fun _ => Finishes.atToken (.ite ?_ h.unionType)
  refine (finishes_accept _).bind fun _ => finishes_advance.bind fun _ => h.functionTypeHead.bind fun _ => ?_
  exact (finishes_skip "=>").bind fun _ => (h.type.mono (by omega)).bind fun _ => finishes_build _ _

theorem anyType (h : r.Finishing n) : Finishes 1 n r.anyType := by
  refine .current fun t => Finishes.atToken (.ite ?_ h.constructOrUnion)
  refine h.functionTypeHead.speculate.bind fun head => ?_
  cases head with
  | none => exact h.constructOrUnion
  | some params =>
    exact (finishes_skip "=>").bind fun _ => (h.resultType.mono (by omega)).bind fun _ => finishes_build _ _

end Rules.Finishing

end ScriptBridge.TypeScript
