import ScriptBridge.TypeScript.Grammar
import ScriptBridge.Proofs.TypeScript.FinishExpressions

/-!
# Rules for statements come to an end

Every rule for statements and declarations comes to an end if the rules one level of nesting further in do,
and so by induction on the nesting all rules do.

* `Rules.Finishing.anyStatement`: any statement.
* `finishing_rules`: the rules for any number of levels of nesting.
-/

namespace ScriptBridge.TypeScript

open ScriptBridge.TypeScript.Parser

namespace Rules.Finishing

variable {r : Rules} {n k : Nat} {t : Token}

/-! ## Modifiers -/

theorem modifierOf (t : Token) : Finishes 0 k (Rules.modifierOf t) :=
  (finishes_freshMark t.span).bind fun _ => .pure _

theorem declarationModifiers {m : Nat} (hm : k ≤ 3 * m + 2) :
    Finishes 0 k (Rules.declarationModifiers m) := by
  induction m generalizing k with
  | zero => exact .of_lt (by omega)
  | succ m ih =>
    refine .current fun t => .peek fun _ => .ite (fun ht => ?_) (Finishes.pure _).atToken
    have hkind : t.kind ≠ .eof := by
      simp only [isModifierBefore, Bool.and_eq_true, beq_iff_eq] at ht
      rw [ht.1.1]
      decide
    exact .advance hkind ((modifierOf t).bind fun _ => (ih (by omega)).bind fun _ => .pure _)

theorem seesStatementEnd : Finishes 0 k Rules.seesStatementEnd :=
  .current fun _ => (Finishes.pure _).atToken

/-! ## Imports and exports -/

theorem moduleSpecifier : Finishes 1 k Rules.moduleSpecifier := by
  refine .current fun t => .ite (fun ht => ?_) (finishes_failAt t _).atToken
  exact .advance (Token.ne_eof_of_kind ht (by decide)) ((finishes_freshMark _).bind fun _ => .pure _)

theorem typeOnlyMark : Finishes 0 k Rules.typeOnlyMark :=
  .peek fun _ => .sees fun _ => .ite (finishes_advance.bind fun _ => .pure _) (.pure _)

theorem exportSpecifier : Finishes 1 k Rules.exportSpecifier := by
  refine .current fun _ => Finishes.atToken (typeOnlyMark.bind fun _ => finishes_word.bind fun _ => ?_)
  exact .accept (finishes_word.bind fun _ => finishes_build _ _) (finishes_build _ _)

theorem exportList (h : r.Finishing n) (start : Span) (isTypeOnly : Bool) :
    Finishes 1 n (r.exportList start isTypeOnly) := by
  refine .accept ?all ?some
  case all =>
    have hrest {k : Nat} : Finishes 0 k (do
        skip "from"
        let specifier ← Rules.moduleSpecifier
        semicolon
        build start (.exportDeclaration · none (some specifier) isTypeOnly)) :=
      (finishes_skip "from").bind fun _ => moduleSpecifier.bind fun _ => finishes_semicolon.bind fun _ =>
        finishes_build _ _
    exact .accept (finishes_word.bind fun _ => hrest) hrest
  case some =>
    refine (finishes_skip _).bind fun _ => ?_
    refine (exportSpecifier.commaUntil _ (Nat.le_refl _) (by rw [h.bound]; omega)).bind fun elements => ?_
    refine (finishes_skip _).bind fun _ => ?_
    extract_lets rest
    have hrest {k : Nat} (specifier : Option (Mark × String)) : Finishes 0 k (rest specifier) :=
      finishes_semicolon.bind fun _ => finishes_build _ _
    exact .accept ((moduleSpecifier.map _).bind fun _ => hrest _) (hrest none)

theorem importSpecifier : Finishes 1 k Rules.importSpecifier := by
  refine .current fun _ => Finishes.atToken (typeOnlyMark.bind fun _ => finishes_word.bind fun _ => ?_)
  refine .accept (finishes_identifier.bind fun _ => finishes_build _ _) ?_
  exact .ite (finishes_failSpan _ _) (finishes_build _ _)

theorem clauseTypeOnly : Finishes 0 k Rules.clauseTypeOnly :=
  .peek fun _ => .sees fun _ => .ite (finishes_advance.bind fun _ => .pure _) (.pure _)

theorem clauseName : Finishes 0 k Rules.clauseName := by
  refine .current fun _ => Finishes.atToken (.ite ?_ (.peek fun _ => ?_))
  · refine finishes_identifier.bind fun _ => .sees fun _ => .before (finishes_fail _) ?_
    exact (finishes_accept ",").bind fun _ => .pure _
  · exact .ite (finishes_word.forget.map _) (.pure _)

theorem importClause (h : r.Finishing n) : Finishes 0 n r.importClause := by
  refine .current fun _ => Finishes.atToken (clauseTypeOnly.bind fun _ => clauseName.bind fun _ => ?_)
  refine .accept ?_ (.accept ?_ (finishes_build _ _))
  · exact (finishes_skip "as").bind fun _ => finishes_identifier.bind fun _ => finishes_build _ _
  · refine (importSpecifier.commaUntil _ (Nat.le_refl _) (by rw [h.bound]; omega)).bind fun _ => ?_
    exact (finishes_skip _).bind fun _ => finishes_build _ _

theorem importDeclaration (h : r.Finishing n) : Finishes 1 n r.importDeclaration := by
  refine (finishes_expect "import").bind fun _ => .current fun _ => Finishes.atToken (.ite ?_ ?_)
  · exact moduleSpecifier.bind fun _ => finishes_semicolon.bind fun _ => finishes_build _ _
  · refine (h.importClause.mono (by omega)).bind fun _ => (finishes_skip "from").bind fun _ =>
      moduleSpecifier.bind fun _ => .current fun _ => Finishes.atToken ?_
    extract_lets rest
    have hrest {k : Nat} (u : PUnit) : Finishes 0 k (rest u) :=
      finishes_semicolon.bind fun _ => finishes_build _ _
    refine .ite (finishes_advance.bind fun _ => ?_) (hrest ⟨⟩)
    exact (finishes_skipBalanced _ _ (by rw [h.bound]; omega)).bind hrest

/-! ## Declarations -/

theorem variableDeclaration (h : r.Finishing n) : Finishes 1 n r.variableDeclaration := by
  refine .current fun _ => Finishes.atToken (h.binding.bind fun _ => (finishes_accept "!").bind fun _ => ?_)
  refine (h.annotation?.mono (by omega)).bind fun _ => .accept ?_ (finishes_build _ _)
  exact ((h.assignment.map _).mono (by omega)).bind fun _ => finishes_build _ _

theorem variableList (h : r.Finishing n) : Finishes 1 n r.variableList := by
  refine finishes_advance.bind fun _ => ?_
  exact (h.variableDeclaration.commaList (Nat.le_refl _) (by rw [h.bound]; omega)).bind fun _ =>
    finishes_build _ _

theorem functionDeclaration (h : r.Finishing n) (start : Span) (modifiers : List Modifier) :
    Finishes 1 n (r.functionDeclaration start modifiers) := by
  refine (finishes_skip _).bind fun _ => (finishes_accept "*").bind fun _ => .seesAny fun _ => ?_
  extract_lets rest
  have hrest (name : Option Ident) : Finishes 0 n (rest name) := by
    refine h.typeParameters?.bind fun _ => h.parameters.bind fun _ => (h.resultType?.mono (by omega)).bind
      fun _ => .sees fun _ => .ite ?_ ?_
    · exact ((h.block.map _).mono (by omega)).bind fun _ => finishes_build _ _
    · exact finishes_semicolon.bind fun _ => (Finishes.pure none).bind fun _ => finishes_build _ _
  refine .ite ((hrest none).mono (by omega)) ?_
  exact (finishes_identifier.map _).bind fun name => (hrest name).mono (by omega)

theorem skipClassHead {m : Nat} (hm : k ≤ 3 * m + 2) : Finishes 0 k (Rules.skipClassHead m) := by
  induction m generalizing k with
  | zero => exact .of_lt (by omega)
  | succ m ih =>
    refine .current fun t => .ite (fun _ => (Finishes.pure _).atToken) (.unless fun ht => ?_)
    exact .advance (by simpa using ht) (ih (by omega))

theorem classDeclaration (h : r.Finishing n) (start : Span) (modifiers : List Modifier) :
    Finishes 1 n (r.classDeclaration start modifiers) := by
  refine (finishes_skip _).bind fun _ => .current fun _ => Finishes.atToken ?_
  extract_lets rest
  have hrest {k : Nat} (hk : k ≤ n) (name : Option Ident) : Finishes 0 k (rest name) := by
    refine (skipClassHead (by rw [h.bound]; omega)).bind fun _ => ?_
    exact (finishes_skipBalanced _ _ (by rw [h.bound]; omega)).bind fun _ => finishes_build _ _
  refine .ite ?_ (hrest (by omega) none)
  exact (finishes_identifier.map _).bind fun name => hrest (by omega) name

theorem enumMember (h : r.Finishing n) : Finishes 1 n r.enumMember := by
  refine .current fun _ => Finishes.atToken (h.propertyName.bind fun _ => .accept ?_ (finishes_build _ _))
  exact ((h.assignment.map _).mono (by omega)).bind fun _ => finishes_build _ _

theorem enumDeclaration (h : r.Finishing n) (start : Span) (modifiers : List Modifier) :
    Finishes 1 n (r.enumDeclaration start modifiers) := by
  refine (finishes_skip _).bind fun _ => finishes_identifier.bind fun _ => (finishes_skip _).bind fun _ => ?_
  refine (h.enumMember.commaUntil _ (by omega) (by rw [h.bound]; omega)).bind fun _ => ?_
  exact (finishes_skip _).bind fun _ => finishes_build _ _

theorem heritageType (h : r.Finishing n) : Finishes 1 n r.heritageType := by
  refine h.primaryType.bind fun type => ?_
  cases type with
  | typeReference => exact .pure _
  | _ => exact finishes_failSpan _ _

theorem interfaceDeclaration (h : r.Finishing n) (start : Span) (modifiers : List Modifier) :
    Finishes 1 n (r.interfaceDeclaration start modifiers) := by
  refine (finishes_skip _).bind fun _ => finishes_identifier.bind fun _ =>
    (h.typeParameters?.mono (by omega)).bind fun _ => ?_
  extract_lets rest
  have hrest (heritage : List Node) : Finishes 0 n (rest heritage) :=
    h.typeMembers.bind fun _ => finishes_build _ _
  refine .accept ?_ ((hrest []).mono (by omega))
  exact (h.heritageType.commaList (by omega) (by rw [h.bound]; omega)).bind fun heritage =>
    (hrest heritage).mono (by omega)

theorem typeAlias (h : r.Finishing n) (start : Span) (modifiers : List Modifier) :
    Finishes 1 n (r.typeAlias start modifiers) :=
  (finishes_skip _).bind fun _ => finishes_identifier.bind fun _ => (h.typeParameters?.mono (by omega)).bind
    fun _ => (finishes_skip "=").bind fun _ => (h.type.mono (by omega)).bind fun _ =>
      finishes_semicolon.bind fun _ => finishes_build _ _

theorem moduleNameTail {m : Nat} (name : Ident) (hm : k ≤ 3 * m + 2) :
    Finishes 0 k (Rules.moduleNameTail m name) := by
  induction m generalizing k name with
  | zero => exact .of_lt (by omega)
  | succ m ih =>
    refine .accept (finishes_identifier.bind fun _ => (finishes_markFrom _).bind fun _ => ?_) (.pure _)
    exact ih _ (by omega)

theorem moduleDeclaration (h : r.Finishing n) (start : Span) (modifiers : List Modifier) :
    Finishes 1 n (r.moduleDeclaration start modifiers) := by
  refine finishes_advance.bind fun keyword => ?_
  extract_lets rest
  have hrest {k : Nat} (hk : k ≤ n) (name : Ident) : Finishes 1 k (rest name) := by
    refine (finishes_skip _).bind fun _ => ?_
    refine (h.statement.itemsUntil _ (by omega) (by rw [h.bound]; omega)).bind fun _ => ?_
    exact (finishes_skip _).bind fun _ => finishes_build _ _
  refine .current fun _ => Finishes.atToken (.ite ?_ (.ite ?_ ?_))
  · exact (finishes_identOf _).bind fun name => hrest (Nat.le_refl n) name
  · exact finishes_advance.bind fun t => (finishes_identOf t).bind fun name => hrest (Nat.le_refl n) name
  · refine finishes_identifier.bind fun name => (moduleNameTail _ (by rw [h.bound]; omega)).bind fun _ => ?_
    exact (hrest (by omega) _).forget

/-! ## Statements -/

theorem headExpression (h : r.Finishing n) : Finishes 1 n r.headExpression :=
  (finishes_skip "(").bind fun _ => (h.expression.withIn.mono (by omega)).bind fun _ =>
    (finishes_skip ")").bind fun _ => .pure _

theorem ifStatement (h : r.Finishing n) : Finishes 1 n r.ifStatement := by
  refine (finishes_expect _).bind fun _ => (h.headExpression.mono (by omega)).bind fun _ =>
    (h.statement.mono (by omega)).bind fun _ => .accept ?_ (finishes_build _ _)
  exact ((h.statement.map _).mono (by omega)).bind fun _ => finishes_build _ _

theorem forStart (h : r.Finishing n) : Finishes 0 (n - 2) r.forStart := by
  refine .current fun _ => Finishes.atToken (.ite (.pure _) (.peek fun _ => ?_))
  exact .ite ((h.variableList.forget.map _).mono (by omega)) (h.expression.forget.map _)

theorem forTail (h : r.Finishing n) (start : Span) (first : Option Node) :
    Finishes 1 n (r.forTail start first) := by
  refine (finishes_skip ";").bind fun _ => .sees fun _ => ?_
  extract_lets afterTest
  have hafterTest (test : Option Node) : Finishes 0 n (afterTest test) := by
    refine (finishes_skip ";").bind fun _ => .sees fun _ => ?_
    extract_lets rest
    have hrest (advance : Option Node) : Finishes 0 n (rest advance) :=
      (finishes_skip ")").bind fun _ => (h.statement.mono (by omega)).bind fun _ => finishes_build _ _
    refine .ite ((hrest none).mono (by omega)) ?_
    exact ((h.expression.withIn.map _).mono (by omega)).bind fun advance => (hrest advance).mono (by omega)
  refine .ite ((hafterTest none).mono (by omega)) ?_
  exact ((h.expression.withIn.map _).mono (by omega)).bind fun test => (hafterTest test).mono (by omega)

theorem forStatement (h : r.Finishing n) : Finishes 1 n r.forStatement := by
  refine (finishes_expect _).bind fun _ => (finishes_accept _).bind fun _ =>
    (finishes_skip "(").bind fun _ => ?_
  refine ((h.forStart.withNoIn true).mono (by omega)).bind fun first => ?_
  cases first with
  | none => exact (h.forTail _ _).forget.mono (by omega)
  | some target =>
    refine .accept ?_ (.accept ?_ ((h.forTail _ _).forget.mono (by omega)))
    · exact (h.assignment.withIn.mono (by omega)).bind fun _ => (finishes_skip ")").bind fun _ =>
        (h.statement.mono (by omega)).bind fun _ => finishes_build _ _
    · exact (h.expression.withIn.mono (by omega)).bind fun _ => (finishes_skip ")").bind fun _ =>
        (h.statement.mono (by omega)).bind fun _ => finishes_build _ _

theorem clauseTest (h : r.Finishing n) : Finishes 1 n r.clauseTest := by
  refine .current fun t => Finishes.atToken (.accept ((h.expression.withIn.forget.map _).mono (by omega)) ?_)
  exact .accept (.pure _) (finishes_failAt t _)

theorem switchClause (h : r.Finishing n) : Finishes 1 n r.switchClause := by
  refine .current fun t => Finishes.atToken (h.clauseTest.bind fun test => (finishes_skip ":").bind fun _ => ?_)
  refine (h.statement.itemsUntil _ (by omega) (by rw [h.bound]; omega)).bind fun _ => ?_
  cases test with
  | none => exact finishes_build _ _
  | some test => exact finishes_build _ _

theorem switchClauses (h : r.Finishing n) {m : Nat} (hk : k ≤ n) (hm : k ≤ 3 * m + 2) :
    Finishes 0 k (r.switchClauses m) := by
  induction m generalizing k with
  | zero => exact .of_lt (by omega)
  | succ m ih =>
    refine .sees fun _ => .ite (.pure _) ((h.switchClause.mono hk).bind fun _ => ?_)
    exact (ih (by omega) (by omega)).bind fun _ => .pure _

theorem switchStatement (h : r.Finishing n) : Finishes 1 n r.switchStatement := by
  refine (finishes_expect _).bind fun _ => (h.headExpression.mono (by omega)).bind fun _ =>
    (finishes_skip _).bind fun _ => ?_
  exact (h.switchClauses (by omega) (by rw [h.bound]; omega)).bind fun _ =>
    (finishes_skip _).bind fun _ => finishes_build _ _

theorem catchBinding (h : r.Finishing n) : Finishes 0 n r.catchBinding := by
  refine .accept ?_ (.pure _)
  exact (h.binding.mono (by omega)).bind fun _ => (h.annotation?.mono (by omega)).bind fun _ =>
    (finishes_skip ")").bind fun _ => .pure _

theorem catchClause (h : r.Finishing n) : Finishes 1 n r.catchClause :=
  finishes_advance.bind fun _ => h.catchBinding.bind fun _ => (finishes_markFrom _).bind fun _ =>
    h.block.bind fun _ => .pure _

theorem tryStatement (h : r.Finishing n) : Finishes 1 n r.tryStatement := by
  refine (finishes_expect "try").bind fun _ => (h.block.mono (by omega)).bind fun _ => .sees fun _ => ?_
  extract_lets afterHandler
  have hafterHandler {k : Nat} (hk : k ≤ n) (handler : Option Node) :
      Finishes 0 k (afterHandler handler) := by
    show Finishes 0 k (accept "finally" >>= _)
    extract_lets rest
    have hrest {k : Nat} (final : Option Node) : Finishes 0 k (rest final) :=
      .before (finishes_fail _) (finishes_build _ _)
    exact .accept (((h.block.map _).mono (by omega)).bind fun _ => hrest _) (hrest none)
  refine .ite (((h.catchClause.map _).mono (by omega)).bind fun handler => ?_) (hafterHandler (by omega) none)
  exact hafterHandler (by omega) handler

theorem jumpStatement (ht : t.kind ≠ .eof) : FinishesAt t 1 k Rules.jumpStatement := by
  refine .advance ht (.current fun _ => Finishes.atToken ?_)
  extract_lets rest
  have hrest {k : Nat} (label : Option Ident) : Finishes 0 k (rest label) :=
    finishes_semicolon.bind fun _ => finishes_build _ _
  exact .ite ((finishes_identifier.map _).bind fun _ => hrest _) (hrest none)

theorem wordStatement? (h : r.Finishing n) {p : Parser Node} (hp : r.wordStatement? t = some p) :
    FinishesAt t 1 n p := by
  unfold Rules.wordStatement? at hp
  split at hp
  · cases hp
  rename_i hkind
  have ht : t.kind ≠ .eof := by
    intro heof
    simp [heof] at hkind
  split at hp <;> cases hp
  · exact h.ifStatement.atToken
  · exact h.forStatement.atToken
  · refine .advance ht ((h.headExpression.mono (by omega)).bind fun _ => ?_)
    exact (h.statement.mono (by omega)).bind fun _ => finishes_build _ _
  · refine .advance ht ((h.statement.mono (by omega)).bind fun _ => (finishes_skip _).bind fun _ => ?_)
    exact (h.headExpression.mono (by omega)).bind fun _ => finishes_semicolon.bind fun _ =>
      finishes_build _ _
  · exact h.switchStatement.atToken
  · refine .advance ht (seesStatementEnd.bind fun _ => ?_)
    have hrest {k : Nat} (value : Option Node) : Finishes 0 k (do
        semicolon
        build t.span (.returnStatement · value)) :=
      finishes_semicolon.bind fun _ => finishes_build _ _
    exact .ite (hrest none) (((h.expression.map _).mono (by omega)).bind fun _ => hrest _)
  · exact jumpStatement ht
  · exact jumpStatement ht
  · exact .advance ht ((h.expression.mono (by omega)).bind fun _ => finishes_semicolon.bind fun _ =>
      finishes_build _ _)
  · exact h.tryStatement.atToken

theorem plainStatement (h : r.Finishing n) : Finishes 1 (n - 2) r.plainStatement := by
  refine .current fun t => .peek fun _ => .ite (fun _ => (h.block.mono (by omega)).atToken) ?_
  refine .ite (fun ht => .advance (Token.ne_eof_of_isAny ht) (finishes_build _ _)) ?_
  split
  · rename_i p hp
    exact fun s hs hnext hload => h.wordStatement? hp s hs hnext (by omega)
  refine Finishes.atToken (.ite ?_ ?_)
  · exact finishes_identifier.bind fun _ => (finishes_skip ":").bind fun _ =>
      (h.statement.mono (by omega)).bind fun _ => finishes_build _ _
  · exact h.expression.bind fun _ => finishes_semicolon.bind fun _ => finishes_build _ _

theorem declarationOrStatement (h : r.Finishing n) (start : Span) (modifiers : List Modifier) :
    Finishes 1 (n - 2) (r.declarationOrStatement start modifiers) := by
  refine .current fun t => .peek fun next => Finishes.atToken (.ite ?_ ?_)
  · exact (h.variableList.mono (by omega)).bind fun _ => finishes_semicolon.bind fun _ =>
      finishes_build _ _
  refine .ite ((h.functionDeclaration _ _).mono (by omega)) ?_
  refine .ite ((h.classDeclaration _ _).mono (by omega)) ?_
  refine .ite ((h.enumDeclaration _ _).mono (by omega)) ?_
  refine .ite ((h.interfaceDeclaration _ _).mono (by omega)) ?_
  refine .ite ((h.typeAlias _ _).mono (by omega)) ?_
  refine .ite ((h.moduleDeclaration _ _).mono (by omega)) ?_
  refine .ite ((h.moduleDeclaration _ _).mono (by omega)) ?_
  exact .ite h.plainStatement (finishes_failAt t _)

theorem exportDefault (h : r.Finishing n) (start : Span) (modifiers : List Modifier) :
    Finishes 1 (n - 2) (r.exportDefault start modifiers) := by
  refine .current fun t => .peek fun _ => Finishes.atToken (.ite ?_ ?_)
  · exact (declarationModifiers (by rw [h.bound]; omega)).bind fun _ => h.declarationOrStatement _ _
  · exact (h.assignment.mono (by omega)).bind fun _ => finishes_semicolon.bind fun _ => finishes_build _ _

theorem exportStatement (h : r.Finishing n) (ht : t.kind ≠ .eof) :
    FinishesAt t 1 (n - 2) r.exportStatement := by
  refine .advance ht ((modifierOf _).bind fun _ => .current fun t => Finishes.atToken ?_)
  refine .ite ((h.exportList _ _).forget.mono (by omega)) (.peek fun _ => .ite ?_ (.accept ?_ ?_))
  · exact finishes_advance.bind fun _ => (h.exportList _ _).forget.mono (by omega)
  · exact (h.assignment.mono (by omega)).bind fun _ => finishes_semicolon.bind fun _ => finishes_build _ _
  refine .ite ?_ (.ite (finishes_failAt t _) ?_)
  · exact finishes_advance.bind fun t => (modifierOf t).bind fun _ =>
      (h.exportDefault _ _).forget.mono (by omega)
  · exact (declarationModifiers (by rw [h.bound]; omega)).bind fun _ =>
      (h.declarationOrStatement _ _).forget.mono (by omega)

theorem anyStatement (h : r.Finishing n) : Finishes 1 (n - 2) r.anyStatement := by
  refine .current fun t => .ite (fun ht => h.exportStatement (Token.ne_eof_of_isAny ht)) ?_
  refine .peek fun _ => Finishes.atToken (.ite (h.importDeclaration.mono (by omega)) ?_)
  exact (declarationModifiers (by rw [h.bound]; omega)).bind fun _ => h.declarationOrStatement _ _

end Rules.Finishing

/-- The rules for any number of levels of nesting come to an end if these are enough for what is left to
read. -/
theorem finishing_rules (n : Nat) : (rules n).Finishing n := by
  induction n with
  | zero => constructor <;> intros <;> first | rfl | exact .of_lt (by omega)
  | succ n ih =>
    exact {
      bound := rfl
      statement := ih.anyStatement.mono (by omega)
      expression := ih.anyExpression.mono (by omega)
      assignment := ih.assignmentExpression
      binary := ih.binaryExpression
      unary := ih.unaryExpression
      construction := ih.newExpression
      bindingName := ih.binding
      type := ih.anyType
      typeOperator := ih.operatorType }

end ScriptBridge.TypeScript
