import ScriptBridge.TypeScript.Grammar
import ScriptBridge.Proofs.TypeScript.AdvanceExpressions

/-!
# Rules for statements move on

Every rule for statements and declarations only moves on if the rules one level of nesting further in do,
and so by induction on the nesting all rules do.

* `Rules.Advancing.anyStatement`: any statement.
* `advancing_rules`: the rules for any number of levels of nesting.
-/

namespace ScriptBridge.TypeScript

open ScriptBridge.TypeScript.Parser

namespace Rules.Advancing

variable {r : Rules}

/-! ## Modifiers -/

theorem modifierOf (t : Token) : Keeps (Rules.modifierOf t) :=
  (keeps_freshMark t.span).bind fun _ => keeps_pure _

theorem declarationModifiers (n : Nat) : Keeps (Rules.declarationModifiers n) := by
  induction n with
  | zero => exact keeps_throw _
  | succ n ih =>
    refine keeps_current.bind fun _ => (keeps_peek 1).bind fun _ => .ite ?_ (keeps_pure _)
    exact keeps_advance.bind fun t => (modifierOf t).bind fun _ => ih.bind fun _ => keeps_pure _

theorem seesStatementEnd : Keeps Rules.seesStatementEnd :=
  keeps_current.bind fun _ => keeps_pure _

/-! ## Imports and exports -/

theorem moduleSpecifier : Keeps Rules.moduleSpecifier := by
  refine keeps_current.bind fun t => .ite ?_ (keeps_failAt t _)
  exact keeps_advance.bind fun _ => (keeps_freshMark _).bind fun _ => keeps_pure _

theorem typeOnlyMark : Keeps Rules.typeOnlyMark :=
  (keeps_peek 1).bind fun _ => (keeps_sees "type").bind fun _ =>
    .ite (keeps_advance.bind fun _ => keeps_pure _) (keeps_pure _)

theorem exportSpecifier : Keeps Rules.exportSpecifier := by
  refine keeps_current.bind fun _ => typeOnlyMark.bind fun _ => keeps_word.bind fun _ => ?_
  refine (keeps_accept "as").bind fun _ => .ite ?_ (keeps_build _ _)
  exact keeps_word.bind fun _ => keeps_build _ _

theorem exportList (start : Span) (isTypeOnly : Bool) : Keeps (r.exportList start isTypeOnly) := by
  refine (keeps_accept "*").bind fun _ => .ite ?all ?some
  case all =>
    have hrest : Keeps (do
        skip "from"
        let specifier ← Rules.moduleSpecifier
        semicolon
        build start (.exportDeclaration · none (some specifier) isTypeOnly)) :=
      (keeps_skip "from").bind fun _ => moduleSpecifier.bind fun _ => keeps_semicolon.bind fun _ =>
        keeps_build _ _
    exact (keeps_accept "as").bind fun _ => .before keeps_word hrest
  case some =>
    refine (keeps_skip _).bind fun _ => (exportSpecifier.commaUntil _ _).bind fun elements => ?_
    refine (keeps_skip _).bind fun _ => (keeps_accept "from").bind fun _ => ?_
    extract_lets rest
    have hrest (specifier : Option (Mark × String)) : Keeps (rest specifier) :=
      keeps_semicolon.bind fun _ => keeps_build _ _
    exact .ite (moduleSpecifier.map.bind hrest) (hrest none)

theorem importSpecifier : Keeps Rules.importSpecifier := by
  refine keeps_current.bind fun _ => typeOnlyMark.bind fun _ => keeps_word.bind fun _ => ?_
  refine (keeps_accept "as").bind fun _ => .ite (keeps_identifier.bind fun _ => keeps_build _ _) ?_
  exact .ite (keeps_failSpan _ _) (keeps_build _ _)

theorem clauseTypeOnly : Keeps Rules.clauseTypeOnly :=
  (keeps_peek 1).bind fun _ => (keeps_sees "type").bind fun _ =>
    .ite (keeps_advance.bind fun _ => keeps_pure _) (keeps_pure _)

theorem clauseName : Keeps Rules.clauseName := by
  refine keeps_current.bind fun _ => .ite ?_ ((keeps_peek 1).bind fun _ => ?_)
  · refine keeps_identifier.bind fun _ => (keeps_sees "=").bind fun _ => .before (keeps_fail _) ?_
    exact (keeps_accept ",").bind fun _ => keeps_pure _
  · exact .ite keeps_word.map (keeps_pure _)

theorem importClause : Keeps r.importClause := by
  refine keeps_current.bind fun _ => clauseTypeOnly.bind fun _ => clauseName.bind fun _ => ?_
  refine (keeps_accept "*").bind fun _ => .ite ?_ ((keeps_accept _).bind fun _ => ?_)
  · exact (keeps_skip "as").bind fun _ => keeps_identifier.bind fun _ => keeps_build _ _
  · refine .ite ((importSpecifier.commaUntil _ _).bind fun _ => ?_) (keeps_build _ _)
    exact (keeps_skip _).bind fun _ => keeps_build _ _

theorem importDeclaration : Keeps r.importDeclaration := by
  refine (keeps_expect "import").bind fun _ => keeps_current.bind fun _ => .ite ?_ ?_
  · exact moduleSpecifier.bind fun _ => keeps_semicolon.bind fun _ => keeps_build _ _
  · refine importClause.bind fun _ => (keeps_skip "from").bind fun _ => moduleSpecifier.bind fun _ => ?_
    refine keeps_current.bind fun _ => ?_
    extract_lets rest
    have hrest (u : PUnit) : Keeps (rest u) := keeps_semicolon.bind fun _ => keeps_build _ _
    refine .ite (keeps_advance.bind fun _ => ?_) (hrest ⟨⟩)
    exact (keeps_skipBalanced _ _ _).bind hrest

/-! ## Declarations -/

theorem variableDeclaration (h : r.Advancing) : Keeps r.variableDeclaration := by
  refine keeps_current.bind fun _ => h.binding.bind fun _ => (keeps_accept "!").bind fun _ => ?_
  refine h.annotation?.bind fun _ => (keeps_accept "=").bind fun _ => ?_
  exact .ite (h.assignment.map.bind fun _ => keeps_build _ _) (keeps_build _ _)

theorem variableList (h : r.Advancing) : Keeps r.variableList :=
  keeps_advance.bind fun _ => (h.variableDeclaration.commaList _).bind fun _ => keeps_build _ _

theorem functionDeclaration (h : r.Advancing) (start : Span) (modifiers : List Modifier) :
    Keeps (r.functionDeclaration start modifiers) := by
  refine (keeps_skip _).bind fun _ => (keeps_accept "*").bind fun _ => (keeps_seesAny _).bind fun _ => ?_
  extract_lets rest
  have hrest (name : Option Ident) : Keeps (rest name) := by
    refine h.typeParameters?.bind fun _ => h.parameters.bind fun _ => h.resultType?.bind fun _ => ?_
    refine (keeps_sees _).bind fun _ => .ite (h.block.map.bind fun _ => keeps_build _ _) ?_
    exact keeps_semicolon.bind fun _ => (keeps_pure none).bind fun _ => keeps_build _ _
  exact .ite (hrest none) (keeps_identifier.map.bind hrest)

theorem skipClassHead (n : Nat) : Keeps (Rules.skipClassHead n) := by
  induction n with
  | zero => exact keeps_throw _
  | succ n ih =>
    refine keeps_current.bind fun t => .ite (keeps_pure _) ?_
    exact .before (keeps_failAt t _) (keeps_advance.bind fun _ => ih)

theorem classDeclaration (start : Span) (modifiers : List Modifier) :
    Keeps (r.classDeclaration start modifiers) := by
  refine (keeps_skip _).bind fun _ => keeps_current.bind fun _ => ?_
  extract_lets rest
  have hrest (name : Option Ident) : Keeps (rest name) :=
    (skipClassHead _).bind fun _ => (keeps_skipBalanced _ _ _).bind fun _ => keeps_build _ _
  exact .ite (keeps_identifier.map.bind hrest) (hrest none)

theorem enumMember (h : r.Advancing) : Keeps r.enumMember := by
  refine keeps_current.bind fun _ => h.propertyName.bind fun _ => (keeps_accept "=").bind fun _ => ?_
  exact .ite (h.assignment.map.bind fun _ => keeps_build _ _) (keeps_build _ _)

theorem enumDeclaration (h : r.Advancing) (start : Span) (modifiers : List Modifier) :
    Keeps (r.enumDeclaration start modifiers) :=
  (keeps_skip _).bind fun _ => keeps_identifier.bind fun _ => (keeps_skip _).bind fun _ =>
    (h.enumMember.commaUntil _ _).bind fun _ => (keeps_skip _).bind fun _ => keeps_build _ _

theorem heritageType (h : r.Advancing) : Keeps r.heritageType := by
  refine h.primaryType.bind fun type => ?_
  cases type with
  | typeReference => exact keeps_pure _
  | _ => exact keeps_failSpan _ _

theorem interfaceDeclaration (h : r.Advancing) (start : Span) (modifiers : List Modifier) :
    Keeps (r.interfaceDeclaration start modifiers) := by
  refine (keeps_skip _).bind fun _ => keeps_identifier.bind fun _ => h.typeParameters?.bind fun _ => ?_
  refine (keeps_accept _).bind fun _ => ?_
  extract_lets rest
  have hrest (heritage : List Node) : Keeps (rest heritage) :=
    h.typeMembers.bind fun _ => keeps_build _ _
  exact .ite ((h.heritageType.commaList _).bind hrest) (hrest [])

theorem typeAlias (h : r.Advancing) (start : Span) (modifiers : List Modifier) :
    Keeps (r.typeAlias start modifiers) :=
  (keeps_skip _).bind fun _ => keeps_identifier.bind fun _ => h.typeParameters?.bind fun _ =>
    (keeps_skip "=").bind fun _ => h.type.bind fun _ => keeps_semicolon.bind fun _ => keeps_build _ _

theorem moduleNameTail (n : Nat) (name : Ident) : Keeps (Rules.moduleNameTail n name) := by
  induction n generalizing name with
  | zero => exact keeps_throw _
  | succ n ih =>
    refine (keeps_accept ".").bind fun _ => .ite ?_ (keeps_pure _)
    exact keeps_identifier.bind fun _ => (keeps_markFrom _).bind fun _ => ih _

theorem moduleDeclaration (h : r.Advancing) (start : Span) (modifiers : List Modifier) :
    Keeps (r.moduleDeclaration start modifiers) := by
  refine keeps_advance.bind fun keyword => ?_
  extract_lets rest
  have hrest (name : Ident) : Keeps (rest name) :=
    (keeps_skip _).bind fun _ => (h.statement.itemsUntil _ _).bind fun _ =>
      (keeps_skip _).bind fun _ => keeps_build _ _
  refine keeps_current.bind fun _ => .ite ((keeps_identOf _).bind hrest) (.ite ?_ ?_)
  · exact keeps_advance.bind fun t => (keeps_identOf t).bind hrest
  · exact keeps_identifier.bind fun _ => (moduleNameTail _ _).bind hrest

/-! ## Statements -/

theorem headExpression (h : r.Advancing) : Keeps r.headExpression :=
  (keeps_skip "(").bind fun _ => h.expression.withIn.bind fun _ => (keeps_skip ")").bind fun _ =>
    keeps_pure _

theorem ifStatement (h : r.Advancing) : Keeps r.ifStatement := by
  refine (keeps_expect _).bind fun _ => h.headExpression.bind fun _ => h.statement.bind fun _ => ?_
  refine (keeps_accept _).bind fun _ => ?_
  exact .ite (h.statement.map.bind fun _ => keeps_build _ _) (keeps_build _ _)

theorem forStart (h : r.Advancing) : Keeps r.forStart := by
  refine keeps_current.bind fun _ => .ite (keeps_pure _) ((keeps_peek 1).bind fun _ => ?_)
  exact .ite h.variableList.map h.expression.map

theorem forTail (h : r.Advancing) (start : Span) (first : Option Node) :
    Keeps (r.forTail start first) := by
  refine (keeps_skip ";").bind fun _ => (keeps_sees ";").bind fun _ => ?_
  extract_lets afterTest
  have hafterTest (test : Option Node) : Keeps (afterTest test) := by
    refine (keeps_skip ";").bind fun _ => (keeps_sees ")").bind fun _ => ?_
    extract_lets rest
    have hrest (advance : Option Node) : Keeps (rest advance) :=
      (keeps_skip ")").bind fun _ => h.statement.bind fun _ => keeps_build _ _
    exact .ite (hrest none) (h.expression.withIn.map.bind hrest)
  exact .ite (hafterTest none) (h.expression.withIn.map.bind hafterTest)

theorem forStatement (h : r.Advancing) : Keeps r.forStatement := by
  refine (keeps_expect _).bind fun _ => (keeps_accept _).bind fun _ => (keeps_skip "(").bind fun _ => ?_
  refine (h.forStart.withNoIn true).bind fun first => ?_
  cases first with
  | none => exact h.forTail _ _
  | some target =>
    refine (keeps_accept "of").bind fun _ => .ite ?_ ((keeps_accept "in").bind fun _ => ?_)
    · exact h.assignment.withIn.bind fun _ => (keeps_skip ")").bind fun _ =>
        h.statement.bind fun _ => keeps_build _ _
    · refine .ite (h.expression.withIn.bind fun _ => (keeps_skip ")").bind fun _ => ?_) (h.forTail _ _)
      exact h.statement.bind fun _ => keeps_build _ _

theorem clauseTest (h : r.Advancing) : Keeps r.clauseTest := by
  refine keeps_current.bind fun t => (keeps_accept "case").bind fun _ => .ite h.expression.withIn.map ?_
  exact (keeps_accept "default").bind fun _ => .ite (keeps_pure _) (keeps_failAt t _)

theorem switchClause (h : r.Advancing) : Keeps r.switchClause := by
  refine keeps_current.bind fun t => h.clauseTest.bind fun test => (keeps_skip ":").bind fun _ => ?_
  refine (h.statement.itemsUntil _ _).bind fun _ => ?_
  cases test with
  | none => exact keeps_build _ _
  | some test => exact keeps_build _ _

theorem switchClauses (h : r.Advancing) (n : Nat) : Keeps (r.switchClauses n) := by
  induction n with
  | zero => exact keeps_throw _
  | succ n ih =>
    refine (keeps_sees _).bind fun _ => .ite (keeps_pure _) ?_
    exact h.switchClause.bind fun _ => ih.bind fun _ => keeps_pure _

theorem switchStatement (h : r.Advancing) : Keeps r.switchStatement :=
  (keeps_expect _).bind fun _ => h.headExpression.bind fun _ => (keeps_skip _).bind fun _ =>
    (h.switchClauses _).bind fun _ => (keeps_skip _).bind fun _ => keeps_build _ _

theorem catchBinding (h : r.Advancing) : Keeps r.catchBinding := by
  refine (keeps_accept "(").bind fun _ => .ite ?_ (keeps_pure _)
  exact h.binding.bind fun _ => h.annotation?.bind fun _ => (keeps_skip ")").bind fun _ => keeps_pure _

theorem catchClause (h : r.Advancing) : Keeps r.catchClause :=
  keeps_advance.bind fun _ => h.catchBinding.bind fun _ => (keeps_markFrom _).bind fun _ =>
    h.block.bind fun _ => keeps_pure _

theorem tryStatement (h : r.Advancing) : Keeps r.tryStatement := by
  refine (keeps_expect "try").bind fun _ => h.block.bind fun _ => (keeps_sees "catch").bind fun _ => ?_
  extract_lets afterHandler
  have hafterHandler (handler : Option Node) : Keeps (afterHandler handler) := by
    refine (keeps_accept "finally").bind fun _ => ?_
    extract_lets rest
    have hrest (final : Option Node) : Keeps (rest final) := .before (keeps_fail _) (keeps_build _ _)
    exact .ite (h.block.map.bind hrest) (hrest none)
  exact .ite (h.catchClause.map.bind hafterHandler) (hafterHandler none)

theorem jumpStatement : Keeps Rules.jumpStatement := by
  refine keeps_advance.bind fun _ => keeps_current.bind fun _ => ?_
  extract_lets rest
  have hrest (label : Option Ident) : Keeps (rest label) :=
    keeps_semicolon.bind fun _ => keeps_build _ _
  exact .ite (keeps_identifier.map.bind hrest) (hrest none)

theorem wordStatement? (h : r.Advancing) (t : Token) {p : Parser Node}
    (hp : r.wordStatement? t = some p) : Keeps p := by
  unfold Rules.wordStatement? at hp
  split at hp
  · cases hp
  split at hp <;> cases hp
  · exact h.ifStatement
  · exact h.forStatement
  · exact keeps_advance.bind fun _ => h.headExpression.bind fun _ => h.statement.bind fun _ =>
      keeps_build _ _
  · exact keeps_advance.bind fun _ => h.statement.bind fun _ => (keeps_skip _).bind fun _ =>
      h.headExpression.bind fun _ => keeps_semicolon.bind fun _ => keeps_build _ _
  · exact h.switchStatement
  · refine keeps_advance.bind fun _ => seesStatementEnd.bind fun _ => ?_
    have hrest (value : Option Node) : Keeps (do
        semicolon
        build t.span (.returnStatement · value)) :=
      keeps_semicolon.bind fun _ => keeps_build _ _
    exact .ite (hrest none) (h.expression.map.bind hrest)
  · exact jumpStatement
  · exact jumpStatement
  · exact keeps_advance.bind fun _ => h.expression.bind fun _ => keeps_semicolon.bind fun _ =>
      keeps_build _ _
  · exact h.tryStatement

theorem plainStatement (h : r.Advancing) : Keeps r.plainStatement := by
  refine keeps_current.bind fun t => (keeps_peek 1).bind fun _ => .ite h.block (.ite ?_ ?_)
  · exact keeps_advance.bind fun _ => keeps_build _ _
  split
  · exact h.wordStatement? t ‹_›
  refine .ite (keeps_identifier.bind fun _ => ?_) (h.expression.bind fun _ => ?_)
  · exact (keeps_skip ":").bind fun _ => h.statement.bind fun _ => keeps_build _ _
  · exact keeps_semicolon.bind fun _ => keeps_build _ _

theorem declarationOrStatement (h : r.Advancing) (start : Span) (modifiers : List Modifier) :
    Keeps (r.declarationOrStatement start modifiers) := by
  refine keeps_current.bind fun t => (keeps_peek 1).bind fun next => .ite ?_ ?_
  · exact h.variableList.bind fun _ => keeps_semicolon.bind fun _ => keeps_build _ _
  refine .ite (h.functionDeclaration _ _) (.ite (classDeclaration _ _) ?_)
  refine .ite (h.enumDeclaration _ _) (.ite (h.interfaceDeclaration _ _) ?_)
  refine .ite (h.typeAlias _ _) (.ite (h.moduleDeclaration _ _) ?_)
  exact .ite (h.moduleDeclaration _ _) (.ite h.plainStatement (keeps_failAt t _))

theorem exportDefault (h : r.Advancing) (start : Span) (modifiers : List Modifier) :
    Keeps (r.exportDefault start modifiers) := by
  refine keeps_current.bind fun t => (keeps_peek 1).bind fun _ => .ite ?_ ?_
  · exact (declarationModifiers _).bind fun _ => h.declarationOrStatement _ _
  · exact h.assignment.bind fun _ => keeps_semicolon.bind fun _ => keeps_build _ _

theorem exportStatement (h : r.Advancing) : Keeps r.exportStatement := by
  refine keeps_advance.bind fun _ => (modifierOf _).bind fun _ => keeps_current.bind fun t => ?_
  refine .ite (exportList _ _) ((keeps_peek 1).bind fun _ => .ite ?_ ((keeps_accept "=").bind fun _ => ?_))
  · exact keeps_advance.bind fun _ => exportList _ _
  refine .ite ?_ (.ite ?_ (.ite (keeps_failAt t _) ?_))
  · exact h.assignment.bind fun _ => keeps_semicolon.bind fun _ => keeps_build _ _
  · exact keeps_advance.bind fun t => (modifierOf t).bind fun _ => h.exportDefault _ _
  · exact (declarationModifiers _).bind fun _ => h.declarationOrStatement _ _

theorem anyStatement (h : r.Advancing) : Keeps r.anyStatement := by
  refine keeps_current.bind fun _ => .ite h.exportStatement ((keeps_peek 1).bind fun _ => ?_)
  refine .ite importDeclaration ?_
  exact (declarationModifiers _).bind fun _ => h.declarationOrStatement _ _

end Rules.Advancing

/-- The rules for any number of levels of nesting only move on. -/
theorem advancing_rules (n : Nat) : (rules n).Advancing := by
  induction n with
  | zero =>
    constructor <;> intros <;> exact keeps_throw _
  | succ n ih =>
    exact {
      statement := ih.anyStatement
      expression := ih.anyExpression
      assignment := ih.assignmentExpression
      binary := ih.binaryExpression
      unary := ih.unaryExpression
      construction := ih.newExpression
      bindingName := ih.binding
      type := ih.anyType
      typeOperator := ih.operatorType }

end ScriptBridge.TypeScript
