import ScriptBridge.Proofs.TypeScript.GatherExpressions

/-!
# Rules for statements gather their nodes

Every rule for statements and declarations gathers the nodes of its answer if the rules one level of
nesting further in do, and so by induction on the nesting all rules do. The words before a declaration are
read first, so the rules for declarations go on behind them. An import clause may be empty: what it
gathers is settled by the word that follows.

* `Rules.Gathering.importClause`: import clauses.
* `Rules.Gathering.anyStatement`: any statement.
* `gathering_rules`: the rules for any number of levels of nesting.
-/

namespace ScriptBridge.TypeScript

open ScriptBridge.TypeScript.Parser

namespace Rules.Gathering

variable {r : Rules} {m : Bool} {s₀ s : ParserState} {start : Span} {ms : List Modifier}

/-! ## Modifiers -/

/-- A word before a declaration, over a token that was just taken. -/
theorem modifierOf {xs : List Node} (g : Gathered m s₀ s xs) (hkind : s.next.kind ≠ .eof) :
    Answers s.behind (Rules.modifierOf s.next) fun word s' =>
      Gathered true s₀ s' (xs ++ [.modifier word]) := by
  intro word s' h
  cases h
  exact (g.leaf hkind rfl rfl).congr rfl rfl

theorem declarationModifiers (n : Nat) :
    Collects false (Rules.declarationModifiers n) (List.map Node.modifier) := by
  induction n with
  | zero => exact fun _ _ => answers_throw _
  | succ n ih =>
    intro s hs
    have g := Gathered.begin hs
    refine .current (.peek fun next => .dite (fun hword => ?_) (answers_pure g))
    have hkind : s.next.kind ≠ .eof :=
      Token.ne_eof_of_kind (Bool.and_eq_true_iff.mp (Bool.and_eq_true_iff.mp hword).1).1 nofun
    refine g.take hkind fun _ => .then (modifierOf g hkind) fun _ _ g => ?_
    exact g.read ih fun _ _ _ g => answers_pure g.forget

/-! ## Imports and exports -/

theorem moduleSpecifier : Collects true Rules.moduleSpecifier fun (mark, text) => [.string mark text] := by
  intro s hs
  have g := Gathered.begin hs
  refine .current (.dite (fun hk => ?_) (answers_failAt _ _))
  have hkind : s.next.kind ≠ .eof := Token.ne_eof_of_kind hk nofun
  refine g.take hkind fun _ => .bind fun mark _ hmark => answers_pure ?_
  cases hmark
  exact (g.leaf hkind (n := .string ⟨s.behind.nextId, s.next.span⟩ s.next.text) rfl rfl).congr rfl rfl

theorem typeOnlyMark : Collects false Rules.typeOnlyMark fun _ => [] := by
  intro s hs
  have g := Gathered.begin hs
  refine .peek fun _ => .sees (.ite ?_ (answers_pure g))
  exact g.pass collects_advance fun _ _ _ g => answers_pure g

theorem exportSpecifier : Collects true Rules.exportSpecifier ([·]) := by
  intro s hs
  refine .current ((Gathered.begin hs).pass typeOnlyMark fun _ _ _ g => ?_)
  refine g.read collects_word fun _ _ _ g => ?_
  refine g.pass (collects_accept "as") fun _ _ _ g => .ite ?_ (g.build rfl fun _ => rfl)
  exact g.read collects_word fun _ _ _ g => g.build rfl fun _ => rfl

theorem exportList (g : Gathered true s₀ s []) (hstart : start.start = s₀.ahead) (isTypeOnly : Bool) :
    Answers s (r.exportList start isTypeOnly) fun e s' => Gathered true s₀ s' [e] := by
  refine g.pass (collects_accept "*") fun _ _ _ g => .ite ?all ?some
  case all =>
    refine g.pass (collects_accept "as") fun _ _ _ g => g.optional collects_word fun _ g => ?_
    refine g.pass (collects_skip "from") fun _ _ _ g => g.read moduleSpecifier fun _ _ _ g => ?_
    exact g.pass collects_semicolon fun _ _ _ g => g.build hstart fun _ => rfl
  case some =>
    refine g.pass (collects_skip _) fun _ _ _ g => ?_
    refine g.read (exportSpecifier.commaUntil _ _) fun elements _ _ g => ?_
    refine g.pass (collects_skip _) fun _ _ _ g => g.pass (collects_accept "from") fun _ _ _ g => ?_
    extract_lets rest
    have hrest (specifier : Option (Mark × String)) {s' : ParserState}
        (g : Gathered true s₀ s' (elements ++ specifier.toList.map fun (m, v) => .string m v)) :
        Answers s' (rest specifier) fun e s' => Gathered true s₀ s' [e] :=
      g.pass collects_semicolon fun _ _ _ g => g.build hstart fun _ => rfl
    refine .ite (.then (.map ?_) fun _ _ g => hrest _ g) (hrest none g.nothing)
    exact g.last moduleSpecifier

theorem importSpecifier : Collects true Rules.importSpecifier ([·]) := by
  intro s hs
  refine .current ((Gathered.begin hs).pass typeOnlyMark fun _ _ _ g => ?_)
  refine g.read collects_word fun _ _ _ g => ?_
  refine g.pass (collects_accept "as") fun _ _ _ g => ?_
  refine .ite ?_ (.ite (answers_failSpan _ _) (g.build rfl fun _ => rfl))
  exact g.read collects_identifier fun _ _ _ g => g.build rfl fun _ => rfl

theorem clauseTypeOnly : Collects false Rules.clauseTypeOnly fun _ => [] := by
  intro s hs
  have g := Gathered.begin hs
  refine .peek fun _ => .sees (.ite ?_ (answers_pure g))
  exact g.pass collects_advance fun _ _ _ g => answers_pure g

/-- A clause without a name takes no token for it. -/
theorem clauseName (g : Gathered false s₀ s []) :
    Answers s Rules.clauseName fun name s' => Gathered name.isSome s₀ s' (name.toList.map .ident) := by
  refine .current (.ite ?_ (.peek fun _ => .ite (.map (g.last collects_word)) (answers_pure g)))
  refine g.read collects_identifier fun _ _ _ g => .sees (.unless (fun _ _ h => nomatch h) ?_)
  exact g.pass (collects_accept ",") fun _ _ _ g => answers_pure g

/-- An import clause may take no token; it is gathered when the next one is taken. -/
theorem importClause (hs : s.Sound) (hpos : 0 < s.pos) :
    Answers s r.importClause fun e s' => s'.Sound ∧
      ∀ s₁, Gathered true s' s₁ [] → Gathered true s s₁ [e] := by
  have hbuilt {f : Mark → Node} {s' : ParserState} {xs ys : List Node} (g : Gathered true s s' xs)
      (hperm : ys.Perm xs) (hf : ∀ m, (f m).parts = (m, ys, none, false)) :
      Answers s' (build s.next.span f) fun e s' => s'.Sound ∧
        ∀ s₁, Gathered true s' s₁ [] → Gathered true s s₁ [e] :=
    (g.buildFrom rfl hperm hf).mono fun _ _ g => ⟨g.sound, fun _ g' => g.trans g'⟩
  refine .current ((Gathered.begin hs).pass clauseTypeOnly fun _ _ _ g => ?_)
  refine .then (clauseName g) fun name s₂ g => ?_
  refine g.accept (fun _ g => ?all) (g.accept (fun _ g => ?some) ?none)
  case all =>
    refine g.pass (collects_skip "as") fun _ _ _ g => g.read collects_identifier fun _ _ _ g => ?_
    exact hbuilt g (.of_eq (List.append_nil _)) fun _ => rfl
  case some =>
    refine g.read (importSpecifier.commaUntil _ _) fun elements _ _ g => ?_
    refine g.pass (collects_skip _) fun _ _ _ g => ?_
    exact hbuilt g (.of_eq (congrArg (· ++ elements) (List.append_nil _))) fun _ => rfl
  case none =>
    cases name with
    | some name => exact hbuilt g (.refl _) fun _ => rfl
    | none =>
      intro e s' h
      rw [build_apply] at h
      cases h
      replace g : Gathered false s { s₂ with nextId := s₂.nextId + 1 } [] := g.congr rfl rfl
      exact ⟨g.sound, fun s₁ g' => g.blank hpos rfl rfl rfl g'⟩

theorem importDeclaration : Collects true r.importDeclaration ([·]) := by
  intro s hs
  refine (Gathered.begin hs).pass (collects_expect "import") fun t s₁ ht g => .current (.ite ?_ ?_)
  · refine g.read moduleSpecifier fun _ _ _ g => g.pass collects_semicolon fun _ _ _ g => ?_
    exact g.build (by rw [expect_token ht]; rfl) fun _ => rfl
  · have hpos : 0 < s₁.pos := Nat.zero_lt_of_lt (g.moved rfl)
    refine .then (importClause g.sound hpos) fun clause s₂ ⟨hs₂, hclause⟩ => ?_
    refine .then (collects_skip "from" s₂ hs₂) fun _ s₃ hfrom => ?_
    replace g := g.trans (hclause s₃ hfrom)
    refine g.read moduleSpecifier fun specifier _ _ g => .current ?_
    extract_lets rest
    have hrest (u : PUnit) {s' : ParserState}
        (g : Gathered true s s' ([clause] ++ [.string specifier.1 specifier.2])) :
        Answers s' (rest u) fun e s' => Gathered true s s' [e] :=
      g.pass collects_semicolon fun _ _ _ g => g.build (by rw [expect_token ht]; rfl) fun _ => rfl
    refine .ite (g.pass collects_advance fun _ _ _ g => ?_) (hrest ⟨⟩ g)
    exact g.pass (collects_skipBalanced _ _ _) fun u _ _ g => hrest u g

/-! ## Declarations -/

/-- A declaring word is no end. -/
theorem ne_eof_of_declares {t next : Token}
    (h : (t.isAny ["const", "var"] || (t.isAny ["let"] && letDeclares next)) = true) : t.kind ≠ .eof := by
  obtain h | h := Bool.or_eq_true_iff.mp h
  · exact Token.ne_eof_of_isAny h
  · exact Token.ne_eof_of_isAny (Bool.and_eq_true_iff.mp h).1

theorem variableDeclaration (h : r.Gathering) : Collects true r.variableDeclaration ([·]) := by
  intro s hs
  refine .current ((Gathered.begin hs).read h.binding fun _ _ _ g => ?_)
  refine g.pass (collects_accept "!") fun _ _ _ g => g.read h.annotation? fun _ _ _ g => ?_
  refine g.pass (collects_accept "=") fun _ _ _ g => .ite ?_ (g.nothing.build rfl fun _ => rfl)
  exact g.read h.assignment.some fun _ _ _ g => g.build rfl fun _ => rfl

theorem variableList (h : r.Gathering) (hs : s.Sound) (hkind : s.next.kind ≠ .eof) :
    Answers s r.variableList fun e s' => Gathered true s s' [e] := by
  refine (Gathered.begin hs).take hkind fun g => ?_
  exact g.read (h.variableDeclaration.commaList _) fun _ _ _ g => g.build rfl fun _ => rfl

theorem functionDeclaration (h : r.Gathering) (g : Gathered m s₀ s (ms.map .modifier))
    (hstart : start.start = s₀.ahead) :
    Answers s (r.functionDeclaration start ms) fun e s' => Gathered true s₀ s' [e] := by
  refine g.pass (collects_skip _) fun _ _ _ g => g.pass (collects_accept "*") fun _ _ _ g => .seesAny ?_
  extract_lets rest
  have hrest (name : Option Ident) {s' : ParserState}
      (g : Gathered true s₀ s' (ms.map .modifier ++ name.toList.map .ident)) :
      Answers s' (rest name) fun e s' => Gathered true s₀ s' [e] := by
    refine g.read h.typeParameters? fun typeParams _ _ g => g.read h.parameters fun params _ _ g => ?_
    refine g.read h.resultType? fun result _ _ g => .sees ?_
    have hperm (body : Option Node) :=
      perm_signature (ms.map .modifier ++ name.toList.map .ident) params body.toList result.toList
        typeParams
    refine .ite (g.read h.block.some fun body _ _ g => ?_) (g.pass collects_semicolon fun _ _ _ g => ?_)
    · exact g.buildFrom hstart (hperm body) fun _ => rfl
    · exact .pure_bind (g.nothing.buildFrom hstart (hperm none) fun _ => rfl)
  have hname : Collects true (some <$> identifier) fun name => name.toList.map Node.ident :=
    collects_identifier.map
  exact .ite (hrest none g.nothing) (g.read hname fun name _ _ g => hrest name g)

theorem skipClassHead (n : Nat) : Collects false (Rules.skipClassHead n) fun _ => [] := by
  induction n with
  | zero => exact fun _ _ => answers_throw _
  | succ n ih =>
    intro s hs
    have g := Gathered.begin hs
    refine .current (.ite (answers_pure g) (.unless (fun _ _ h => nomatch h) ?_))
    exact g.pass collects_advance fun _ _ _ g => g.last ih

theorem classDeclaration (g : Gathered m s₀ s (ms.map .modifier)) (hstart : start.start = s₀.ahead) :
    Answers s (r.classDeclaration start ms) fun e s' => Gathered true s₀ s' [e] := by
  refine g.pass (collects_skip _) fun _ _ _ g => .current ?_
  extract_lets rest
  have hrest (name : Option Ident) {s' : ParserState}
      (g : Gathered true s₀ s' (ms.map .modifier ++ name.toList.map .ident)) :
      Answers s' (rest name) fun e s' => Gathered true s₀ s' [e] := by
    refine g.pass (skipClassHead _) fun _ _ _ g => g.pass (collects_skipBalanced _ _ _) fun _ _ _ g => ?_
    exact g.build hstart fun _ => rfl
  have hname : Collects true (some <$> identifier) fun name => name.toList.map Node.ident :=
    collects_identifier.map
  exact .ite (g.read hname fun name _ _ g => hrest name g) (hrest none g.nothing)

theorem enumMember (h : r.Gathering) : Collects true r.enumMember ([·]) := by
  intro s hs
  refine .current ((Gathered.begin hs).read h.propertyName fun _ _ _ g => ?_)
  refine g.pass (collects_accept "=") fun _ _ _ g => .ite ?_ (g.nothing.build rfl fun _ => rfl)
  exact g.read h.assignment.some fun _ _ _ g => g.build rfl fun _ => rfl

theorem enumDeclaration (h : r.Gathering) (g : Gathered m s₀ s (ms.map .modifier))
    (hstart : start.start = s₀.ahead) :
    Answers s (r.enumDeclaration start ms) fun e s' => Gathered true s₀ s' [e] := by
  refine g.pass (collects_skip _) fun _ _ _ g => g.read collects_identifier fun _ _ _ g => ?_
  refine g.pass (collects_skip _) fun _ _ _ g => g.read (h.enumMember.commaUntil _ _) fun _ _ _ g => ?_
  refine g.pass (collects_skip _) fun _ _ _ g => ?_
  exact g.buildFrom hstart (.of_eq (List.append_cons ..)) fun _ => rfl

theorem heritageType (h : r.Gathering) : Collects true r.heritageType ([·]) := by
  intro s hs
  refine (Gathered.begin hs).read h.primaryType fun type _ _ g => ?_
  cases type with
  | typeReference => exact answers_pure g
  | _ => exact answers_failSpan _ _

theorem interfaceDeclaration (h : r.Gathering) (g : Gathered m s₀ s (ms.map .modifier))
    (hstart : start.start = s₀.ahead) :
    Answers s (r.interfaceDeclaration start ms) fun e s' => Gathered true s₀ s' [e] := by
  refine g.pass (collects_skip _) fun _ _ _ g => g.read collects_identifier fun name _ _ g => ?_
  refine g.read h.typeParameters? fun typeParams _ _ g => g.pass (collects_accept _) fun _ _ _ g => ?_
  extract_lets rest
  have hrest (heritage : List Node) {s' : ParserState}
      (g : Gathered true s₀ s' (ms.map .modifier ++ [.ident name] ++ typeParams ++ heritage)) :
      Answers s' (rest heritage) fun e s' => Gathered true s₀ s' [e] := by
    refine g.read h.typeMembers fun members _ _ g => g.buildFrom hstart ?_ fun _ => rfl
    exact .of_eq (congrArg (· ++ heritage ++ members) (List.append_cons ..))
  exact .ite (g.read (h.heritageType.commaList _) fun _ _ _ g => hrest _ g) (hrest [] g.nothing)

theorem typeAlias (h : r.Gathering) (g : Gathered m s₀ s (ms.map .modifier))
    (hstart : start.start = s₀.ahead) :
    Answers s (r.typeAlias start ms) fun e s' => Gathered true s₀ s' [e] := by
  refine g.pass (collects_skip _) fun _ _ _ g => g.read collects_identifier fun _ _ _ g => ?_
  refine g.read h.typeParameters? fun _ _ _ g => g.pass (collects_skip "=") fun _ _ _ g => ?_
  refine g.read h.type fun type _ _ g => g.pass collects_semicolon fun _ _ _ g => ?_
  exact g.buildFrom hstart (.of_eq (congrArg (· ++ [type]) (List.append_cons ..))) fun _ => rfl

theorem identifier_begins : Answers s identifier fun i _ => i.mark.span = s.next.span := by
  refine .current (.ite (.bind fun t _ ht => fun i _ hi => ?_) (answers_failAt _ _))
  cases hi
  exact congrArg (·.span) (advance_token ht)

/-- A dotted name becomes one name that starts where its first part does. -/
theorem moduleNameTail (n : Nat) {name : Ident} (grown : Grown s₀ s (.ident name)) :
    Answers s (Rules.moduleNameTail n name) fun name s' => Grown s₀ s' (.ident name) := by
  induction n generalizing name s with
  | zero => exact answers_throw _
  | succ n ih =>
    obtain ⟨g, hbegins⟩ := grown
    refine g.pass (collects_accept ".") fun _ _ _ g => .ite ?_ (answers_pure ⟨g, hbegins⟩)
    refine g.pass collects_identifier fun part _ _ g => g.mark fun mark s₁ hspan g => ih ⟨?_, ?_⟩
    · exact g.drop.around hbegins hspan (.refl _) rfl nofun
    · exact (congrArg Span.start hspan).trans ((upTo_start _ _).trans hbegins)

theorem moduleDeclaration (h : r.Gathering) (g : Gathered m s₀ s (ms.map .modifier))
    (hstart : start.start = s₀.ahead) (hkind : s.next.kind ≠ .eof) :
    Answers s (r.moduleDeclaration start ms) fun e s' => Gathered true s₀ s' [e] := by
  refine g.take hkind fun g₁ => ?_
  extract_lets rest
  have hrest (name : Ident) {s' : ParserState}
      (g : Gathered true s₀ s' (ms.map .modifier ++ [.ident name])) :
      Answers s' (rest name) fun e s' => Gathered true s₀ s' [e] := by
    refine g.pass (collects_skip _) fun _ _ _ g => g.read (h.statement.nodesUntil _ _) fun _ _ _ g => ?_
    refine g.pass (collects_skip _) fun _ _ _ g => ?_
    exact g.buildFrom hstart (.of_eq (List.append_cons ..)) fun _ => rfl
  refine .current (.ite (.then (g.identOf hkind) fun _ _ g => hrest _ g) (.dite (fun hk => ?_) ?_))
  · have hkind := Token.ne_eof_of_kind hk nofun
    exact g₁.take hkind fun _ => .then (g₁.identOf hkind) fun _ _ g => hrest _ g
  · refine .bind fun name s₂ hname => ?_
    have gname := collects_identifier _ g₁.sound name s₂ hname
    refine .then (moduleNameTail _ ⟨gname, congrArg Span.start (identifier_begins name s₂ hname)⟩) ?_
    exact fun name _ grown => hrest name (g₁.trans grown.gathered)

/-! ## Statements -/

theorem headExpression (h : r.Gathering) : Collects true r.headExpression ([·]) := by
  intro s hs
  refine (Gathered.begin hs).pass (collects_skip "(") fun _ _ _ g => ?_
  refine g.read h.expression.withIn fun _ _ _ g => ?_
  exact g.pass (collects_skip ")") fun _ _ _ g => answers_pure g

theorem ifStatement (h : r.Gathering) : Collects true r.ifStatement ([·]) := by
  intro s hs
  refine (Gathered.begin hs).pass (collects_expect _) fun t _ ht g => ?_
  have hstart : t.span.start = s.ahead := congrArg (·.span.start) (expect_token ht)
  refine g.read h.headExpression fun _ _ _ g => g.read h.statement fun _ _ _ g => ?_
  refine g.pass (collects_accept _) fun _ _ _ g => .ite ?_ (g.nothing.build hstart fun _ => rfl)
  exact g.read h.statement.some fun _ _ _ g => g.build hstart fun _ => rfl

theorem forStart (h : r.Gathering) : Collects false r.forStart Option.toList := by
  intro s hs
  have g := Gathered.begin hs
  refine .current (.ite (answers_pure g) (.peek fun next => .dite (fun hword => ?_) ?_))
  · refine .map ((h.variableList hs (ne_eof_of_declares hword)).mono fun _ _ g => ?_)
    exact g.forget
  · exact g.last h.expression.some.forget

theorem forTail (h : r.Gathering) {first : Option Node} (g : Gathered true s₀ s first.toList)
    (hstart : start.start = s₀.ahead) :
    Answers s (r.forTail start first) fun e s' => Gathered true s₀ s' [e] := by
  refine g.pass (collects_skip ";") fun _ _ _ g => .sees ?_
  extract_lets afterTest
  have hafterTest (test : Option Node) {s' : ParserState}
      (g : Gathered true s₀ s' (first.toList ++ test.toList)) :
      Answers s' (afterTest test) fun e s' => Gathered true s₀ s' [e] := by
    refine g.pass (collects_skip ";") fun _ _ _ g => .sees ?_
    extract_lets rest
    have hrest (advance : Option Node) {s' : ParserState}
        (g : Gathered true s₀ s' (first.toList ++ test.toList ++ advance.toList)) :
        Answers s' (rest advance) fun e s' => Gathered true s₀ s' [e] := by
      refine g.pass (collects_skip ")") fun _ _ _ g => ?_
      exact g.read h.statement fun _ _ _ g => g.build hstart fun _ => rfl
    exact .ite (hrest none g.nothing) (g.read h.expression.withIn.some fun _ _ _ g => hrest _ g)
  exact .ite (hafterTest none g.nothing) (g.read h.expression.withIn.some fun _ _ _ g => hafterTest _ g)

theorem forStatement (h : r.Gathering) : Collects true r.forStatement ([·]) := by
  intro s hs
  refine (Gathered.begin hs).pass (collects_expect _) fun t _ ht g => ?_
  have hstart : t.span.start = s.ahead := congrArg (·.span.start) (expect_token ht)
  refine g.pass (collects_accept _) fun _ _ _ g => g.pass (collects_skip "(") fun _ _ _ g => ?_
  refine g.read (h.forStart.withNoIn true) fun first _ _ g => ?_
  cases first with
  | none => exact h.forTail g hstart
  | some target =>
    refine g.pass (collects_accept "of") fun _ _ _ g => .ite ?_ ?_
    · refine g.read h.assignment.withIn fun _ _ _ g => g.pass (collects_skip ")") fun _ _ _ g => ?_
      exact g.read h.statement fun _ _ _ g => g.build hstart fun _ => rfl
    · refine g.pass (collects_accept "in") fun _ _ _ g => .ite ?_ (h.forTail g hstart)
      refine g.read h.expression.withIn fun _ _ _ g => g.pass (collects_skip ")") fun _ _ _ g => ?_
      exact g.read h.statement fun _ _ _ g => g.build hstart fun _ => rfl

theorem clauseTest (h : r.Gathering) : Collects false r.clauseTest Option.toList := by
  intro s hs
  refine .current ((Gathered.begin hs).pass (collects_accept "case") fun _ _ _ g => .ite ?_ ?_)
  · exact g.last h.expression.withIn.some.forget
  · exact g.pass (collects_accept "default") fun _ _ _ g => .ite (answers_pure g) (answers_failAt _ _)

theorem switchClause (h : r.Gathering) : Collects true r.switchClause ([·]) := by
  intro s hs
  refine .current ((Gathered.begin hs).read h.clauseTest fun test _ _ g => ?_)
  refine g.pass (collects_skip ":") fun _ _ _ g => g.read (h.statement.nodesUntil _ _) fun _ _ _ g => ?_
  cases test with
  | none => exact g.build rfl fun _ => rfl
  | some test => exact g.build rfl fun _ => rfl

theorem switchClauses (h : r.Gathering) (n : Nat) : Collects false (r.switchClauses n) fun ns => ns := by
  induction n with
  | zero => exact fun _ _ => answers_throw _
  | succ n ih =>
    intro s hs
    have g := Gathered.begin hs
    refine .sees (.ite (answers_pure g) (g.read h.switchClause fun _ _ _ g => ?_))
    exact g.read ih fun _ _ _ g => answers_pure g.forget

theorem switchStatement (h : r.Gathering) : Collects true r.switchStatement ([·]) := by
  intro s hs
  refine (Gathered.begin hs).pass (collects_expect _) fun t _ ht g => ?_
  refine g.read h.headExpression fun _ _ _ g => g.pass (collects_skip _) fun _ _ _ g => ?_
  refine g.read (h.switchClauses _) fun _ _ _ g => g.pass (collects_skip _) fun _ _ _ g => ?_
  exact g.build (congrArg (·.span.start) (expect_token ht)) fun _ => rfl

theorem catchBinding (h : r.Gathering) : Collects false r.catchBinding Option.toList := by
  intro s hs
  refine (Gathered.begin hs).pass (collects_accept "(") fun _ _ _ g => .ite ?_ (answers_pure g)
  refine g.read h.binding fun _ _ _ g => g.pass h.annotation? fun _ _ _ g => ?_
  exact g.pass (collects_skip ")") fun _ _ _ g => answers_pure g.forget

/-- The region of a handler ends before its block. -/
theorem catchClause (h : r.Gathering) (hs : s.Sound) (hkind : s.next.kind ≠ .eof) :
    Answers s r.catchClause fun e s' => Gathered true s s' [e] := by
  refine (Gathered.begin hs).take hkind fun g => g.read h.catchBinding fun binding _ _ g => ?_
  refine g.mark fun mark s₁ hspan g => .bind fun body s₂ hbody => answers_pure ?_
  exact g.early rfl (h.block s₁ g.sound body s₂ hbody) hspan rfl rfl rfl

theorem tryStatement (h : r.Gathering) : Collects true r.tryStatement ([·]) := by
  intro s hs
  refine (Gathered.begin hs).pass (collects_expect _) fun t _ ht g => ?_
  refine g.read h.block fun body s₁ _ g => .sees ?_
  have hstart : t.span.start = s.ahead := congrArg (·.span.start) (expect_token ht)
  extract_lets afterHandler
  have hafterHandler (handler : Option Node) {s' : ParserState}
      (g : Gathered true s s' ([body] ++ handler.toList)) :
      Answers s' (afterHandler handler) fun e s' => Gathered true s s' [e] := by
    refine g.pass (collects_accept "finally") fun _ _ _ g => ?_
    extract_lets rest
    have hrest (final : Option Node) {s' : ParserState}
        (g : Gathered true s s' ([body] ++ handler.toList ++ final.toList)) :
        Answers s' (rest final) fun e s' => Gathered true s s' [e] :=
      .unless (fun _ _ h => nomatch h) (g.build hstart fun _ => rfl)
    exact .ite (g.read h.block.some fun _ _ _ g => hrest _ g) (hrest none g.nothing)
  refine .dite (fun hcatch => ?_) (hafterHandler none g.nothing)
  refine .then (.map ?_) fun _ _ g => hafterHandler _ g
  exact (h.catchClause g.sound (Token.ne_eof_of_isAny hcatch)).mono fun _ _ g' => g.trans g'

theorem jumpStatement (hs : s.Sound) (hkind : s.next.kind ≠ .eof) :
    Answers s Rules.jumpStatement fun e s' => Gathered true s s' [e] := by
  refine (Gathered.begin hs).take hkind fun g => .current ?_
  extract_lets rest
  have hrest (label : Option Ident) {s' : ParserState}
      (g : Gathered true s s' (label.toList.map .ident)) :
      Answers s' (rest label) fun e s' => Gathered true s s' [e] := by
    refine g.pass collects_semicolon fun _ _ _ g => ?_
    by_cases hbreak : (s.next.text == "break") = true
    · simp only [hbreak, ↓reduceIte]
      exact g.build rfl fun _ => rfl
    · simp only [hbreak]
      exact g.build rfl fun _ => rfl
  have hname : Collects true (some <$> identifier) fun name => name.toList.map Node.ident :=
    collects_identifier.map
  exact .ite (g.read hname fun name _ _ g => hrest name g) (hrest none g)

theorem seesStatementEnd : Collects false Rules.seesStatementEnd fun _ => [] :=
  fun _ hs => .current (answers_pure (.begin hs))

theorem wordStatement? (h : r.Gathering) (hs : s.Sound) {p : Parser Node}
    (hp : r.wordStatement? s.next = some p) : Answers s p fun e s' => Gathered true s s' [e] := by
  have g := Gathered.begin hs
  unfold Rules.wordStatement? at hp
  split at hp
  · cases hp
  have hkind : s.next.kind ≠ .eof := by
    rename_i hword
    rw [bne_iff_ne, not_not] at hword
    rw [hword]
    decide
  split at hp <;> cases hp
  · exact g.last h.ifStatement
  · exact g.last h.forStatement
  · refine g.take hkind fun g => g.read h.headExpression fun _ _ _ g => ?_
    exact g.read h.statement fun _ _ _ g => g.build rfl fun _ => rfl
  · refine g.take hkind fun g => g.read h.statement fun _ _ _ g => ?_
    refine g.pass (collects_skip _) fun _ _ _ g => g.read h.headExpression fun _ _ _ g => ?_
    exact g.pass collects_semicolon fun _ _ _ g => g.build rfl fun _ => rfl
  · exact g.last h.switchStatement
  · refine g.take hkind fun g => g.pass seesStatementEnd fun _ _ _ g => .ite ?_ ?_
    · exact .pure_bind (g.pass collects_semicolon fun _ _ _ g => g.build rfl fun _ => rfl)
    · refine g.read h.expression.some fun _ _ _ g => ?_
      exact g.pass collects_semicolon fun _ _ _ g => g.build rfl fun _ => rfl
  · exact jumpStatement hs hkind
  · exact jumpStatement hs hkind
  · refine g.take hkind fun g => g.read h.expression fun _ _ _ g => ?_
    exact g.pass collects_semicolon fun _ _ _ g => g.build rfl fun _ => rfl
  · exact g.last h.tryStatement

theorem plainStatement (h : r.Gathering) : Collects true r.plainStatement ([·]) := by
  intro s hs
  have g := Gathered.begin hs
  refine .current (.peek fun _ => .ite (g.last h.block) (.dite (fun hk => ?_) ?_))
  · exact g.take (Token.ne_eof_of_isAny hk) fun g => g.build rfl fun _ => rfl
  split
  · exact h.wordStatement? hs ‹_›
  refine .ite (g.read collects_identifier fun _ _ _ g => ?_) (g.read h.expression fun _ _ _ g => ?_)
  · refine g.pass (collects_skip ":") fun _ _ _ g => ?_
    exact g.read h.statement fun _ _ _ g => g.build rfl fun _ => rfl
  · exact g.pass collects_semicolon fun _ _ _ g => g.build rfl fun _ => rfl

theorem declarationOrStatement (h : r.Gathering) (g : Gathered m s₀ s (ms.map .modifier))
    (hstart : start.start = s₀.ahead) :
    Answers s (r.declarationOrStatement start ms) fun e s' => Gathered true s₀ s' [e] := by
  refine .current (.peek fun next => .dite (fun hword => ?_) ?_)
  · refine .then (h.variableList g.sound (ne_eof_of_declares hword)) fun list s₁ hlist => ?_
    exact (g.trans hlist).pass collects_semicolon fun _ _ _ g => g.build hstart fun _ => rfl
  refine .ite (h.functionDeclaration g hstart) (.ite (classDeclaration g hstart) ?_)
  refine .ite (h.enumDeclaration g hstart) (.ite (h.interfaceDeclaration g hstart) ?_)
  refine .ite (h.typeAlias g hstart) (.dite (fun hword => ?_) (.dite (fun hword => ?_) ?_))
  · have hkind := (Bool.and_eq_true_iff.mp (Bool.and_eq_true_iff.mp hword).1).1
    exact h.moduleDeclaration g hstart (Token.ne_eof_of_isAny hkind)
  · exact h.moduleDeclaration g hstart (Token.ne_eof_of_isAny (Bool.and_eq_true_iff.mp hword).1)
  refine .dite (fun hempty => ?_) (answers_failAt _ _)
  rw [List.isEmpty_iff.mp hempty] at g
  exact g.last h.plainStatement

theorem exportDefault (h : r.Gathering) (g : Gathered true s₀ s (ms.map .modifier))
    (hstart : start.start = s₀.ahead) :
    Answers s (r.exportDefault start ms) fun e s' => Gathered true s₀ s' [e] := by
  refine .current (.peek fun _ => .ite ?_ ?_)
  · refine g.read (declarationModifiers _) fun more _ _ g => ?_
    rw [← List.map_append] at g
    exact h.declarationOrStatement g hstart
  · refine g.drop.read h.assignment fun _ _ _ g => ?_
    exact g.pass collects_semicolon fun _ _ _ g => g.build hstart fun _ => rfl

theorem exportStatement (h : r.Gathering) (hs : s.Sound) (hkind : s.next.kind ≠ .eof) :
    Answers s r.exportStatement fun e s' => Gathered true s s' [e] := by
  have g := Gathered.begin hs
  refine g.take hkind fun _ => .then (modifierOf g hkind) fun exported s₁ g => .current ?_
  refine .ite (exportList g.drop rfl _) (.peek fun _ => .ite ?_ ?_)
  · exact g.drop.pass collects_advance fun _ _ _ g => exportList g rfl _
  refine g.accept (fun _ g => ?equals) (.dite (fun hk => ?default) (.ite (answers_failAt _ _) ?_))
  case equals =>
    refine g.drop.read h.assignment fun _ _ _ g => ?_
    exact g.pass collects_semicolon fun _ _ _ g => g.build rfl fun _ => rfl
  case default =>
    have hkind : s₁.next.kind ≠ .eof := Token.ne_eof_of_isAny hk
    exact g.take hkind fun _ => .then (modifierOf g hkind) fun _ _ g => h.exportDefault g rfl
  exact g.read (declarationModifiers _) fun _ _ _ g => h.declarationOrStatement g rfl

theorem anyStatement (h : r.Gathering) : Collects true r.anyStatement ([·]) := by
  intro s hs
  refine .current (.dite (fun hk => ?_) (.peek fun _ => .ite ?_ ?_))
  · exact h.exportStatement hs (Token.ne_eof_of_isAny hk)
  · exact (Gathered.begin hs).last importDeclaration
  · refine (Gathered.begin hs).read (declarationModifiers _) fun ms _ _ g => ?_
    exact h.declarationOrStatement g rfl

end Rules.Gathering

/-- The rules for any number of levels of nesting gather the nodes of their answers. -/
theorem gathering_rules (n : Nat) : (rules n).Gathering := by
  induction n with
  | zero =>
    have hnone : Collects true (throw .outOfFuel : Parser Node) ([·]) := fun _ _ => answers_throw _
    exact {
      advancing := advancing_rules 0
      statement := hnone
      expression := hnone
      assignment := hnone
      binary := fun _ => hnone
      unary := hnone
      construction := hnone
      bindingName := hnone
      type := hnone
      typeOperator := hnone
      assignment_begins := fun _ => answers_throw _ }
  | succ n ih =>
    exact {
      advancing := advancing_rules (n + 1)
      statement := ih.anyStatement
      expression := ih.anyExpression
      assignment := ih.assignmentExpression
      binary := ih.binaryExpression
      unary := ih.unaryExpression
      construction := ih.newExpression
      bindingName := ih.binding
      type := ih.anyType
      typeOperator := ih.operatorType
      assignment_begins := fun s => Rules.assignmentExpression_begins ih.advancing }

end ScriptBridge.TypeScript
