import ScriptBridge.Proofs.TypeScript.Beginnings
import Mathlib.Data.List.Forall2

/-!
# Operators are grouped by precedence

`Rules.binaryExpression` reads operands with binary operators between them in one pass over the tokens.
What it answers is the one grouping of the row that respects the precedences (`Grouping.Ordered`).

* `Operand`, `Operations`: rows of operators and operands, as states of the parser.
* `Joined`: what the rule for operators reads of a row, and where it stops.
* `operations_joined`: the rule keeps that along a row.
* `binaryExpression_groups`: a row that ends is read to its end and is grouped by precedence.

An operand is whatever the rule for unary expressions reads, at all depths from some level on: `levels` and
the operators of the row bound the depth that the whole row takes.
-/

namespace ScriptBridge.TypeScript

open ScriptBridge.TypeScript.Parser

/-! ## Rows -/

namespace ParserState

/-- The state with another number for the next node. -/
def numbered (s : ParserState) (id : Nat) : ParserState :=
  { s with nextId := id }

/-- A binary operator comes next. -/
structure AtOperator (s : ParserState) : Prop where
  kind : s.next.kind = .op ∨ s.next.kind = .ident
  binds : 0 < precedence s.next.text
  notIn : ¬(s.next.text = "in" ∧ s.noIn = true)

/-- A type assertion comes next. -/
structure AtAssertion (s : ParserState) : Prop where
  kind : s.next.kind = .ident
  text : s.next.text ∈ ["as", "satisfies"]
  sameLine : s.next.newlineBefore = false

/-- A row of operators and operands ends here. -/
structure EndsRow (s : ParserState) : Prop where
  noOperator : ¬s.AtOperator
  noAssertion : ¬s.AtAssertion

end ParserState

/-- An operand that takes the parser from one state to another, at every depth from `levels` on. -/
def Operand (levels : Nat) (s t : ParserState) : Prop :=
  ∀ n ≥ levels, ∀ id, ∃ e id', (rules n).unaryExpression (s.numbered id) = .ok e (t.numbered id')

/-- An expression that is read as an operand between two states. -/
def ReadOperand (levels : Nat) (place : ParserState × ParserState) (e : Node) : Prop :=
  ∃ n ≥ levels, ∃ id id',
    (rules n).unaryExpression (place.1.numbered id) = .ok e (place.2.numbered id')

/-- An operator and the operand behind it. -/
structure Further where
  operator : String
  place : ParserState × ParserState

/-- Operators and operands in a row that lead from one state to another. -/
inductive Operations (levels : Nat) : ParserState → List Further → ParserState → Prop
  | done (s : ParserState) : Operations levels s [] s
  | more {s t u : ParserState} {row : List Further} (hs : s.AtOperator)
      (operand : Operand levels s.behind t) (rest : Operations levels t row u) :
      Operations levels s (⟨s.next.text, s.behind, t⟩ :: row) u

/-! ## Operators of a row -/

section
variable {operator inner : String} {s : ParserState}

theorem precedence?_eq (h : 0 < precedence operator) :
    Rules.precedence? operator = some (precedence operator) := by
  unfold precedence at h ⊢
  cases hp : Rules.precedence? operator with
  | none => exact absurd h (by simp [hp])
  | some prec => rfl

theorem ParserState.AtOperator.noAssertion (h : s.AtOperator) : ¬s.AtAssertion := by
  intro ⟨_, htext, _⟩
  have hbinds := h.binds
  simp only [List.mem_cons, List.not_mem_nil, or_false] at htext
  rcases htext with heq | heq
  · exact absurd (heq ▸ hbinds) (by decide)
  · exact absurd (heq ▸ hbinds) (by decide)

theorem ParserState.AtOperator.not_eof (h : s.AtOperator) : s.next.kind ≠ .eof := by
  rcases h.kind with heq | heq <;> simp [heq]

/-- The least precedence of operators inside the right side of an operator. -/
def rightLeast (operator : String) : Nat :=
  if operator == "**" then precedence operator else precedence operator + 1

/-- What binds tightly enough for the right side may stand there. -/
theorem mayStandRight_of_le (h : rightLeast operator ≤ precedence inner) :
    Grouping.MayStandRight operator inner := by
  unfold rightLeast at h
  split at h
  case isTrue hpower =>
    cases eq_of_beq hpower
    exact .inr ⟨rfl, eq_power h⟩
  case isFalse => exact .inl h

/-- Behind the right side comes an operator that the one before may stand to the left of. -/
theorem mayStandLeft_of_lt (h : precedence inner < rightLeast operator) :
    Grouping.MayStandLeft inner operator := by
  unfold rightLeast at h
  split at h
  case isTrue => exact .inl h
  case isFalse hne =>
    obtain hlt | heq := Nat.lt_or_eq_of_le (Nat.le_of_lt_succ h)
    · exact .inl hlt
    · refine .inr ⟨heq.symm, ?_⟩
      rintro rfl
      exact hne (beq_iff_eq.mpr (eq_power (Nat.le_of_eq heq)))

end

/-! ## What the rule for operators reads -/

/-- From a row that leads to `u`, an expression has been read behind a left operand: its operators bind
as tightly as `least`, and the operator where it stopped does not. -/
structure Joined (levels least : Nat) (left : Node) (row : List Further) (u : ParserState)
    (e : Node) (s : ParserState) : Prop where
  ordered : e.grouping.Ordered
  tops : ∀ top ∈ e.grouping.top?, top ∈ left.grouping.top? ∨ least ≤ precedence top
  split : ∃ read rest operands, row = read ++ rest ∧ Operations levels s rest u ∧
    (∀ further ∈ rest.head?, precedence further.operator < least) ∧
    e.grouping.operators = left.grouping.operators ++ read.map (·.operator) ∧
    e.grouping.operands = left.grouping.operands ++ operands ∧
    List.Forall₂ (ReadOperand levels) (read.map (·.place)) operands

section
variable {levels least : Nat} {left : Node} {row : List Further} {s t u : ParserState}

/-- Nothing was read. -/
theorem Joined.refl (hleft : left.grouping.Ordered) (hrow : Operations levels s row u)
    (hstop : ∀ further ∈ row.head?, precedence further.operator < least) :
    Joined levels least left row u left s where
  ordered := hleft
  tops := fun _ htop => .inl htop
  split := ⟨[], row, [], rfl, hrow, hstop, by simp, by simp, .nil⟩

/-- An operator with what was read on its right is as much as one operand and its operators. -/
theorem Joined.operation {operator : String} {place : ParserState × ParserState}
    {first right e : Node} {mark : Mark} {s' : ParserState} {rest : List Further}
    (hfirst : first.grouping = .operand first) (hread : ReadOperand levels place first)
    (hright : ∃ read operands, row = read ++ rest ∧
      right.grouping.operators = first.grouping.operators ++ read.map (·.operator) ∧
      right.grouping.operands = first.grouping.operands ++ operands ∧
      List.Forall₂ (ReadOperand levels) (read.map (·.place)) operands)
    (hleast : least ≤ precedence operator)
    (he : Joined levels least (.binary mark left operator right) rest u e s') :
    Joined levels least left (⟨operator, place⟩ :: row) u e s' where
  ordered := he.ordered
  tops := fun top htop => by
    rcases he.tops top htop with h | h
    · cases h
      exact .inr hleast
    · exact .inr h
  split := by
    obtain ⟨read, operands, rfl, hoperators, hoperands, hall⟩ := hright
    obtain ⟨read', rest', operands', rfl, hrest, hstop, hoperators', hoperands', hall'⟩ := he.split
    rw [hfirst] at hoperators hoperands
    refine ⟨⟨operator, place⟩ :: (read ++ read'), rest', first :: (operands ++ operands'), by simp,
      hrest, hstop, ?_, ?_, ?_⟩
    · simp [hoperators', Node.grouping, Grouping.operators, hoperators]
    · simp [hoperands', Node.grouping, Grouping.operands, hoperands]
    · rw [List.map_cons, List.map_append]
      exact .cons hread (List.rel_append hall hall')

end


section
variable {levels least fuel id : Nat} {r : Rules} {start : Span} {left : Node} {row : List Further}
  {s t u : ParserState}

theorem atOperator_numbered : (s.numbered id).AtOperator ↔ s.AtOperator :=
  ⟨fun ⟨kind, binds, notIn⟩ => ⟨kind, binds, notIn⟩, fun ⟨kind, binds, notIn⟩ => ⟨kind, binds, notIn⟩⟩

theorem atAssertion_numbered : (s.numbered id).AtAssertion ↔ s.AtAssertion :=
  ⟨fun ⟨kind, text, line⟩ => ⟨kind, text, line⟩, fun ⟨kind, text, line⟩ => ⟨kind, text, line⟩⟩

/-- Where no type assertion comes, the rule looks for an operator. -/
theorem operations_succ (h : ¬s.AtAssertion) :
    r.operations start least (fuel + 1) left s =
      (match Rules.precedence? s.next.text with
      | none => pure left
      | some prec => do
        if !(s.next.kind == .op || s.next.kind == .ident) || prec < least ||
            (s.next.text == "in" && (← get).noIn) then return left
        let _ ← advance
        let right ← r.binary (if s.next.text == "**" then prec else prec + 1)
        r.operations start least fuel (← build start (.binary · left s.next.text right)) :
        Parser Node) s := by
  rw [Rules.operations, current_bind]
  refine Eq.trans (congrFun (if_neg ?assertion) s) ?operator
  case operator => cases Rules.precedence? s.next.text <;> rfl
  intro hgate
  simp only [Bool.and_eq_true, beq_iff_eq, Bool.not_eq_true'] at hgate
  exact h ⟨hgate.1.1.1, List.contains_iff_mem.mp hgate.1.1.2, hgate.1.2⟩

theorem precedence_pos {operator : String} {prec : Nat} (h : Rules.precedence? operator = some prec) :
    0 < precedence operator := by
  rw [precedence, h]
  unfold Rules.precedence? at h
  split at h <;> cases h <;> decide

/-- The rule stops where no operator comes that binds tightly enough. -/
theorem operations_stop (hassertion : ¬s.AtAssertion)
    (hoperator : s.AtOperator → precedence s.next.text < least) :
    r.operations start least (fuel + 1) left s = .ok left s := by
  rw [operations_succ hassertion]
  cases hprec : Rules.precedence? s.next.text with
  | none => rfl
  | some prec =>
    have hvalue : precedence s.next.text = prec := by rw [precedence, hprec]; rfl
    dsimp only
    rw [get_bind, if_pos]
    · rfl
    by_contra hgo
    simp only [Bool.or_eq_true, not_or, Bool.and_eq_true, Bool.not_eq_true', Bool.not_eq_false,
      decide_eq_true_eq, beq_iff_eq] at hgo
    obtain ⟨⟨hkind, hlt⟩, hin⟩ := hgo
    have hbinds : 0 < precedence s.next.text := precedence_pos hprec
    have := hoperator ⟨hkind, hbinds, hin⟩
    omega

theorem operations_step (hs : s.AtOperator) (hleast : least ≤ precedence s.next.text) :
    r.operations start least (fuel + 1) left s =
      (do
        let right ← r.binary (rightLeast s.next.text)
        r.operations start least fuel (← build start (.binary · left s.next.text right)))
        s.behind := by
  rw [operations_succ hs.noAssertion, precedence?_eq hs.binds]
  dsimp only
  rw [get_bind, if_neg, bind_ok (advance_apply hs.not_eof)]
  · rfl
  intro hstop
  simp only [Bool.or_eq_true, Bool.and_eq_true, Bool.not_eq_true', Bool.or_eq_false_iff,
    decide_eq_true_eq, beq_iff_eq, beq_eq_false_iff_ne] at hstop
  obtain (hkind | hlt) | hin := hstop
  · exact hs.kind.elim hkind.1 hkind.2
  · omega
  · exact hs.notIn hin

theorem rules_bound (n : Nat) : (rules n).bound = n := by
  cases n <;> rfl

/-- The rule for operators goes on with an operand and what follows it as it does behind it. -/
theorem binaryExpression_apply {e : Node} {n : Nat} (h : (rules n).unaryExpression s = .ok e t) :
    (rules n).binaryExpression least s = (rules n).operations s.next.span least n e t := by
  rw [Rules.binaryExpression, current_bind, bind_ok h, rules_bound]

/-- Along a row, the rule for operators reads what binds tightly enough and groups it by precedence. -/
theorem operations_joined (hrow : Operations levels s row u) (hend : u.EndsRow) {n : Nat}
    (hn : levels + row.length < n) (hfuel : row.length < fuel) (hleft : left.grouping.Ordered)
    (hnext : ∀ further ∈ row.head?, least ≤ precedence further.operator →
      ∀ top ∈ left.grouping.top?, Grouping.MayStandLeft further.operator top) :
    ∃ e s' id', (rules n).operations start least fuel left (s.numbered id) = .ok e (s'.numbered id') ∧
      Joined levels least left row u e s' := by
  -- The right side of an operator is a shorter row, and so is what comes behind it.
  induction hlength : row.length using Nat.strongRecOn
    generalizing s row n fuel left least start id with
  | ind length ih =>
    obtain ⟨fuel, rfl⟩ : ∃ more, fuel = more + 1 := ⟨fuel - 1, by omega⟩
    cases hrow with
    | done =>
      exact ⟨left, u, id, operations_stop (mt atAssertion_numbered.mp hend.noAssertion)
        (fun h => absurd (atOperator_numbered.mp h) hend.noOperator), .refl hleft (.done u) nofun⟩
    | @more s t u rest hs operand hrest =>
      by_cases hlt : precedence s.next.text < least
      · refine ⟨left, s, id, operations_stop (mt atAssertion_numbered.mp hs.noAssertion) fun _ => hlt, ?_⟩
        refine .refl hleft (.more hs operand hrest) fun further hfurther => ?_
        cases hfurther
        exact hlt
      have hleast : least ≤ precedence s.next.text := Nat.le_of_not_lt hlt
      obtain ⟨m, rfl⟩ : ∃ m, n = m + 1 := ⟨n - 1, by omega⟩
      rw [List.length_cons] at hn hfuel hlength
      obtain ⟨first, id₁, hfirst⟩ := operand m (by omega) id
      have hwhole : first.grouping = .operand first :=
        (Rules.unaryExpression_operand first _ hfirst).whole
      -- The right side.
      have hread : ∃ e s' id', (rules m).operations s.behind.next.span (rightLeast s.next.text) m first
          (t.numbered id₁) = .ok e (s'.numbered id') ∧
            Joined levels (rightLeast s.next.text) first rest u e s' :=
        ih rest.length (by omega) hrest (by omega) (by omega) (hwhole ▸ .operand first)
          (by simp [hwhole, Grouping.top?]) rfl
      obtain ⟨right, s₂, id₂, hreads, hright⟩ := hread
      have hbinary : (rules (m + 1)).binary (rightLeast s.next.text) (s.behind.numbered id) =
          .ok right (s₂.numbered id₂) := (binaryExpression_apply hfirst).trans hreads
      obtain ⟨read, rest', operands, hsplit, hrest', hstop, hoperators, hoperands, hall⟩ :=
        hright.split
      have hshorter : rest'.length ≤ rest.length := by simp [hsplit]
      -- What comes behind it.
      have hjoin (mark : Mark) : (Node.binary mark left s.next.text right).grouping.Ordered := by
        refine .join (hnext _ rfl hleast) (fun inner hinner => ?_) hleft hright.ordered
        rcases hright.tops inner hinner with h | h
        · rw [hwhole] at h
          cases h
        · exact mayStandRight_of_le h
      have hbehind (mark : Mark) : ∀ further ∈ rest'.head?, least ≤ precedence further.operator →
          ∀ top ∈ (Node.binary mark left s.next.text right).grouping.top?,
            Grouping.MayStandLeft further.operator top := by
        intro further hfurther _ top htop
        cases htop
        exact mayStandLeft_of_lt (hstop further hfurther)
      let joined : Node := .binary ⟨id₂, start.upTo s₂.last⟩ left s.next.text right
      have hgoesOn : ∃ e s' id', (rules (m + 1)).operations start least fuel joined
          (s₂.numbered (id₂ + 1)) = .ok e (s'.numbered id') ∧ Joined levels least joined rest' u e s' :=
        ih rest'.length (by omega) hrest' (by omega) (by omega) (hjoin _) (hbehind _) rfl
      obtain ⟨e, s', id', hmore, he⟩ := hgoesOn
      refine ⟨e, s', id', ?_, he.operation hwhole ⟨m, by omega, id, id₁, hfirst⟩
        ⟨read, operands, hsplit, hoperators, hoperands, hall⟩ hleast⟩
      calc (rules (m + 1)).operations start least (fuel + 1) left (s.numbered id)
          _ = _ := operations_step (atOperator_numbered.mpr hs) hleast
          _ = _ := bind_ok hbinary
          _ = _ := bind_ok (build_apply _ _ _)
          _ = _ := hmore

/-! ## Whole rows -/

/-- Operands with binary operators between them, up to where neither an operator nor a type assertion
comes, are read to their end, whatever the depth from some level on. The expression has them as its
operands and operators in order, grouped by precedence, and there is no other such grouping. -/
theorem binaryExpression_groups (first : Operand levels s t) (hrow : Operations levels t row u)
    (hend : u.EndsRow) {n : Nat} (hn : levels + row.length < n) (id : Nat) :
    ∃ e id', (rules n).binaryExpression 1 (s.numbered id) = .ok e (u.numbered id') ∧
      e.grouping.operators = row.map (·.operator) ∧
      List.Forall₂ (ReadOperand levels) ((s, t) :: row.map (·.place)) e.grouping.operands ∧
      e.grouping.Ordered ∧
      ∀ g : Grouping Node, g.operators = e.grouping.operators → g.operands = e.grouping.operands →
        g.Ordered → g = e.grouping := by
  obtain ⟨left, id₁, hleft⟩ := first n (by omega) id
  have hwhole : left.grouping = .operand left := (Rules.unaryExpression_operand left _ hleft).whole
  have hjoined : ∃ e s' id', (rules n).operations s.next.span 1 n left (t.numbered id₁) =
      .ok e (s'.numbered id') ∧ Joined levels 1 left row u e s' :=
    operations_joined hrow hend hn (by omega) (hwhole ▸ .operand left) (by simp [hwhole, Grouping.top?])
  obtain ⟨e, s', id', hreads, he⟩ := hjoined
  obtain ⟨read, rest, operands, hsplit, hrest, hstop, hoperators, hoperands, hall⟩ := he.split
  -- Every operator binds, so none is left.
  cases hrest with
  | more hs _ _ => exact absurd (hstop _ rfl) (Nat.not_lt.mpr hs.binds)
  | done =>
    rw [List.append_nil] at hsplit
    subst hsplit
    rw [hwhole] at hoperators hoperands
    refine ⟨e, id', (binaryExpression_apply hleft).trans hreads, hoperators, ?_, he.ordered, ?_⟩
    · rw [hoperands]
      exact .cons ⟨n, by omega, id, id₁, hleft⟩ hall
    · exact fun g hgo hg hordered => Grouping.eq_of_ordered hordered he.ordered hg hgo

end

/-- The tokens of `a - b * c ** d ** e - f`. -/
def sampleRow : Array Token :=
  let token (kind : TokenKind) (text : String) (start stop : Nat) : Token :=
    { kind, text, span := { start, stop, col := start + 1, endCol := stop + 1 } }
  #[token .ident "a" 0 1, token .op "-" 2 3, token .ident "b" 4 5, token .op "*" 6 7,
    token .ident "c" 8 9, token .op "**" 10 12, token .ident "d" 13 14, token .op "**" 15 17,
    token .ident "e" 18 19, token .op "-" 20 21, token .ident "f" 22 23, token .eof "" 23 23]

theorem sampleRow_operand (pos : Nat) (h : pos ∈ [0, 2, 4, 6, 8, 10]) :
    Operand 1 { tokens := sampleRow, pos } { tokens := sampleRow, pos := pos + 1 } := by
  intro n hn id
  obtain ⟨n, rfl⟩ : ∃ m, n = m + 1 := ⟨n - 1, by omega⟩
  simp only [List.mem_cons, List.not_mem_nil, or_false] at h
  rcases h with rfl | rfl | rfl | rfl | rfl | rfl <;> exact ⟨_, _, rfl⟩

theorem sampleRow_operator (pos : Nat) (h : pos ∈ [1, 3, 5, 7, 9]) :
    ParserState.AtOperator { tokens := sampleRow, pos } := by
  simp only [List.mem_cons, List.not_mem_nil, or_false] at h
  rcases h with rfl | rfl | rfl | rfl | rfl <;> exact ⟨.inl rfl, by decide, by simp⟩

theorem binaryExpression_groups_sampleRow :
    ∃ e id', (rules 7).binaryExpression 1 { tokens := sampleRow } =
        .ok e { tokens := sampleRow, pos := 11, nextId := id' } ∧
      e.grouping.operators = ["-", "*", "**", "**", "-"] ∧ e.grouping.Ordered := by
  have hrow : Operations 1 { tokens := sampleRow, pos := 1 } _ { tokens := sampleRow, pos := 11 } :=
    .more (sampleRow_operator 1 (by decide)) (sampleRow_operand 2 (by decide)) <|
      .more (sampleRow_operator 3 (by decide)) (sampleRow_operand 4 (by decide)) <|
      .more (sampleRow_operator 5 (by decide)) (sampleRow_operand 6 (by decide)) <|
      .more (sampleRow_operator 7 (by decide)) (sampleRow_operand 8 (by decide)) <|
      .more (sampleRow_operator 9 (by decide)) (sampleRow_operand 10 (by decide)) (.done _)
  have hend : ParserState.EndsRow { tokens := sampleRow, pos := 11 } :=
    ⟨fun h => absurd h.kind (by decide), fun h => absurd h.kind (by decide)⟩
  obtain ⟨e, id', hreads, hoperators, -, hordered, -⟩ :=
    binaryExpression_groups (sampleRow_operand 0 (by decide)) hrow hend (n := 7) (by decide) 0
  exact ⟨e, id', hreads, hoperators, hordered⟩

end ScriptBridge.TypeScript
