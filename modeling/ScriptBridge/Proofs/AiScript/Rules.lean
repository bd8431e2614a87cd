import ScriptBridge.AiScript.Grammar
import ScriptBridge.Proofs.AiScript.Printable

/-!
# Rules on given tokens

What the rules of the grammar do on tokens of which the first are known. The rules for operators are
levels of chains (`operatorLevels`); an operand passes through all of them if no operator follows it
(`disjunction_operand`), and one operator between two operands is read at its own level
(`disjunction_binary`).

* `Token.leaves`, `Token.stops`: tokens at which an operand or an expression ends.
* `Ends`: tokens that may stand behind a statement.
* `Begins`: tokens that begin an expression, a statement or a body.
-/

namespace ScriptBridge.AiScript

variable {α β : Type} {t u : Token} {ts us vs more : List Token} {word : String}

/-! ## Single tokens -/

theorem Token.Is.isAny {kind : TokenKind} {newline space : Bool} (h : t.Is kind word newline space)
    (hs : kind ≠ .string) (ht : kind ≠ .template) (words : List String) :
    t.isAny words = words.contains word := by
  simp [Token.isAny, h.kind, h.text, hs, ht]

theorem Token.Is.op_isAny {newline space : Bool} (h : t.Is .op word newline space)
    (words : List String) : t.isAny words = words.contains word :=
  h.isAny nofun nofun words

theorem Token.isAny_cons (words : List String) :
    t.isAny (word :: words) = (t.isAny [word] || t.isAny words) := by
  simp only [Token.isAny, List.contains_cons, List.contains_nil, Bool.or_false]
  cases (t.kind != .string && t.kind != .template) <;> simp

theorem Token.not_isAny_of_mem {words : List String} (h : t.isAny words = false) (hw : word ∈ words) :
    t.isAny [word] = false := by
  induction words with
  | nil => cases hw
  | cons w ws ih =>
    rw [Token.isAny_cons, Bool.or_eq_false_iff] at h
    rcases List.mem_cons.mp hw with rfl | hw
    · exact h.1
    · exact ih h.2 hw

theorem Token.not_isAny_subset {words words' : List String} (h : t.isAny words = false)
    (hw : words' ⊆ words) : t.isAny words' = false := by
  induction words' with
  | nil => simp [Token.isAny]
  | cons w ws ih =>
    rw [Token.isAny_cons, Bool.or_eq_false_iff]
    obtain ⟨hw, hws⟩ := List.cons_subset.mp hw
    exact ⟨Token.not_isAny_of_mem h hw, ih hws⟩

/-! ## Running rules -/

namespace Parser

theorem bind_ok {p : Parser α} {f : α → Parser β} {a : α} (h : p ts = .ok (a, us)) :
    (p >>= f) ts = f a us := by
  simp only [bind, StateT.bind, h, Except.bind]

theorem map_ok {p : Parser α} {f : α → β} {a : α} (h : p ts = .ok (a, us)) :
    (f <$> p) ts = .ok (f a, us) := by
  simp only [Functor.map, StateT.map, h, bind, Except.bind, pure, Except.pure]

theorem current_cons : current (t :: ts) = .ok (t, t :: ts) :=
  rfl

theorem advance_cons : advance (t :: ts) = .ok (t, ts) :=
  rfl

theorem sees_cons : sees word (t :: ts) = .ok (t.isAny [word], t :: ts) :=
  rfl

theorem expect_cons (h : t.isAny [word] = true) : expect word (t :: ts) = .ok (t, ts) := by
  rw [expect, bind_ok current_cons, if_pos h, advance_cons]

theorem accept_cons (h : t.isAny [word] = true) : accept word (t :: ts) = .ok (true, ts) := by
  rw [accept, bind_ok sees_cons, if_pos h]
  rfl

theorem accept_other (h : t.isAny [word] = false) :
    accept word (t :: ts) = .ok (false, t :: ts) := by
  rw [accept, bind_ok sees_cons, if_neg (by simp [h])]
  rfl

/-- What follows a choice by the next token may stand in both branches. -/
theorem accept_branch {p q : Parser α} {next : α → Parser β} {a : α}
    (h : (accept word >>= fun isNext => if isNext then p else q) ts = .ok (a, us)) :
    (accept word >>= fun isNext => if isNext then p >>= next else q >>= next) ts = next a us := by
  simp only [bind, StateT.bind, Except.bind] at h ⊢
  split at h
  · cases h
  · rename_i found _
    cases hb : found.1 with
    | true =>
      simp only [hb, if_true] at h ⊢
      exact bind_ok h
    | false =>
      simp only [hb, Bool.false_eq_true, if_false] at h ⊢
      exact bind_ok h

theorem identifier_cons (h : t.kind = .ident) : identifier (t :: ts) = .ok (t, ts) := by
  rw [identifier, bind_ok current_cons, if_pos h, advance_cons]

theorem skipAny_other {words : List String} (h : t.isAny words = false) :
    skipAny words (t :: ts) = .ok ((), t :: ts) := by
  simp [skipAny, skipAny.go, h]

theorem skipAny_cons {words : List String} (h : t.isAny words = true) :
    skipAny words (t :: ts) = skipAny words ts := by
  simp [skipAny, skipAny.go, h]

section Items

variable {close : String} {check between : Parser Unit} {item : Parser α} {n : Nat}

theorem itemsUntil_close (h : t.isAny [close] = true) :
    itemsUntil close check item between (n + 1) (t :: ts) = .ok ([], t :: ts) := by
  rw [itemsUntil, bind_ok sees_cons, if_pos h]
  rfl

theorem itemsUntil_item {x : α} {xs : List α} (h : t.isAny [close] = false)
    (hc : check (t :: ts) = .ok ((), t :: ts)) (hi : item (t :: ts) = .ok (x, us))
    (hb : between us = .ok ((), vs))
    (hr : itemsUntil close check item between n vs = .ok (xs, more)) :
    itemsUntil close check item between (n + 1) (t :: ts) = .ok (x :: xs, more) := by
  rw [itemsUntil, bind_ok sees_cons, if_neg (by simp [h]), bind_ok hc, bind_ok hi, bind_ok hb,
    bind_ok hr]
  rfl

end Items

end Parser

open ScriptBridge.AiScript.Parser

/-! ## Where expressions and statements end -/

/-- A token that does not go on an operand. -/
def Token.leaves (t : Token) : Bool :=
  !t.isAny ["."] && (t.spaceBefore || !t.isAny ["[", "("])

/-- A token that does not go on an expression. -/
def Token.stops (t : Token) : Bool :=
  t.leaves && !t.isAny binaryOperators

/-- A token that may stand behind a statement. -/
structure Ends (n : Node) (t : Token) : Prop where
  stops : t.stops = true
  not_assign : t.isAny ["=", "+=", "-="] = false
  not_branch : n.isOpen = true → t.isAny ["elif", "else"] = false

theorem Token.leaves_of_stops (h : t.stops = true) : t.leaves = true := by
  rw [Token.stops, Bool.and_eq_true] at h
  exact h.1

theorem Token.stops_operator (h : t.stops = true) (hw : word ∈ binaryOperators) :
    t.isAny [word] = false := by
  rw [Token.stops, Bool.and_eq_true, Bool.not_eq_true'] at h
  exact Token.not_isAny_of_mem h.2 hw

namespace Rules

variable {r : Rules} {k m : Nat} {e l x : Node}

theorem suffixes_leave (h : t.leaves = true) (e : Node) :
    r.suffixes (m + 1) e (t :: ts) = .ok (e, t :: ts) := by
  rw [Token.leaves, Bool.and_eq_true, Bool.or_eq_true, Bool.not_eq_true'] at h
  obtain ⟨hdot, hopen⟩ := h
  have hbracket : ∀ w ∈ ["[", "("], (t.isAny [w] && !t.spaceBefore) = false := by
    intro w hw
    rcases hopen with hs | ho
    · simp [hs]
    · rw [Bool.not_eq_true'] at ho
      simp [Token.not_isAny_of_mem ho hw]
  rw [suffixes, bind_ok current_cons, if_neg (by simp [hdot]),
    if_neg (by simp only [hbracket "[" (by simp)]; simp),
    if_neg (by simp only [hbracket "(" (by simp)]; simp)]
  rfl

/-! ## Levels of operators -/

/-- The operators of each level from products to disjunctions. -/
def operatorLevels : List (Token → Bool) :=
  [(·.isAny ["*", "/", "%"]), fun t => t.isAny ["+", "-"] && !t.newlineBefore,
    (·.isAny ["<", "<=", ">", ">="]), (·.isAny ["==", "!="]), (·.isAny ["&&"]), (·.isAny ["||"])]

theorem disjunction_eq :
    r.disjunction =
      operatorLevels.foldl (fun operand isOperator => r.chain isOperator operand) r.powerExpression :=
  rfl

theorem chain_operand {isOperator : Token → Bool} {operand : Parser Node} (hb : 0 < r.bound)
    (h : operand ts = .ok (e, t :: us)) (ht : isOperator t = false) :
    r.chain isOperator operand ts = .ok (e, t :: us) := by
  obtain ⟨b, hb⟩ := Nat.exists_eq_add_of_lt hb
  rw [chain, bind_ok h, hb, Nat.zero_add, chainFrom, bind_ok current_cons, if_neg (by simp [ht])]
  rfl

theorem chain_binary {isOperator : Token → Bool} {operand : Parser Node} (hb : 1 < r.bound)
    (hl : operand ts = .ok (l, u :: us)) (hu : isOperator u = true)
    (hx : operand us = .ok (x, t :: vs)) (ht : isOperator t = false) :
    r.chain isOperator operand ts = .ok (.binary l.loc u.text l x, t :: vs) := by
  obtain ⟨b, hb⟩ := Nat.exists_eq_add_of_lt hb
  rw [chain, bind_ok hl, hb, show 1 + b + 1 = (b + 1) + 1 by omega, chainFrom, bind_ok current_cons,
    if_pos hu, bind_ok advance_cons, bind_ok hx, chainFrom, bind_ok current_cons,
    if_neg (by simp [ht])]
  rfl

theorem levels_operand {levels : List (Token → Bool)} {operand : Parser Node} (hb : 0 < r.bound)
    (h : operand ts = .ok (e, t :: us)) (ht : ∀ isOperator ∈ levels, isOperator t = false) :
    levels.foldl (fun operand isOperator => r.chain isOperator operand) operand ts =
      .ok (e, t :: us) := by
  induction levels generalizing operand with
  | nil => exact h
  | cons isOperator levels ih =>
    exact ih (chain_operand hb h (ht _ (by simp))) fun q hq => ht q (by simp [hq])

theorem stops_levels (h : t.stops = true) : ∀ isOperator ∈ operatorLevels, isOperator t = false := by
  have hany (words : List String) (hw : words ⊆ binaryOperators) : t.isAny words = false := by
    rw [Token.stops, Bool.and_eq_true, Bool.not_eq_true'] at h
    exact Token.not_isAny_subset h.2 hw
  have hsum : (t.isAny ["+", "-"] && !t.newlineBefore) = false := by
    rw [hany ["+", "-"] (by decide), Bool.false_and]
  intro isOperator hmem
  simp only [operatorLevels, List.mem_cons, List.not_mem_nil, or_false] at hmem
  rcases hmem with rfl | rfl | rfl | rfl | rfl | rfl
  · exact hany _ (by decide)
  · exact hsum
  · exact hany _ (by decide)
  · exact hany _ (by decide)
  · exact hany _ (by decide)
  · exact hany _ (by decide)

theorem powerExpression_operand (h : r.unaryExpression ts = .ok (e, t :: us))
    (ht : t.isAny ["^"] = false) : r.powerExpression ts = .ok (e, t :: us) := by
  rw [powerExpression, bind_ok h, bind_ok (accept_other ht)]
  rfl

/-- An operand is an expression if no operator follows it. -/
theorem disjunction_operand (hb : 0 < r.bound) (h : r.unaryExpression ts = .ok (e, t :: us))
    (ht : t.stops = true) : r.disjunction ts = .ok (e, t :: us) := by
  rw [disjunction_eq]
  exact levels_operand hb (powerExpression_operand h (Token.stops_operator ht (by decide)))
    (stops_levels ht)

/-- The level of an operator: the tighter ones pass it on. -/
theorem operator_level {op : String} (hop : op ∈ binaryOperators) (hpow : op ≠ "^") {space : Bool}
    (hu : u.Is .op op false space) :
    ∃ tighter isOperator looser, operatorLevels = tighter ++ isOperator :: looser ∧
      (∀ q ∈ tighter, q u = false) ∧ isOperator u = true := by
  have hany := hu.op_isAny
  have hline : u.newlineBefore = false := hu.newline
  have hsplit : ∀ i, i < operatorLevels.length →
      operatorLevels = operatorLevels.take i ++ (operatorLevels.drop i).head! ::
        operatorLevels.drop (i + 1) := by
    intro i hi
    match i, hi with
    | 0, _ | 1, _ | 2, _ | 3, _ | 4, _ | 5, _ => rfl
  have hlevel : ∃ i, i < operatorLevels.length ∧
      (∀ q ∈ operatorLevels.take i, q u = false) ∧ (operatorLevels.drop i).head! u = true := by
    simp only [binaryOperators, List.mem_cons, List.not_mem_nil, or_false] at hop
    rcases hop with rfl | rfl | rfl | rfl | rfl | rfl | rfl | rfl | rfl | rfl | rfl | rfl | rfl | rfl
    · exact ⟨1, by decide, by simp [operatorLevels, hany], by simp [operatorLevels, hany, hline]⟩
    · exact ⟨1, by decide, by simp [operatorLevels, hany], by simp [operatorLevels, hany, hline]⟩
    · exact ⟨0, by decide, by simp, by simp [operatorLevels, hany]⟩
    · exact ⟨0, by decide, by simp, by simp [operatorLevels, hany]⟩
    · exact ⟨0, by decide, by simp, by simp [operatorLevels, hany]⟩
    · exact absurd rfl hpow
    · exact ⟨3, by decide, by simp [operatorLevels, hany], by simp [operatorLevels, hany]⟩
    · exact ⟨3, by decide, by simp [operatorLevels, hany], by simp [operatorLevels, hany]⟩
    · exact ⟨2, by decide, by simp [operatorLevels, hany], by simp [operatorLevels, hany]⟩
    · exact ⟨2, by decide, by simp [operatorLevels, hany], by simp [operatorLevels, hany]⟩
    · exact ⟨2, by decide, by simp [operatorLevels, hany], by simp [operatorLevels, hany]⟩
    · exact ⟨2, by decide, by simp [operatorLevels, hany], by simp [operatorLevels, hany]⟩
    · exact ⟨4, by decide, by simp [operatorLevels, hany], by simp [operatorLevels, hany]⟩
    · exact ⟨5, by decide, by simp [operatorLevels, hany], by simp [operatorLevels, hany]⟩
  obtain ⟨i, hi, ht, ho⟩ := hlevel
  exact ⟨_, _, _, hsplit i hi, ht, ho⟩

/-- Two operands with an operator between them and none behind. -/
theorem disjunction_binary {op : String} (hop : op ∈ binaryOperators) {space : Bool}
    (hu : u.Is .op op false space) (hl : (rules (k + 2)).unaryExpression ts = .ok (l, u :: us))
    (hx : ∀ k', k' = k + 1 ∨ k' = k + 2 → (rules k').unaryExpression us = .ok (x, t :: vs))
    (ht : t.stops = true) :
    (rules (k + 2)).disjunction ts = .ok (.binary l.loc op l x, t :: vs) := by
  have hpow : t.isAny ["^"] = false := Token.stops_operator ht (by decide)
  have hlevels := stops_levels ht
  have hbound : (rules (k + 2)).bound = k + 2 := rfl
  rw [disjunction_eq]
  by_cases h : op = "^"
  · subst h
    have hright : (rules (k + 2)).power us = .ok (x, t :: vs) :=
      powerExpression_operand (hx (k + 1) (.inl rfl)) hpow
    have haccept : accept "^" (u :: us) = .ok (true, us) := accept_cons (by simp [hu.op_isAny])
    refine levels_operand (by omega) ?_ hlevels
    rw [powerExpression, bind_ok hl, bind_ok haccept, if_pos rfl, bind_ok hright]
    rfl
  · obtain ⟨tighter, isOperator, looser, hsplit, htight, ho⟩ := operator_level hop h hu
    rw [hsplit] at hlevels ⊢
    have hnot : u.isAny ["^"] = false := by simpa [hu.op_isAny] using h
    have hleft := levels_operand (r := rules (k + 2)) (by omega) (powerExpression_operand hl hnot)
      htight
    have hright := levels_operand (r := rules (k + 2)) (by omega)
      (powerExpression_operand (hx (k + 2) (.inr rfl)) hpow)
      fun q (hq : q ∈ tighter) => hlevels q (by simp [hq])
    rw [List.foldl_append, List.foldl_cons, ← hu.text]
    exact levels_operand (by omega)
      (chain_binary (by omega) hleft ho hright (hlevels _ (by simp))) fun q hq => hlevels q (by simp [hq])

end Rules

end ScriptBridge.AiScript
