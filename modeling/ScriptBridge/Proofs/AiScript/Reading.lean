import ScriptBridge.Proofs.AiScript.Rules
import ScriptBridge.Proofs.Data.Assoc

/-!
# Tokens that are read as a given tree

`Reads item R F cost x` says of tokens that the rule `item` reads them as something related to `x` by
`R`, in front of every token that `F` allows, once there are more than `cost` levels of nesting left.
For expressions more is needed: another access or call may follow, so `Spine` says what is left to do
after the tokens of an expression.

* `ReadsExpression`, `ReadsStatement`, `ReadsBody`: the tokens of a node at each position.
* `Spine.prop`, `Spine.index`, `Spine.call`: accesses and calls.
* `ReadsExpression.operand`, `ReadsExpression.expression`: what the rules do on an expression.
-/

namespace ScriptBridge.AiScript

open ScriptBridge.AiScript.Parser

attribute [local simp] Node.same

variable {t u c : Token} {ts us vs more : List Token} {word : String} {newline space : Bool}
  {cost cost' : Nat} {n : Node} {l : Loc}

/-! ## How nodes begin -/

/-- The words that begin neither an expression nor a statement. -/
def innerWords : List String :=
  [".", ")", "]", "\x7d", ",", ";", ":", "?", "=", "+=", "-=", "=>", "!", "case", "default", "elif",
    "else"] ++ binaryOperators

/-- Tokens of which the first begins an expression or a statement. -/
def Heads (newline space : Bool) (ts : List Token) : Prop :=
  ∃ t rest, ts = t :: rest ∧ t.newlineBefore = newline ∧ t.spaceBefore = space ∧ t.kind ≠ .eof ∧
    t.isAny innerWords = false

theorem Heads.append (h : Heads newline space ts) (us : List Token) :
    Heads newline space (ts ++ us) := by
  obtain ⟨t, rest, rfl, ht⟩ := h
  exact ⟨t, rest ++ us, rfl, ht⟩

/-- A token that begins an expression after a blank ends every statement. -/
theorem ends_of_begins (hs : t.spaceBefore = true) (h : t.isAny innerWords = false) (n : Node) :
    Ends n t := by
  have hany (words : List String) (hw : words ⊆ innerWords) : t.isAny words = false :=
    Token.not_isAny_subset h hw
  have hstops : t.stops = true := by
    rw [Token.stops, Token.leaves, hs, hany ["."] (by decide), hany binaryOperators (by decide)]
    rfl
  exact ⟨hstops, hany _ (by decide), fun _ => hany _ (by decide)⟩

/-- The words that end everything before them. -/
def closers : List String :=
  [")", "]", "\x7d", ",", "=>"]

theorem Token.Is.ends (h : t.Is .op word newline space) (hw : word ∈ closers) (n : Node) :
    Ends n t := by
  have hall : ∀ w ∈ closers, w ∉ "." :: "[" :: "(" :: "=" :: "+=" :: "-=" :: "elif" :: "else" ::
      binaryOperators := by decide
  have hnot := hall word hw
  have hany (words : List String)
      (hs : words ⊆ "." :: "[" :: "(" :: "=" :: "+=" :: "-=" :: "elif" :: "else" :: binaryOperators) :
      t.isAny words = false := by
    rw [h.op_isAny]
    simpa using fun hm => hnot (hs hm)
  have hstops : t.stops = true := by
    rw [Token.stops, Token.leaves, hany ["."] (by decide), hany ["[", "("] (by decide),
      hany binaryOperators (by decide)]
    simp
  exact ⟨hstops, hany _ (by decide), fun _ => hany _ (by decide)⟩

theorem ends_of_eof (hk : t.kind = .eof) (ht : t.text = "") (n : Node) : Ends n t := by
  have hany (words : List String) (hw : "" ∉ words) : t.isAny words = false := by
    simp [Token.isAny, hk, ht, hw]
  have hstops : t.stops = true := by
    rw [Token.stops, Token.leaves, hany ["."] (by decide), hany ["[", "("] (by decide),
      hany binaryOperators (by decide)]
    simp
  exact ⟨hstops, hany _ (by decide), fun _ => hany _ (by decide)⟩

/-- The first token of an expression tells what kind of expression and of statement it begins. -/
structure Leads (n : Node) (newline space : Bool) (ts : List Token) : Prop where
  heads : Heads newline space ts
  not_number : n.numeralLed = false → ∀ t ∈ ts.head?, t.kind ≠ .number
  not_brace : n.objectLed = false → ∀ t ∈ ts.head?, t.isAny ["\x7b"] = false
  statement : n.objectLed = false → ∀ (r : Rules) (more : List Token),
    r.anyStatement (ts ++ more) = r.expressionStatement (ts ++ more)

theorem Leads.append {n' : Node} (h : Leads n newline space ts) (hnum : n'.numeralLed = n.numeralLed)
    (hobj : n'.objectLed = n.objectLed) (us : List Token) : Leads n' newline space (ts ++ us) := by
  have hhead : (ts ++ us).head? = ts.head? := by
    obtain ⟨t, rest, rfl, -⟩ := h.heads
    rfl
  refine ⟨h.heads.append us, ?_, ?_, fun ho r more => ?_⟩
  · rw [hnum, hhead]
    exact h.not_number
  · rw [hobj, hhead]
    exact h.not_brace
  · rw [List.append_assoc]
    exact h.statement (hobj ▸ ho) r _

/-- A literal, a name or a template begins with a token of its own kind. -/
theorem Leads.of_kind (hk : t.kind = .string ∨ t.kind = .template ∨ t.kind = .ident)
    (hany : t.isAny innerWords = false) (hbrace : t.isAny ["\x7b"] = false) :
    Leads n t.newlineBefore t.spaceBefore (t :: ts) := by
  refine ⟨⟨t, ts, rfl, rfl, rfl, ?_, hany⟩, fun _ => ?_, fun _ => ?_, fun _ r more => ?_⟩
  · rcases hk with hk | hk | hk <;> simp [hk]
  · rintro _ ⟨⟩
    rcases hk with hk | hk | hk <;> simp [hk]
  · rintro _ ⟨⟩
    exact hbrace
  · rw [List.cons_append, Rules.anyStatement, bind_ok current_cons, if_pos]
    rcases hk with hk | hk | hk <;> simp [hk]

/-- The words that begin a statement that is not an expression, or a block. -/
def statementWords : List String :=
  ["let", "var", "@", "return", "break", "continue", "loop", "each", "\x7b"]

theorem anyStatement_other {r : Rules} (h : t.text ∉ statementWords) :
    r.anyStatement (t :: ts) = r.expressionStatement (t :: ts) := by
  rw [Rules.anyStatement, bind_ok current_cons]
  split
  · rfl
  · refine congrFun (?_ : _ = r.expressionStatement) _
    split <;> simp_all [statementWords]

theorem Leads.of_text (hk : t.kind ≠ .eof) (hany : t.isAny innerWords = false)
    (hnum : n.numeralLed = false → t.kind ≠ .number) (ht : t.text ∉ statementWords) :
    Leads n t.newlineBefore t.spaceBefore (t :: ts) := by
  refine ⟨⟨t, ts, rfl, rfl, rfl, hk, hany⟩, fun h => ?_, fun _ => ?_, fun _ r more => ?_⟩
  · rintro _ ⟨⟩
    exact hnum h
  · rintro _ ⟨⟩
    have hne : t.text ≠ "\x7b" := fun h => ht (by simp [h, statementWords])
    simp [Token.isAny, hne]
  · exact anyStatement_other ht

theorem Leads.of_op (h : t.Is .op word newline space) (hi : word ∉ innerWords)
    (hw : word ∉ statementWords) : Leads n newline space (t :: ts) := by
  have hlead : Leads n t.newlineBefore t.spaceBefore (t :: ts) := by
    refine .of_text (by simp [h.kind]) ?_ (fun _ => by simp [h.kind]) (h.text ▸ hw)
    rw [h.op_isAny]
    simpa using hi
  rwa [h.newline, h.space] at hlead

/-! ## Expressions -/

/-- What is left to do after the tokens of an expression is to look for accesses and calls. -/
def Spine (cost : Nat) (n : Node) (ts : List Token) : Prop :=
  ∃ e : Node, e.same n = true ∧ ∀ k m, cost ≤ k → cost ≤ m → ∃ m', m + 1 ≤ m' + cost ∧
    ∀ t more, (n.isCond = true → Ends n t) →
      ((rules k).primary >>= (rules k).suffixes m) (ts ++ t :: more) =
        (rules k).suffixes m' e (t :: more)

/-- The tokens of an expression. -/
structure ReadsExpression (cost : Nat) (n : Node) (newline space : Bool) (ts : List Token) :
    Prop where
  pos : 0 < cost
  leads : Leads n newline space ts
  spine : Spine cost n ts

/-- A token that may stand behind an expression. -/
structure Follows (n : Node) (t : Token) : Prop where
  stops : t.stops = true
  ends : n.isCond = true → Ends n t

theorem Ends.follows (h : Ends n t) : Follows n t :=
  ⟨h.stops, fun _ => h⟩

theorem rules_bound (k : Nat) : (rules k).bound = k := by
  cases k <;> rfl

theorem Spine.mono (h : Spine cost n ts) (hc : cost ≤ cost') : Spine cost' n ts := by
  obtain ⟨e, he, hs⟩ := h
  refine ⟨e, he, fun k m hk hm => ?_⟩
  obtain ⟨m', hm', hs⟩ := hs k m (hc.trans hk) (hc.trans hm)
  exact ⟨m', by omega, hs⟩

theorem ReadsExpression.mono (h : ReadsExpression cost n newline space ts) (hc : cost ≤ cost') :
    ReadsExpression cost' n newline space ts :=
  ⟨Nat.lt_of_lt_of_le h.pos hc, h.leads, h.spine.mono hc⟩

theorem Spine.of_primary {e : Node} (he : e.same n = true) (hc : 0 < cost)
    (h : ∀ k, cost ≤ k → ∀ t more, (n.isCond = true → Ends n t) →
      (rules k).primary (ts ++ t :: more) = .ok (e, t :: more)) : Spine cost n ts := by
  refine ⟨e, he, fun k m hk _ => ⟨m, by omega, fun t more ht => ?_⟩⟩
  rw [bind_ok (h k hk t more ht)]

theorem ReadsExpression.operand (h : ReadsExpression cost n newline space ts) :
    ∃ e : Node, e.same n = true ∧ ∀ k, cost ≤ k → ∀ t more, t.leaves = true →
      (n.isCond = true → Ends n t) →
        (rules k).unaryExpression (ts ++ t :: more) = .ok (e, t :: more) := by
  obtain ⟨e, he, hs⟩ := h.spine
  refine ⟨e, he, fun k hk t more ht hc => ?_⟩
  obtain ⟨m', hm', hs⟩ := hs k k hk hk
  obtain ⟨m, rfl⟩ : ∃ m, m' = m + 1 := ⟨m' - 1, by omega⟩
  have hpostfix : (rules k).postfixExpression (ts ++ t :: more) = .ok (e, t :: more) := by
    rw [Rules.postfixExpression, rules_bound, hs t more hc, Rules.suffixes_leave ht]
  obtain ⟨t₀, rest, rfl, -, -, -, hany⟩ := h.leads.heads
  have hsign : t₀.isAny ["!", "+", "-"] = false := Token.not_isAny_subset hany (by decide)
  rw [List.cons_append] at hpostfix ⊢
  rw [Rules.unaryExpression, bind_ok current_cons, if_neg (by simp [hsign]), hpostfix]

theorem ReadsExpression.expression (h : ReadsExpression cost n newline space ts) :
    ∃ e : Node, e.same n = true ∧ ∀ k, cost < k → ∀ t more, Follows n t →
      (rules k).expression (ts ++ t :: more) = .ok (e, t :: more) := by
  obtain ⟨e, he, hop⟩ := h.operand
  refine ⟨e, he, fun k hk t more ht => ?_⟩
  obtain ⟨k, rfl⟩ : ∃ j, k = j + 1 := ⟨k - 1, by omega⟩
  have hbound : 0 < (rules k).bound := by
    rw [rules_bound]
    exact Nat.lt_of_lt_of_le h.pos (Nat.le_of_lt_succ hk)
  exact Rules.disjunction_operand hbound
    (hop k (by omega) t more (Token.leaves_of_stops ht.stops) ht.ends) ht.stops

/-! ## Leaves -/

theorem primary_op {r : Rules} (h : t.kind = .op) : r.primary (t :: ts) = r.marked t (t :: ts) := by
  rw [Rules.primary, bind_ok current_cons]
  simp only [h]

theorem reads_str {value : String} (h : t.Is .string value newline space) (hc : 0 < cost) :
    ReadsExpression cost (.str l value) newline space [t] := by
  have hany (words : List String) : t.isAny words = false := by simp [Token.isAny, h.kind]
  have hlead : Leads (.str l value) t.newlineBefore t.spaceBefore [t] :=
    .of_kind (.inl h.kind) (hany _) (hany _)
  rw [h.newline, h.space] at hlead
  refine ⟨hc, hlead, .of_primary (e := .str t.loc value) (by simp) hc ?_⟩
  intro k _ u more _
  rw [List.singleton_append, Rules.primary, bind_ok current_cons]
  simp only [h.kind]
  rw [bind_ok advance_cons, h.text]
  rfl

theorem reads_ident {name : String} (h : t.Is .ident name newline space)
    (hn : name ∉ "\x7b" :: innerWords) (hc : 0 < cost) :
    ReadsExpression cost (.ident l name) newline space [t] := by
  have hany (words : List String) (hw : words ⊆ "\x7b" :: innerWords) : t.isAny words = false := by
    rw [h.isAny nofun nofun]
    simpa using fun hm => hn (hw hm)
  have hlead : Leads (.ident l name) t.newlineBefore t.spaceBefore [t] :=
    .of_kind (.inr (.inr h.kind)) (hany _ (List.subset_cons_self _ _)) (hany _ (by simp))
  rw [h.newline, h.space] at hlead
  refine ⟨hc, hlead, .of_primary (e := .ident t.loc name) (by simp) hc ?_⟩
  intro k _ u more _
  rw [List.singleton_append, Rules.primary, bind_ok current_cons]
  simp only [h.kind]
  rw [bind_ok advance_cons, h.text]
  rfl

/-- The value of a numeral, as the rules read it. -/
def numeralValue (text : String) : Double :=
  (Double.ofText? text).getD .zero

theorem reads_num {value : Double} (h : t.Is .number word newline space)
    (hw : word ∉ innerWords ++ statementWords) (hv : (numeralValue word).numEq value = true)
    (hneg : value.isNegative = false) (hc : 0 < cost) :
    ReadsExpression cost (.num l value) newline space [t] := by
  rw [List.mem_append, not_or] at hw
  have hlead : Leads (.num l value) t.newlineBefore t.spaceBefore [t] := by
    refine .of_text (by simp [h.kind]) ?_ (by simp [Node.numeralLed, hneg]) (h.text ▸ hw.2)
    rw [h.isAny nofun nofun]
    simpa using hw.1
  rw [h.newline, h.space] at hlead
  refine ⟨hc, hlead, .of_primary (e := .num t.loc (numeralValue word)) (by simpa) hc ?_⟩
  intro k _ u more _
  rw [List.singleton_append, Rules.primary, bind_ok current_cons]
  simp only [h.kind]
  rw [bind_ok advance_cons, h.text]
  rfl

theorem reads_bool {value : Bool} (h : t.Is .op (if value then "true" else "false") newline space)
    (hc : 0 < cost) : ReadsExpression cost (.bool l value) newline space [t] := by
  refine ⟨hc, .of_op h ?_ ?_, .of_primary (e := .bool t.loc value) (by simp) hc ?_⟩
  · cases value <;> decide
  · cases value <;> decide
  · intro k _ u more _
    rw [List.singleton_append, primary_op h.kind, Rules.marked]
    cases value <;> simp only [h.text] <;> rfl

theorem reads_null (h : t.Is .op "null" newline space) (hc : 0 < cost) :
    ReadsExpression cost (.null l) newline space [t] := by
  refine ⟨hc, .of_op h (by decide) (by decide), .of_primary (e := .null t.loc) (by simp) hc ?_⟩
  intro k _ u more _
  rw [List.singleton_append, primary_op h.kind, Rules.marked]
  simp only [h.text]
  rfl

/-! ## Accesses and calls -/

theorem Spine.prop {name : String} (h : Spine cost n ts) (hn : n.isCond = false)
    (hu : u.Is .op "." newline space) (ht : t.IsMember name) (l : Loc) :
    Spine (cost + 1) (.prop l n name) (ts ++ [u, t]) := by
  obtain ⟨e, he, hs⟩ := h
  refine ⟨.prop e.loc e name, by simp [he], fun k m hk hm => ?_⟩
  obtain ⟨m', hm', hs⟩ := hs k m (by omega) (by omega)
  obtain ⟨m', rfl⟩ : ∃ j, m' = j + 1 := ⟨m' - 1, by omega⟩
  refine ⟨m', by omega, fun v more _ => ?_⟩
  have hmember : (t.kind != .ident && !isWord t.text) = false := by
    rcases ht.2 with hk | hw
    · simp [hk]
    · simp [ht.1, hw]
  rw [List.append_assoc, List.cons_append, List.singleton_append, hs u _ (by simp [hn]),
    Rules.suffixes, bind_ok current_cons, if_pos (by simp [hu.op_isAny]), bind_ok advance_cons,
    bind_ok advance_cons, if_neg (by simp [hmember]), ← ht.1]

theorem Spine.index {key : Node} (h : Spine cost n ts) (hn : n.isCond = false)
    (hu : u.Is .op "[" newline false) {newline' space' : Bool}
    (hkey : ReadsExpression cost key newline' space' us) {newline'' space'' : Bool}
    (hc : c.Is .op "]" newline'' space'') (l : Loc) :
    Spine (cost + 1) (.index l n key) (ts ++ u :: us ++ [c]) := by
  obtain ⟨e, he, hs⟩ := h
  obtain ⟨i, hi, hx⟩ := hkey.expression
  refine ⟨.index e.loc e i, by simp [he, hi], fun k m hk hm => ?_⟩
  obtain ⟨m', hm', hs⟩ := hs k m (by omega) (by omega)
  obtain ⟨m', rfl⟩ : ∃ j, m' = j + 1 := ⟨m' - 1, by omega⟩
  refine ⟨m', by omega, fun v more _ => ?_⟩
  have hindex := hx k (by omega) c (v :: more) (hc.ends (by decide) key).follows
  rw [List.append_assoc, List.append_assoc, List.cons_append, List.singleton_append,
    hs u _ (by simp [hn]), Rules.suffixes, bind_ok current_cons, if_neg (by simp [hu.op_isAny]),
    if_pos (by simp [hu.op_isAny, hu.space]), bind_ok advance_cons, bind_ok hindex,
    bind_ok (expect_cons (by simp [hc.op_isAny]))]

/-! ## Parentheses and operators -/

theorem reads_parens {e : Node} (he : e.same n = true) (hpos : 0 < cost)
    (hu : u.Is .op "(" newline space) {newline' space' : Bool} (hc : c.Is .op ")" newline' space')
    (h : ∀ k, cost ≤ k → ∀ more, (rules k).expression (ts ++ c :: more) = .ok (e, c :: more)) :
    ReadsExpression cost n newline space (u :: ts ++ [c]) := by
  refine ⟨hpos, .of_op hu (by decide) (by decide), .of_primary he hpos fun k hk t more _ => ?_⟩
  rw [List.append_assoc, List.cons_append, List.singleton_append, primary_op hu.kind, Rules.marked]
  simp only [hu.text]
  rw [bind_ok advance_cons, bind_ok (h k hk _), bind_ok (expect_cons (by simp [hc.op_isAny]))]
  rfl

theorem reads_unary {op : String} (hop : op ∈ ["!", "+", "-"]) (hu : u.Is .op "(" newline space)
    {newline' space' : Bool} (ht : t.Is .op op newline' space')
    (h : ReadsExpression cost n false false ts) (hnum : op ≠ "!" → n.numeralLed = false)
    {newline'' space'' : Bool} (hc : c.Is .op ")" newline'' space'') (l : Loc) :
    ReadsExpression (cost + 2) (.unary l op n) newline space (u :: t :: ts ++ [c]) := by
  obtain ⟨e, he, hx⟩ := h.operand
  refine reads_parens (e := .unary t.loc op e) (by simp [he]) (by omega) hu hc ?_
  intro k hk more
  obtain ⟨k, rfl⟩ : ∃ j, k = j + 2 := ⟨k - 2, by omega⟩
  have hends := hc.ends (by decide)
  refine Rules.disjunction_operand (by rw [rules_bound]; omega) ?_ (hends n).stops
  have hsign : t.isAny ["!", "+", "-"] = true := by
    rw [ht.op_isAny]
    simpa using hop
  have hoperand : (rules (k + 1)).unary (ts ++ c :: more) = .ok (e, c :: more) :=
    hx k (by omega) c more (Token.leaves_of_stops (hends n).stops) fun _ => hends n
  have hnumber := h.leads.not_number
  obtain ⟨t₀, rest, rfl, -⟩ := h.leads.heads
  have hkind : (t.text != "!" && decide (t₀.kind = .number)) = false := by
    rw [ht.text]
    by_cases hne : op = "!"
    · simp [hne]
    · simp [hnumber (hnum hne) t₀ rfl]
  rw [List.cons_append] at hoperand ⊢
  rw [List.cons_append, Rules.unaryExpression, bind_ok current_cons, if_pos hsign,
    bind_ok advance_cons, bind_ok current_cons, if_neg (by simp [hkind]), bind_ok hoperand, ht.text]
  rfl

theorem reads_negative {value : Double} (hu : u.Is .op "(" newline space)
    (ht : t.Is .op "-" false false) {v : Token} (hv : v.Is .number word false false)
    (hc : c.Is .op ")" false false) (hx : (numeralValue word).neg.numEq value = true)
    (hpos : 2 ≤ cost) (l : Loc) :
    ReadsExpression cost (.num l value) newline space [u, t, v, c] := by
  change ReadsExpression cost (.num l value) newline space (u :: [t, v] ++ [c])
  refine reads_parens (e := .num t.loc (numeralValue word).neg) (by simpa) (by omega)
    hu hc ?_
  intro k hk more
  obtain ⟨k, rfl⟩ : ∃ j, k = j + 2 := ⟨k - 2, by omega⟩
  refine Rules.disjunction_operand (by rw [rules_bound]; omega) ?_
    (hc.ends (by decide) (.num l value)).stops
  have hsign : t.isAny ["!", "+", "-"] = true := by simp [ht.op_isAny]
  have hkind : (t.text != "!" && decide (v.kind = .number)) = true := by simp [ht.text, hv.kind]
  rw [List.cons_append, List.singleton_append, Rules.unaryExpression, bind_ok current_cons,
    if_pos hsign, bind_ok advance_cons, bind_ok current_cons, if_pos hkind, bind_ok advance_cons,
    ht.text, hv.text]
  rfl

theorem reads_binary {op : String} {n' : Node} (hop : op ∈ binaryOperators)
    (hu : u.Is .op "(" newline space) {newline' space' : Bool}
    (hl : ReadsExpression cost n newline' space' ts) (hn : n.isCond = false)
    (ht : t.Is .op op false true) {newline'' space'' : Bool}
    (hr : ReadsExpression cost n' newline'' space'' us)
    (hc : c.Is .op ")" false false) (l : Loc) :
    ReadsExpression (cost + 2) (.binary l op n n') newline space (u :: (ts ++ t :: us) ++ [c]) := by
  obtain ⟨e, he, hx⟩ := hl.operand
  obtain ⟨e', he', hx'⟩ := hr.operand
  refine reads_parens (e := .binary e.loc op e e') (by simp [he, he']) (by omega) hu hc ?_
  intro k hk more
  obtain ⟨k, rfl⟩ : ∃ j, k = j + 3 := ⟨k - 3, by have := hl.pos; omega⟩
  have hends := hc.ends (by decide) n'
  have hleaves : t.leaves = true := by
    have hdot : op ≠ "." := by
      rintro rfl
      exact absurd hop (by decide)
    simp [Token.leaves, ht.space, ht.op_isAny, hdot]
  rw [List.append_assoc, List.cons_append]
  refine Rules.disjunction_binary (k := k) hop ht
    (hx (k + 2) (by omega) t _ hleaves (by simp [hn])) ?_ hends.stops
  rintro k' (rfl | rfl)
  · exact hx' (k + 1) (by omega) c more (Token.leaves_of_stops hends.stops) fun _ => hends
  · exact hx' (k + 2) (by omega) c more (Token.leaves_of_stops hends.stops) fun _ => hends

/-! ## Items -/

section Items

variable {α β : Type} {item : Nat → Parser β} {R : β → α → Prop} {F : α → Token → Prop}

/-- The tokens that the rule `item` reads as something related to `x`, in front of tokens that `F`
allows. -/
def Reads (item : Nat → Parser β) (R : β → α → Prop) (F : α → Token → Prop) (cost : Nat) (x : α) :
    Tokens := fun newline space ts =>
  Heads newline space ts ∧ ∃ y, R y x ∧ ∀ k, cost < k → ∀ t more, F x t →
    item k (ts ++ t :: more) = .ok (y, t :: more)

theorem Reads.mono {x : α} (h : Reads item R F cost x newline space ts) (hc : cost ≤ cost') :
    Reads item R F cost' x newline space ts := by
  obtain ⟨hh, y, hy, hr⟩ := h
  exact ⟨hh, y, hy, fun k hk => hr k (by omega)⟩

/-- The tokens of items with a separator before each, and a blank between it and the item. -/
inductive Spread (S : List Token → Prop) (P : α → Tokens) : List α → List Token → Prop
  | nil : Spread S P [] []
  | cons {x : α} {xs : List α} {newline : Bool} {us ts vs : List Token} (hs : S us)
      (hx : P x newline true ts) (hxs : Spread S P xs vs) : Spread S P (x :: xs) (us ++ (ts ++ vs))

/-- The tokens of items with a separator between them. -/
inductive Listed (S : List Token → Prop) (P : α → Tokens) : List α → List Token → Prop
  | nil : Listed S P [] []
  | cons {x : α} {xs : List α} {newline space : Bool} {ts vs : List Token}
      (hx : P x newline space ts) (hxs : Spread S P xs vs) : Listed S P (x :: xs) (ts ++ vs)

/-- Separators that a rule passes over and that may stand behind an item. -/
structure Separates (S : List Token → Prop) (F : α → Token → Prop) (between : Parser Unit) : Prop where
  skip : ∀ us t more, S us → t.isAny innerWords = false →
    between (us ++ t :: more) = .ok ((), t :: more)
  follow : ∀ x us t more, S us → t.isAny innerWords = false → t.spaceBefore = true →
    ∃ t' more', us ++ t :: more = t' :: more' ∧ F x t'

/-- A token that closes a list. -/
structure Closes (close : String) (F : α → Token → Prop) (between : Parser Unit) (t : Token) :
    Prop where
  closes : t.isAny [close] = true
  skip : ∀ more, between (t :: more) = .ok ((), t :: more)
  follow : ∀ x, F x t

variable {S : List Token → Prop} {close : String} {check between : Parser Unit}

theorem Reads.itemsUntil {x : α} {xs : List α} (hsep : Separates S F between)
    (hcheck : ∀ t more, t.kind ≠ .eof → check (t :: more) = .ok ((), t :: more))
    (hclose : close ∈ innerWords) (hx : Reads item R F cost x newline space ts)
    (hxs : Spread S (Reads item R F cost) xs vs) :
    ∃ ys, List.Forall₂ R ys (x :: xs) ∧ ∀ k m, cost < k → xs.length < m → ∀ c more,
      Closes close F between c →
        itemsUntil close check (item k) between (m + 1) (ts ++ (vs ++ c :: more)) =
          .ok (ys, c :: more) := by
  induction hxs generalizing x newline space ts with
  | nil =>
    obtain ⟨⟨t₀, rest, rfl, -, -, hk₀, hany⟩, y, hy, hread⟩ := hx
    refine ⟨[y], .cons hy .nil, fun k m hk hm c more hc => ?_⟩
    obtain ⟨m, rfl⟩ : ∃ j, m = j + 1 := ⟨m - 1, by omega⟩
    exact itemsUntil_item (Token.not_isAny_of_mem hany hclose) (hcheck _ _ hk₀)
      (hread k hk c more (hc.follow x)) (hc.skip more) (itemsUntil_close hc.closes)
  | @cons x' xs newline' us ts' vs hs hx' hxs ih =>
    obtain ⟨ys, hys, hrest⟩ := ih hx'
    obtain ⟨⟨t₁, rest₁, rfl, -, hspace, hk₁, hany₁⟩, -⟩ := hx'
    obtain ⟨⟨t₀, rest, rfl, -, -, hk₀, hany⟩, y, hy, hread⟩ := hx
    refine ⟨y :: ys, .cons hy hys, fun k m hk hm c more hc => ?_⟩
    obtain ⟨m, rfl⟩ : ∃ j, m = j + 1 := ⟨m - 1, by omega⟩
    have hrest := hrest k m hk (by simpa using hm) c more hc
    have hskip := hsep.skip us t₁ (rest₁ ++ (vs ++ c :: more)) hs hany₁
    have hitem : item k (t₀ :: rest ++ (us ++ t₁ :: (rest₁ ++ (vs ++ c :: more)))) =
        .ok (y, us ++ t₁ :: (rest₁ ++ (vs ++ c :: more))) := by
      obtain ⟨t', more', heq, hfollow⟩ :=
        hsep.follow x us t₁ (rest₁ ++ (vs ++ c :: more)) hs hany₁ hspace
      rw [heq]
      exact hread k hk t' more' hfollow
    rw [show us ++ (t₁ :: rest₁ ++ vs) ++ c :: more = us ++ t₁ :: (rest₁ ++ (vs ++ c :: more)) by simp]
    exact itemsUntil_item (Token.not_isAny_of_mem hany hclose) (hcheck _ _ hk₀) hitem hskip hrest

/-- Items up to a closing token, with separators passed over before the first one. -/
theorem Listed.itemsUntil {xs : List α} (close : String) (check : Parser Unit)
    (hsep : Separates S F between)
    (hpass : ∀ t more, t.isAny innerWords = false → between (t :: more) = .ok ((), t :: more))
    (hcheck : ∀ t more, t.kind ≠ .eof → check (t :: more) = .ok ((), t :: more))
    (hclose : close ∈ innerWords) (h : Listed S (Reads item R F cost) xs ts) :
    ∃ ys, List.Forall₂ R ys xs ∧ ∀ k m, cost < k → xs.length < m → ∀ c more,
      Closes close F between c → between (ts ++ c :: more) = .ok ((), ts ++ c :: more) ∧
        itemsUntil close check (item k) between m (ts ++ c :: more) = .ok (ys, c :: more) := by
  cases h with
  | nil =>
    refine ⟨[], .nil, fun k m hk hm c more hc => ⟨hc.skip more, ?_⟩⟩
    obtain ⟨m, rfl⟩ : ∃ j, m = j + 1 := ⟨m - 1, by omega⟩
    exact itemsUntil_close hc.closes
  | cons hx hxs =>
    obtain ⟨ys, hys, hread⟩ := hx.itemsUntil hsep hcheck hclose hxs
    refine ⟨ys, hys, fun k m hk hm c more hc => ?_⟩
    obtain ⟨m, rfl⟩ : ∃ j, m = j + 1 := ⟨m - 1, by omega⟩
    rw [List.append_assoc]
    refine ⟨?_, hread k m hk (by simpa using hm) c more hc⟩
    obtain ⟨⟨t₀, rest, rfl, -, -, -, hany⟩, -⟩ := hx
    exact hpass t₀ _ hany

theorem Spread.imp {P Q : α → Tokens} {xs : List α} (h : Spread S P xs ts)
    (hpq : ∀ x ∈ xs, ∀ newline space ts, P x newline space ts → Q x newline space ts) :
    Spread S Q xs ts := by
  induction h with
  | nil => exact .nil
  | cons hs hx _ ih =>
    exact .cons hs (hpq _ (by simp) _ _ _ hx) (ih fun x h => hpq x (by simp [h]))

theorem Listed.imp {P Q : α → Tokens} {xs : List α} (h : Listed S P xs ts)
    (hpq : ∀ x ∈ xs, ∀ newline space ts, P x newline space ts → Q x newline space ts) :
    Listed S Q xs ts := by
  cases h with
  | nil => exact .nil
  | cons hx hxs =>
    exact .cons (hpq _ (by simp) _ _ _ hx) (hxs.imp fun x h => hpq x (by simp [h]))

/-- A comma as a separator. -/
def Comma (us : List Token) : Prop :=
  ∃ t newline space, us = [t] ∧ t.Is .op "," newline space

theorem comma_separates {words : List String} (hw : "," ∈ words) (hs : words ⊆ [";", ","])
    (hF : ∀ x t newline space, t.Is .op "," newline space → F x t) :
    Separates Comma F (skipAny words) := by
  refine ⟨fun us t more hus ht => ?_, fun x us t more hus _ _ => ?_⟩
  · obtain ⟨u, newline, space, rfl, hu⟩ := hus
    have hcomma : u.isAny words = true := by simpa [hu.op_isAny] using hw
    have hother : t.isAny words = false :=
      Token.not_isAny_subset ht (List.Subset.trans hs (by decide))
    rw [List.singleton_append, skipAny_cons hcomma, skipAny_other hother]
  · obtain ⟨u, newline, space, rfl, hu⟩ := hus
    exact ⟨u, t :: more, rfl, hF x u newline space hu⟩

theorem line_separates : Separates (· = []) Ends skipSeparators := by
  refine ⟨?_, ?_⟩
  · rintro _ t more rfl ht
    exact skipAny_other (Token.not_isAny_subset ht (by decide))
  · rintro n _ t more rfl ht hs
    exact ⟨t, more, rfl, ends_of_begins hs ht n⟩

theorem closes_of_is {words : List String} (h : c.Is .op close newline space) (hw : close ∉ words)
    (hF : ∀ x, F x c) : Closes close F (skipAny words) c :=
  ⟨by simp [h.op_isAny], fun _ => skipAny_other (by simpa [h.op_isAny] using hw), hF⟩

end Items

theorem sameAll_of_forall₂ {es ns : List Node}
    (h : List.Forall₂ (fun e n : Node => e.same n = true) es ns) : sameAll es ns = true := by
  induction h with
  | nil => simp [sameAll]
  | cons he _ ih => simp [sameAll, he, ih]

theorem ReadsExpression.reads (h : ReadsExpression cost n newline space ts) :
    Reads (fun k => (rules k).expression) (fun e n : Node => e.same n = true) Follows cost n
      newline space ts :=
  ⟨h.leads.heads, h.expression⟩

theorem reads_expressions {ns : List Node} (close : String) (hclose : close ∈ [")", "]"])
    (h : Listed Comma (ReadsExpression cost) ns ts) (hlen : ns.length ≤ cost) :
    ∃ es, sameAll es ns = true ∧ ∀ k, cost < k → ∀ c more newline space,
      c.Is .op close newline space →
        (rules k).expressionsUntil close (ts ++ c :: more) = .ok (es, more) := by
  have hclosers : ∀ w ∈ [")", "]"], w ∈ closers ∧ w ∈ innerWords ∧ w ∉ [","] := by decide
  obtain ⟨hcl, hin, hne⟩ := hclosers close hclose
  have hsep : Separates Comma Follows (skipAny [","]) :=
    comma_separates (by simp) (by simp) fun n t _ _ ht => (ht.ends (by decide) n).follows
  have hreads := h.imp fun x _ _ _ _ hx => hx.reads
  obtain ⟨es, hes, hread⟩ := hreads.itemsUntil close (pure ()) hsep
    (fun t more ht => skipAny_other (Token.not_isAny_subset ht (by decide))) (fun _ _ _ => rfl) hin
  refine ⟨es, sameAll_of_forall₂ hes, fun k hk c more newline space hc => ?_⟩
  obtain ⟨hskip, hitems⟩ := hread k k hk (by omega) c more
    (closes_of_is hc hne fun n => (hc.ends hcl n).follows)
  rw [Rules.expressionsUntil, bind_ok hskip, rules_bound, bind_ok hitems,
    bind_ok (expect_cons (by simp [hc.op_isAny]))]
  rfl

theorem Spine.call {args : List Node} (h : Spine cost n ts) (hn : n.isCond = false)
    (hu : u.Is .op "(" newline false) (hargs : Listed Comma (ReadsExpression cost) args us)
    (hlen : args.length ≤ cost) {newline' space' : Bool} (hc : c.Is .op ")" newline' space') (l : Loc) :
    Spine (cost + 1) (.call l n args) (ts ++ u :: us ++ [c]) := by
  obtain ⟨e, he, hs⟩ := h
  obtain ⟨es, hes, hread⟩ := reads_expressions ")" (by simp) hargs hlen
  refine ⟨.call e.loc e es, by simp [he, hes], fun k m hk hm => ?_⟩
  obtain ⟨m', hm', hs⟩ := hs k m (by omega) (by omega)
  obtain ⟨m', rfl⟩ : ∃ j, m' = j + 1 := ⟨m' - 1, by omega⟩
  refine ⟨m', by omega, fun v more _ => ?_⟩
  rw [List.append_assoc, List.append_assoc, List.cons_append, List.singleton_append,
    hs u _ (by simp [hn]), Rules.suffixes, bind_ok current_cons, if_neg (by simp [hu.op_isAny]),
    if_neg (by simp [hu.op_isAny]), if_pos (by simp [hu.op_isAny, hu.space]), bind_ok advance_cons,
    bind_ok (hread k (by omega) c _ _ _ hc)]

theorem reads_array {items : List Node} (hu : u.Is .op "[" newline space)
    (hitems : Listed Comma (ReadsExpression cost) items ts) (hlen : items.length ≤ cost)
    {newline' space' : Bool} (hc : c.Is .op "]" newline' space') (l : Loc) :
    ReadsExpression (cost + 1) (.arr l items) newline space (u :: ts ++ [c]) := by
  obtain ⟨es, hes, hread⟩ := reads_expressions "]" (by simp) hitems hlen
  refine ⟨by omega, .of_op hu (by decide) (by decide),
    .of_primary (e := .arr u.loc es) (by simp [hes]) (by omega) fun k hk t more _ => ?_⟩
  rw [List.append_assoc, List.cons_append, List.singleton_append, primary_op hu.kind, Rules.marked]
  simp only [hu.text]
  rw [Rules.array, bind_ok (expect_cons (by simp [hu.op_isAny])),
    bind_ok (hread k (by omega) c _ _ _ hc)]
  rfl

/-! ## Objects -/

/-- An entry and its like: the same key, and the same value up to places. -/
def SameEntry (y x : String × Node) : Prop :=
  y.1 = x.1 ∧ y.2.same x.2 = true

theorem sameEntries_of_forall₂ {ys xs : List (String × Node)} (h : List.Forall₂ SameEntry ys xs)
    (hn : (xs.map Prod.fst).Nodup) : sameEntries xs ys = true := by
  have hlookup : ∀ (others : List (String × Node)), (∀ x ∈ xs, others.lookup x.1 = some x.2) →
      sameEntries others ys = true := by
    intro others ho
    clear hn
    induction h with
    | nil => rw [sameEntries]
    | @cons y x ys xs hyx _ ih =>
      obtain ⟨k, v⟩ := y
      obtain ⟨rfl, hv⟩ := hyx
      rw [sameEntries, ho x (by simp)]
      simp only [hv, Bool.true_and]
      exact ih fun x hx => ho x (by simp [hx])
  refine hlookup xs fun x hx => ?_
  clear h hlookup
  induction xs with
  | nil => cases hx
  | cons e xs ih =>
    obtain ⟨k, v⟩ := e
    rw [List.map_cons, List.nodup_cons] at hn
    rcases List.mem_cons.mp hx with rfl | hmem
    · simp
    · have hne : (x.1 == k) = false := by
        rw [beq_eq_false_iff_ne]
        rintro rfl
        exact hn.1 (List.mem_map.mpr ⟨x, hmem, rfl⟩)
      rw [List.lookup_cons, hne]
      exact ih hn.2 hmem

/-- The tokens of an entry of an object. -/
abbrev ReadsEntry (cost : Nat) (x : String × Node) : Tokens :=
  Reads (fun k => (rules k).entry) SameEntry (fun x t => Follows x.2 t) cost x

theorem reads_entry {key : String} {kind : TokenKind} (ht : t.Is kind key newline space)
    (hk : kind ≠ .eof) (hany : t.isAny innerWords = false) {newline' space' : Bool}
    (hu : u.Is .op ":" newline' space') {newline'' space'' : Bool}
    (h : ReadsExpression cost n newline'' space'' ts) :
    ReadsEntry cost (key, n) newline space (t :: u :: ts) := by
  obtain ⟨e, he, hx⟩ := h.expression
  refine ⟨⟨t, u :: ts, rfl, ht.newline, ht.space, by rwa [ht.kind], hany⟩, (key, e), ⟨rfl, he⟩, ?_⟩
  intro k hk' v more hv
  simp only [List.cons_append]
  rw [Rules.entry, bind_ok advance_cons, if_neg (by rwa [ht.kind])]
  beta_reduce
  rw [bind_ok (expect_cons (by simp [hu.op_isAny])), bind_ok (hx k hk' v more hv), ht.text]
  rfl

theorem reads_object {entries : List (String × Node)} (hn : (entries.map Prod.fst).Nodup)
    (hu : u.Is .op "\x7b" newline space) (h : Listed Comma (ReadsEntry cost) entries ts)
    (hlen : entries.length ≤ cost) {newline' space' : Bool} (hc : c.Is .op "\x7d" newline' space')
    (l : Loc) : ReadsExpression (cost + 1) (.obj l entries) newline space (u :: ts ++ [c]) := by
  have hsep : Separates Comma (fun (x : String × Node) t => Follows x.2 t) skipSeparators :=
    comma_separates (by simp) (by simp) fun x t _ _ ht => (ht.ends (by decide) x.2).follows
  obtain ⟨ys, hys, hread⟩ := h.itemsUntil "\x7d" (pure ()) hsep
    (fun t more ht => skipAny_other (Token.not_isAny_subset ht (by decide))) (fun _ _ _ => rfl)
    (by decide)
  have hkeys : ys.map Prod.fst = entries.map Prod.fst := by
    clear hread hn h hlen
    induction hys with
    | nil => rfl
    | cons hyx _ ih => rw [List.map_cons, List.map_cons, hyx.1, ih]
  have hsame : (Node.obj u.loc ys).same (.obj l entries) = true := by
    rw [Node.same]
    simp only [hys.length_eq, beq_self_eq_true, sameEntries_of_forall₂ hys hn, Bool.and_self]
  have hlead : Leads (.obj l entries) newline space (u :: ts ++ [c]) := by
    have hled : (Node.obj l entries).objectLed ≠ false := by simp [Node.objectLed]
    refine ⟨⟨u, ts ++ [c], rfl, hu.newline, hu.space, by simp [hu.kind], ?_⟩, ?_,
      fun h => absurd h hled, fun h => absurd h hled⟩
    · rw [hu.op_isAny]
      decide
    · rintro _ _ ⟨⟩
      simp [hu.kind]
  refine ⟨by omega, hlead, .of_primary hsame (by omega) fun k hk t more _ => ?_⟩
  obtain ⟨hskip, hitems⟩ := hread k k (by omega) (by omega) c (t :: more)
    (closes_of_is hc (by decide) fun x => (hc.ends (by decide) x.2).follows)
  rw [List.append_assoc, List.cons_append, List.singleton_append, primary_op hu.kind, Rules.marked]
  simp only [hu.text]
  rw [Rules.object, bind_ok (expect_cons (by simp [hu.op_isAny])), bind_ok hskip, rules_bound,
    bind_ok hitems, bind_ok (expect_cons (by simp [hc.op_isAny])),
    Assoc.ofPairs_of_nodup (hkeys ▸ hn)]
  rfl

end ScriptBridge.AiScript
