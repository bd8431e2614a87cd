import ScriptBridge.Proofs.AiScript.Reading

/-!
# Tokens of statements and of what holds statements

Blocks, functions, conditionals, matches, loops and the statements proper. A conditional needs to know
what follows it: an open one would take the next branch for its own.

* `ReadsStatement`, `ReadsBody`: the tokens of a node in a list of statements and as a body.
* `reads_block`, `reads_parameters`, `Branching.reads`, `reads_arms`: the parts.
* `reads_fn`, `reads_cond`, `reads_select` and the statements built from them.
-/

namespace ScriptBridge.AiScript

open ScriptBridge.AiScript.Parser

variable {t u v c : Token} {ts us vs more : List Token} {word : String} {newline space : Bool}
  {cost cost' : Nat} {n n' : Node} {l : Loc}

/-! ## Statements and bodies -/

/-- The tokens of a node in a list of statements; they are not taken for a block. -/
structure ReadsStatement (cost : Nat) (n : Node) (newline space : Bool) (ts : List Token) : Prop where
  reads : Reads (fun k => (rules k).statement) (fun e n : Node => e.same n = true) Ends cost n
    newline space ts
  not_brace : ∀ t ∈ ts.head?, t.isAny ["\x7b"] = false

/-- The tokens of a node as a body. -/
abbrev ReadsBody (cost : Nat) (n : Node) : Tokens :=
  Reads (fun k => (rules k).body) (fun e n : Node => e.same n = true) Ends cost n

theorem ReadsStatement.mono (h : ReadsStatement cost n newline space ts) (hc : cost ≤ cost') :
    ReadsStatement cost' n newline space ts :=
  ⟨h.reads.mono hc, h.not_brace⟩

theorem Ends.of_isOpen (h : Ends n t) (hn : n'.isOpen = n.isOpen) : Ends n' t :=
  ⟨h.stops, h.not_assign, fun ho => h.not_branch (hn ▸ ho)⟩

theorem ReadsStatement.body (h : ReadsStatement cost n newline space ts) :
    ReadsBody cost n newline space ts := by
  obtain ⟨⟨hh, e, he, hread⟩, hbrace⟩ := h
  refine ⟨hh, e, he, fun k hk t more ht => ?_⟩
  have hread := hread k hk t more ht
  obtain ⟨t₀, rest, rfl, -⟩ := hh
  simp only [List.cons_append] at hread ⊢
  rw [Rules.body, bind_ok sees_cons, if_neg (by simp [hbrace t₀ rfl]), hread]

/-- A statement is read by the rules of the next level. -/
theorem ReadsStatement.of_any {e : Node} (he : e.same n = true) (hh : Heads newline space ts)
    (hbrace : ∀ t ∈ ts.head?, t.isAny ["\x7b"] = false)
    (h : ∀ k, cost < k → ∀ t more, Ends n t →
      (rules k).anyStatement (ts ++ t :: more) = .ok (e, t :: more)) :
    ReadsStatement (cost + 1) n newline space ts := by
  refine ⟨⟨hh, e, he, fun k hk t more ht => ?_⟩, hbrace⟩
  obtain ⟨k, rfl⟩ : ∃ j, k = j + 1 := ⟨k - 1, by omega⟩
  exact h k (by omega) t more ht

/-- A statement that begins with a word of its own. -/
theorem ReadsStatement.of_word {e : Node} (he : e.same n = true) (hu : u.Is .op word newline space)
    (hw : word ∉ "\x7b" :: innerWords)
    (h : ∀ k, cost < k → ∀ t more, Ends n t →
      (rules k).anyStatement (u :: (ts ++ t :: more)) = .ok (e, t :: more)) :
    ReadsStatement (cost + 1) n newline space (u :: ts) := by
  have hany (words : List String) (hs : words ⊆ "\x7b" :: innerWords) : u.isAny words = false := by
    rw [hu.op_isAny]
    simpa using fun hm => hw (hs hm)
  refine .of_any he ⟨u, ts, rfl, hu.newline, hu.space, by simp [hu.kind],
    hany _ (List.subset_cons_self _ _)⟩ ?_ h
  rintro _ ⟨⟩
  exact hany _ (by simp)

/-- An expression as a statement, if its first token does not begin another one. -/
theorem ReadsExpression.statement_of (h : ReadsExpression cost n newline space ts)
    (hbrace : ∀ t ∈ ts.head?, t.isAny ["\x7b"] = false)
    (hst : ∀ (r : Rules) (more : List Token),
      r.anyStatement (ts ++ more) = r.expressionStatement (ts ++ more)) :
    ReadsStatement (cost + 1) n newline space ts := by
  obtain ⟨e, he, hx⟩ := h.expression
  refine .of_any he h.leads.heads hbrace fun k hk t more ht => ?_
  have hread := hx k hk t more ht.follows
  rw [hst]
  obtain ⟨t₀, rest, rfl, -⟩ := h.leads.heads
  rw [List.cons_append] at hread ⊢
  have hassign : t.isAny ["="] = false := Token.not_isAny_subset ht.not_assign (by decide)
  have hupdate : t.isAny ["+=", "-="] = false := Token.not_isAny_subset ht.not_assign (by decide)
  rw [Rules.expressionStatement, bind_ok current_cons, bind_ok hread, bind_ok current_cons,
    if_neg (by simp [hassign]), if_neg (by simp [hupdate])]
  rfl

theorem ReadsExpression.statement (h : ReadsExpression cost n newline space ts)
    (ho : n.objectLed = false) : ReadsStatement (cost + 1) n newline space ts :=
  h.statement_of (h.leads.not_brace ho) (h.leads.statement ho)

/-- Behind a parenthesis, an object is not taken for a block. -/
theorem ReadsExpression.statement_of_parens (h : ReadsExpression cost n newline space (u :: ts))
    (hu : u.Is .op "(" newline space) : ReadsStatement (cost + 1) n newline space (u :: ts) := by
  refine h.statement_of ?_ fun r more => anyStatement_other ?_
  · rintro _ ⟨⟩
    simp [hu.op_isAny]
  · rw [hu.text]
    decide

/-! ## Blocks -/

/-- The tokens of statements in braces. -/
def ReadsBlock (cost : Nat) (ns : List Node) : Tokens := fun newline space ts =>
  (∃ u rest, ts = u :: rest ∧ u.Is .op "\x7b" newline space) ∧
    ∃ es, sameAll es ns = true ∧ ∀ k, cost < k → ∀ more, (rules k).block (ts ++ more) = .ok (es, more)

theorem reads_block {ns : List Node} (hu : u.Is .op "\x7b" newline space)
    (h : Listed (· = []) (ReadsStatement cost) ns ts) (hlen : ns.length ≤ cost)
    {newline' space' : Bool} (hc : c.Is .op "\x7d" newline' space') :
    ReadsBlock cost ns newline space (u :: ts ++ [c]) := by
  let check : Parser Unit := do
    if (← current).kind = .eof then fail .unterminatedBlock
  have hcheck : ∀ t more, t.kind ≠ .eof → check (t :: more) = .ok ((), t :: more) := by
    intro t more ht
    simp only [check]
    rw [bind_ok current_cons, if_neg ht]
    rfl
  have hreads := h.imp fun x _ _ _ _ hx => hx.reads
  obtain ⟨es, hes, hread⟩ := hreads.itemsUntil "\x7d" check line_separates
    (fun t more ht => skipAny_other (Token.not_isAny_subset ht (by decide))) hcheck (by decide)
  refine ⟨⟨u, ts ++ [c], rfl, hu⟩, es, sameAll_of_forall₂ hes, fun k hk more => ?_⟩
  obtain ⟨hskip, hitems⟩ := hread k k hk (by omega) c more
    (closes_of_is hc (by decide) (hc.ends (by decide)))
  rw [List.append_assoc, List.cons_append, List.singleton_append, Rules.block,
    bind_ok (expect_cons (by simp [hu.op_isAny])), bind_ok hskip, rules_bound, bind_ok hitems,
    bind_ok (expect_cons (by simp [hc.op_isAny]))]
  rfl

theorem ReadsBlock.mono {ns : List Node} (h : ReadsBlock cost ns newline space ts)
    (hc : cost ≤ cost') : ReadsBlock cost' ns newline space ts := by
  obtain ⟨hu, es, hes, hread⟩ := h
  exact ⟨hu, es, hes, fun k hk => hread k (by omega)⟩

theorem ReadsBlock.body {ns : List Node} (h : ReadsBlock cost ns newline space ts) (l : Loc) :
    ReadsBody cost (.block l ns) newline space ts := by
  obtain ⟨⟨u, rest, rfl, hu⟩, es, hes, hread⟩ := h
  have hany : u.isAny innerWords = false := by
    rw [hu.op_isAny]
    decide
  refine ⟨⟨u, rest, rfl, hu.newline, hu.space, by simp [hu.kind], hany⟩, .block u.loc es,
    by simp [Node.same, hes], fun k hk t more _ => ?_⟩
  have hread := hread k hk (t :: more)
  simp only [List.cons_append] at hread ⊢
  rw [Rules.body, bind_ok sees_cons, if_pos (by simp [hu.op_isAny]), bind_ok current_cons,
    bind_ok hread]
  rfl

theorem reads_eval {ns : List Node} (hu : u.Is .op "eval" newline space) {newline' space' : Bool}
    (h : ReadsBlock cost ns newline' space' ts) (l : Loc) :
    ReadsExpression (cost + 1) (.block l ns) newline space (u :: ts) := by
  obtain ⟨-, es, hes, hread⟩ := h
  refine ⟨by omega, .of_op hu (by decide) (by decide), .of_primary (e := .block u.loc es)
    (by simp [Node.same, hes]) (by omega) fun k hk t more _ => ?_⟩
  rw [List.cons_append, primary_op hu.kind, Rules.marked]
  simp only [hu.text]
  rw [bind_ok advance_cons, bind_ok (hread k (by omega) _)]
  rfl

theorem reads_loop {ns : List Node} (hu : u.Is .op "loop" newline space) {newline' space' : Bool}
    (h : ReadsBlock cost ns newline' space' ts) (l : Loc) :
    ReadsStatement (cost + 1) (.loop l ns) newline space (u :: ts) := by
  obtain ⟨-, es, hes, hread⟩ := h
  refine .of_word (e := .loop u.loc es) (by simp [Node.same, hes]) hu (by decide) ?_
  intro k hk t more _
  rw [Rules.anyStatement, bind_ok current_cons, if_neg (by simp [hu.kind])]
  simp only [hu.text]
  rw [bind_ok advance_cons, bind_ok (hread k (by omega) _)]
  rfl

/-! ## Parameters and functions -/

/-- The tokens of a parameter, which takes the comma behind it. -/
def ReadsParam (cost : Nat) (p : Param) : Tokens := fun newline space ts =>
  Heads newline space ts ∧ ∃ q : Param, q.same p = true ∧ ∀ k, cost < k → ∀ c more newline space,
    (c.Is .op ")" newline space → (rules k).parameter (ts ++ c :: more) = .ok (q, c :: more)) ∧
    (c.Is .op "," newline space → (rules k).parameter (ts ++ c :: more) = .ok (q, more))

theorem ReadsParam.mono {p : Param} (h : ReadsParam cost p newline space ts) (hc : cost ≤ cost') :
    ReadsParam cost' p newline space ts := by
  obtain ⟨hh, q, hq, hread⟩ := h
  exact ⟨hh, q, hq, fun k hk => hread k (by omega)⟩

/-- The tokens of a default. -/
def ReadsFallback (cost : Nat) : Option Node → List Token → Prop
  | none => fun ts => ts = []
  | some n => fun ts => ∃ u us newline space newline' space', ts = u :: us ∧
      u.Is .op "=" newline space ∧ ReadsExpression cost n newline' space' us

/-- The mark of an optional parameter. -/
def ReadsMark (isOptional : Bool) (ts : List Token) : Prop :=
  if isOptional then ∃ u newline space, ts = [u] ∧ u.Is .op "?" newline space else ts = []

theorem ReadsFallback.reads {fallback : Option Node} (h : ReadsFallback cost fallback ts) :
    ∃ f, sameOption f fallback = true ∧ ∀ k, cost < k → ∀ c more newline space word,
      c.Is .op word newline space → word ∈ [")", ","] →
        (do if ← accept "=" then some <$> (rules k).expression else pure none : Parser (Option Node))
          (ts ++ c :: more) = .ok (f, c :: more) := by
  have hwords : ∀ w ∈ [")", ","], w ∈ closers ∧ w ≠ "=" := by decide
  cases fallback with
  | none =>
    obtain rfl := h
    refine ⟨none, by simp [sameOption], fun k hk c more newline space word hc hw => ?_⟩
    have hne : c.isAny ["="] = false := by simpa [hc.op_isAny] using (hwords word hw).2
    rw [List.nil_append, bind_ok (accept_other hne)]
    rfl
  | some n =>
    obtain ⟨u, us, _, _, _, _, rfl, hu, hx⟩ := h
    obtain ⟨e, he, hx⟩ := hx.expression
    refine ⟨some e, by simp [sameOption, he], fun k hk c more newline space word hc hw => ?_⟩
    have hread := hx k hk c more (hc.ends (hwords word hw).1 n).follows
    rw [List.cons_append, bind_ok (accept_cons (by simp [hu.op_isAny])), if_pos rfl, map_ok hread]

theorem reads_param {name : Name} {isOptional : Bool} {fallback : Option Node}
    (ht : t.Is .ident name.text newline space) (hn : name.text ∉ innerWords)
    (hus : ReadsMark isOptional us) (hvs : ReadsFallback cost fallback vs) (l : Loc) :
    ReadsParam cost (.mk l name isOptional fallback) newline space (t :: us ++ vs) := by
  obtain ⟨f, hf, hread⟩ := hvs.reads
  have hany : t.isAny innerWords = false := by
    rw [ht.isAny nofun nofun]
    simpa using hn
  have hmark : ∀ c more newline space word, c.Is .op word newline space → word ∈ [")", ","] →
      accept "?" (us ++ (vs ++ c :: more)) = .ok (isOptional, vs ++ c :: more) := by
    intro c more newline space word hc hw
    unfold ReadsMark at hus
    cases isOptional with
    | true =>
      obtain ⟨u, _, _, rfl, hu⟩ := hus
      exact accept_cons (by simp [hu.op_isAny])
    | false =>
      obtain rfl := hus
      have hwords : ∀ w ∈ [")", ","], w ≠ "?" := by decide
      cases fallback with
      | none =>
        obtain rfl := hvs
        exact accept_other (by simpa [hc.op_isAny] using hwords word hw)
      | some n =>
        obtain ⟨u, _, _, _, _, _, rfl, hu, -⟩ := hvs
        exact accept_other (by simp [hu.op_isAny])
  refine ⟨⟨t, us ++ vs, rfl, ht.newline, ht.space, by simp [ht.kind], hany⟩,
    .mk t.loc t.name isOptional f, by simp [Param.same, Token.name, ht.text, hf], ?_⟩
  intro k hk c more newline' space'
  simp only [List.append_assoc, List.cons_append]
  refine ⟨fun hc => ?_, fun hc => ?_⟩
  · rw [Rules.parameter, bind_ok (identifier_cons ht.kind),
      bind_ok (hmark c more _ _ ")" hc (by simp))]
    refine (accept_branch (hread k hk c more _ _ ")" hc (by simp))).trans ?_
    beta_reduce
    rw [bind_ok sees_cons, if_neg (by simp [hc.op_isAny])]
    rfl
  · rw [Rules.parameter, bind_ok (identifier_cons ht.kind),
      bind_ok (hmark c more _ _ "," hc (by simp))]
    refine (accept_branch (hread k hk c more _ _ "," hc (by simp))).trans ?_
    beta_reduce
    rw [bind_ok sees_cons, if_pos (by simp [hc.op_isAny]),
      bind_ok (expect_cons (by simp [hc.op_isAny]))]
    rfl

/-- One parameter after another, each with the comma before the next. -/
theorem ReadsParam.itemsUntil {p : Param} {ps : List Param} (hp : ReadsParam cost p newline space ts)
    (hps : Spread Comma (ReadsParam cost) ps vs) :
    ∃ qs, sameParams qs (p :: ps) = true ∧ ∀ k m, cost < k → ps.length < m →
      ∀ c more newline space, c.Is .op ")" newline space →
        itemsUntil ")" (pure ()) (rules k).parameter (pure ()) (m + 1) (ts ++ (vs ++ c :: more)) =
          .ok (qs, c :: more) := by
  induction hps generalizing p newline space ts with
  | nil =>
    obtain ⟨⟨t₀, rest, rfl, -, -, -, hany⟩, q, hq, hread⟩ := hp
    refine ⟨[q], by simp [sameParams, hq], fun k m hk hm c more newline space hc => ?_⟩
    obtain ⟨m, rfl⟩ : ∃ j, m = j + 1 := ⟨m - 1, by omega⟩
    exact itemsUntil_item (Token.not_isAny_of_mem hany (by decide)) rfl
      ((hread k hk c more _ _).1 hc) rfl (itemsUntil_close (by simp [hc.op_isAny]))
  | @cons p' ps newline' us ts' vs hs hp' hps ih =>
    obtain ⟨qs, hqs, hrest⟩ := ih hp'
    obtain ⟨u, _, _, rfl, hu⟩ := hs
    obtain ⟨⟨t₀, rest, rfl, -, -, -, hany⟩, q, hq, hread⟩ := hp
    refine ⟨q :: qs, by simp [sameParams, hq, hqs], fun k m hk hm c more newline space hc => ?_⟩
    obtain ⟨m, rfl⟩ : ∃ j, m = j + 1 := ⟨m - 1, by omega⟩
    have hrest := hrest k m hk (by simpa using hm) c more _ _ hc
    rw [show [u] ++ (ts' ++ vs) ++ c :: more = u :: (ts' ++ (vs ++ c :: more)) by simp]
    exact itemsUntil_item (Token.not_isAny_of_mem hany (by decide)) rfl
      ((hread k hk u _ _ _).2 hu) rfl hrest

theorem reads_parameters {ps : List Param} (hu : u.Is .op "(" newline space)
    (h : Listed Comma (ReadsParam cost) ps ts) (hlen : ps.length ≤ cost) {newline' space' : Bool}
    (hc : c.Is .op ")" newline' space') :
    ∃ qs, sameParams qs ps = true ∧ ∀ k, cost < k → ∀ more,
      (rules k).parameters (u :: (ts ++ c :: more)) = .ok (qs, more) := by
  have hitems : ∃ qs, sameParams qs ps = true ∧ ∀ k, cost < k → ∀ more,
      itemsUntil ")" (pure ()) (rules k).parameter (pure ()) k (ts ++ c :: more) =
        .ok (qs, c :: more) := by
    cases h with
    | nil =>
      refine ⟨[], by simp [sameParams], fun k hk more => ?_⟩
      obtain ⟨k, rfl⟩ : ∃ j, k = j + 1 := ⟨k - 1, by omega⟩
      exact itemsUntil_close (by simp [hc.op_isAny])
    | cons hp hps =>
      obtain ⟨qs, hqs, hread⟩ := hp.itemsUntil hps
      refine ⟨qs, hqs, fun k hk more => ?_⟩
      obtain ⟨m, rfl⟩ : ∃ j, k = j + 1 := ⟨k - 1, by omega⟩
      rw [List.append_assoc]
      exact hread _ m hk (by rw [List.length_cons] at hlen; omega) c more _ _ hc
  obtain ⟨qs, hqs, hread⟩ := hitems
  refine ⟨qs, hqs, fun k hk more => ?_⟩
  rw [Rules.parameters, bind_ok (expect_cons (by simp [hu.op_isAny])), rules_bound,
    bind_ok (hread k hk more), bind_ok (expect_cons (by simp [hc.op_isAny]))]
  rfl

/-- The tokens of a parameter list and a block. -/
def ReadsSignature (cost : Nat) (ps : List Param) (ns : List Node) (ts : List Token) : Prop :=
  (∃ u rest newline space, ts = u :: rest ∧ u.Is .op "(" newline space) ∧
    ∃ qs es, sameParams qs ps = true ∧ sameAll es ns = true ∧ ∀ k, cost < k → ∀ more, ∃ us,
      (rules k).parameters (ts ++ more) = .ok (qs, us) ∧ (rules k).block us = .ok (es, more)

theorem reads_signature {ps : List Param} {ns : List Node} (hu : u.Is .op "(" newline space)
    (hps : Listed Comma (ReadsParam cost) ps ts) (hlen : ps.length ≤ cost) {newline' space' : Bool}
    (hc : c.Is .op ")" newline' space') {newline'' space'' : Bool}
    (hns : ReadsBlock cost ns newline'' space'' us) :
    ReadsSignature cost ps ns (u :: ts ++ c :: us) := by
  obtain ⟨qs, hqs, hparams⟩ := reads_parameters hu hps hlen hc
  obtain ⟨-, es, hes, hblock⟩ := hns
  refine ⟨⟨u, ts ++ c :: us, _, _, rfl, hu⟩, qs, es, hqs, hes, fun k hk more => ?_⟩
  refine ⟨us ++ more, ?_, hblock k hk more⟩
  rw [← hparams k hk (us ++ more)]
  simp

theorem reads_fn {ps : List Param} {ns : List Node} (hu : u.Is .op "@" newline space)
    (h : ReadsSignature cost ps ns ts) (l : Loc) :
    ReadsExpression (cost + 1) (.fn l ps ns) newline space (u :: ts) := by
  obtain ⟨⟨v, rest, _, _, rfl, hv⟩, qs, es, hqs, hes, hread⟩ := h
  have hlead : Leads (.fn l ps ns) newline space (u :: v :: rest) := by
    refine ⟨⟨u, v :: rest, rfl, hu.newline, hu.space, by simp [hu.kind], ?_⟩, ?_, ?_, ?_⟩
    · rw [hu.op_isAny]
      decide
    · rintro - _ ⟨⟩
      simp [hu.kind]
    · rintro - _ ⟨⟩
      simp [hu.op_isAny]
    · intro _ r more
      -- A name behind the sign would make this a definition.
      rw [List.cons_append, List.cons_append, Rules.anyStatement, bind_ok current_cons,
        if_neg (by simp [hu.kind])]
      simp only [hu.text]
      refine (bind_ok (a := v) rfl).trans ?_
      rw [if_neg (by simp [hv.kind])]
  refine ⟨by omega, hlead, .of_primary (e := .fn u.loc qs es) (by simp [Node.same, hqs, hes])
    (by omega) fun k hk t more _ => ?_⟩
  obtain ⟨us, hparams, hblock⟩ := hread k (by omega) (t :: more)
  rw [List.cons_append, primary_op hu.kind, Rules.marked]
  simp only [hu.text]
  rw [bind_ok advance_cons, bind_ok hparams, bind_ok hblock]
  rfl

/-! ## Conditionals -/

/-- The tokens of the further branches of a conditional and of its last one. -/
inductive Branching (cost : Nat) : List Branch → Option Node → List Token → Prop
  | done : Branching cost [] none []
  | last {u : Token} {n : Node} {ts : List Token} {line newline space : Bool}
      (hu : u.Is .op "else" line true) (hn : ReadsBody cost n newline space ts) :
      Branching cost [] (some n) (u :: ts)
  | further {u : Token} {l : Loc} {test body : Node} {bs : List Branch} {otherwise : Option Node}
      {ts us vs : List Token} {line newline space newline' : Bool} (hu : u.Is .op "elif" line true)
      (ht : ReadsExpression cost test newline space ts) (hb : ReadsBody cost body newline' true us)
      (hbs : Branching cost bs otherwise vs) :
      Branching cost (.mk l test body :: bs) otherwise (u :: ts ++ us ++ vs)

variable {test body : Node} {bs : List Branch} {otherwise : Option Node}

/-- A body that does not end open may stand before a branch. -/
theorem ends_of_branch (h : t.Is .op word newline true) (hw : word ∈ ["elif", "else"])
    (hn : n.isOpen = false) : Ends n t := by
  have hall : ∀ w ∈ ["elif", "else"], w ∉ "." :: "=" :: "+=" :: "-=" :: binaryOperators := by decide
  have hany (words : List String) (hs : words ⊆ "." :: "=" :: "+=" :: "-=" :: binaryOperators) :
      t.isAny words = false := by
    rw [h.op_isAny]
    simpa using fun hm => hall word hw (hs hm)
  have hstops : t.stops = true := by
    rw [Token.stops, Token.leaves, hany ["."] (by decide), hany binaryOperators (by decide), h.space]
    rfl
  exact ⟨hstops, hany _ (by decide), by simp [hn]⟩

/-- The token behind a body: the next branch, or what follows the conditional. -/
theorem Branching.follow (h : Branching cost bs otherwise ts)
    (ho : bs ≠ [] ∨ otherwise.isSome = true → n.isOpen = false)
    (ht : Ends (.cond l test body [] otherwise) t) (more : List Token) :
    ∃ t' more', ts ++ t :: more = t' :: more' ∧ Ends n t' := by
  cases h with
  | done =>
    refine ⟨t, more, rfl, ht.stops, ht.not_assign, fun _ => ht.not_branch ?_⟩
    simp [Node.isOpen, Node.isOpenElse]
  | last hu => exact ⟨_, _, rfl, ends_of_branch hu (by simp) (ho (by simp))⟩
  | further hu => exact ⟨_, _, rfl, ends_of_branch hu (by simp) (ho (by simp))⟩

theorem Branching.reads (h : Branching cost bs otherwise ts)
    (hap : BranchesApart otherwise.isNone bs) (l : Loc) (test body : Node) :
    ∃ cs f, sameBranches cs bs = true ∧ sameOption f otherwise = true ∧
      ∀ k m, cost < k → bs.length < m → ∀ t more, Ends (.cond l test body [] otherwise) t → ∃ us,
        (rules k).branches m (ts ++ t :: more) = .ok (cs, us) ∧
          (do if ← accept "else" then some <$> (rules k).body else pure none : Parser (Option Node))
            us = .ok (f, t :: more) := by
  induction h with
  | done =>
    refine ⟨[], none, by simp [sameBranches], by simp [sameOption], fun k m hk hm t more ht => ?_⟩
    obtain ⟨m, rfl⟩ : ∃ j, m = j + 1 := ⟨m - 1, by omega⟩
    have hbranch := ht.not_branch (by simp [Node.isOpen, Node.isOpenElse])
    have helif : t.isAny ["elif"] = false := Token.not_isAny_subset hbranch (by decide)
    have helse : t.isAny ["else"] = false := Token.not_isAny_subset hbranch (by decide)
    refine ⟨t :: more, ?_, ?_⟩
    · rw [List.nil_append, Rules.branches, bind_ok current_cons, bind_ok (accept_other helif)]
      rfl
    · rw [bind_ok (accept_other helse)]
      rfl
  | @last u n ts _ _ _ hu hn =>
    obtain ⟨-, e, he, hread⟩ := hn
    refine ⟨[], some e, by simp [sameBranches], by simp [sameOption, he],
      fun k m hk hm t more ht => ?_⟩
    obtain ⟨m, rfl⟩ : ∃ j, m = j + 1 := ⟨m - 1, by omega⟩
    have hbody := hread k hk t more (ht.of_isOpen (by simp [Node.isOpen, Node.isOpenElse]))
    refine ⟨u :: ts ++ t :: more, ?_, ?_⟩
    · rw [List.cons_append, Rules.branches, bind_ok current_cons,
        bind_ok (accept_other (by simp [hu.op_isAny]))]
      rfl
    · rw [List.cons_append, bind_ok (accept_cons (by simp [hu.op_isAny])), if_pos rfl, map_ok hbody]
  | @further u lb test' body' bs otherwise ts us vs _ _ _ _ hu ht hb hbs ih =>
    obtain ⟨hopen, hap⟩ := hap
    obtain ⟨cs, f, hcs, hf, hrest⟩ := ih hap
    obtain ⟨e, he, hx⟩ := ht.expression
    obtain ⟨⟨t₁, rest₁, rfl, -, hspace, -, hany⟩, b, hb, hread⟩ := hb
    refine ⟨.mk u.loc e b :: cs, f, by simp [sameBranches, Branch.same, he, hb, hcs], hf, ?_⟩
    intro k m hk hm t more ht
    obtain ⟨m, rfl⟩ : ∃ j, m = j + 1 := ⟨m - 1, by omega⟩
    obtain ⟨ws, hbranches, helse⟩ := hrest k m hk (by simpa using hm) t more ht
    refine ⟨ws, ?_, helse⟩
    have htest := hx k hk t₁ (rest₁ ++ (vs ++ t :: more)) (ends_of_begins hspace hany test').follows
    have hbody : (rules k).body (t₁ :: (rest₁ ++ (vs ++ t :: more))) = .ok (b, vs ++ t :: more) := by
      obtain ⟨t', more', heq, hends⟩ := hbs.follow (n := body') (by
        rw [← Option.isNone_eq_false_iff]
        exact hopen) ht more
      rw [heq]
      exact hread k hk t' more' hends
    simp only [List.append_assoc, List.cons_append]
    rw [Rules.branches, bind_ok current_cons, bind_ok (accept_cons (by simp [hu.op_isAny])),
      if_pos rfl, Rules.branch]
    refine (bind_ok ((bind_ok htest).trans (bind_ok hbody))).trans ?_
    rw [bind_ok hbranches]
    rfl

theorem reads_cond (hu : u.Is .op "if" newline space) {newline' space' newline'' : Bool}
    (ht : ReadsExpression cost test newline' space' ts) (hb : ReadsBody cost body newline'' true us)
    (hbs : Branching cost bs otherwise vs) (hlen : bs.length ≤ cost)
    (hopen : bs ≠ [] ∨ otherwise.isSome = true → body.isOpen = false)
    (hap : BranchesApart otherwise.isNone bs) (l : Loc) :
    ReadsExpression (cost + 1) (.cond l test body bs otherwise) newline space
      (u :: ts ++ us ++ vs) := by
  obtain ⟨cs, f, hcs, hf, hrest⟩ := hbs.reads hap l test body
  obtain ⟨e, he, hx⟩ := ht.expression
  obtain ⟨⟨t₁, rest₁, rfl, -, hspace, -, hany⟩, b, hb, hread⟩ := hb
  simp only [List.append_assoc, List.cons_append]
  refine ⟨by omega, .of_op hu (by decide) (by decide), .of_primary (e := .cond u.loc e b cs f)
    (by simp [Node.same, he, hb, hcs, hf]) (by omega) fun k hk t more hends => ?_⟩
  have hends : Ends (.cond l test body [] otherwise) t :=
    (hends rfl).of_isOpen (by simp [Node.isOpen])
  obtain ⟨ws, hbranches, helse⟩ := hrest k k (by omega) (by omega) t more hends
  have htest := hx k (by omega) t₁ (rest₁ ++ (vs ++ t :: more))
    (ends_of_begins hspace hany test).follows
  have hbody : (rules k).body (t₁ :: (rest₁ ++ (vs ++ t :: more))) = .ok (b, vs ++ t :: more) := by
    obtain ⟨t', more', heq, hends'⟩ := hbs.follow hopen hends more
    rw [heq]
    exact hread k (by omega) t' more' hends'
  simp only [List.append_assoc, List.cons_append]
  rw [primary_op hu.kind, Rules.marked]
  simp only [hu.text]
  rw [Rules.conditional, bind_ok (expect_cons (by simp [hu.op_isAny])), bind_ok htest, bind_ok hbody,
    rules_bound, bind_ok hbranches]
  exact accept_branch helse

/-! ## Matches -/

/-- The lines of a match: its arms, with their patterns, and the last one, which has none. -/
def matchLines (arms : List Arm) (otherwise : Option Node) : List (Option Node × Node) :=
  arms.map (fun | .mk _ pattern body => (some pattern, body)) ++ (otherwise.map (none, ·)).toList

/-- The tokens of a line of a match. -/
def ReadsLine (cost : Nat) : Option Node × Node → Tokens
  | (some pattern, body) => fun newline space ts => ∃ u us v vs newline' space' newline'' space'',
      ts = u :: us ++ v :: vs ∧ u.Is .op "case" newline space ∧
        ReadsExpression cost pattern newline' space' us ∧ v.Is .op "=>" false true ∧
        ReadsBody cost body newline'' space'' vs
  | (none, body) => fun newline space ts => ∃ u v vs newline' space', ts = u :: v :: vs ∧
      u.Is .op "default" newline space ∧ v.Is .op "=>" false true ∧ ReadsBody cost body newline' space' vs

theorem ReadsLine.mono {x : Option Node × Node} (h : ReadsLine cost x newline space ts)
    (hc : cost ≤ cost') : ReadsLine cost' x newline space ts := by
  obtain ⟨pattern, body⟩ := x
  cases pattern with
  | some pattern =>
    obtain ⟨u, us, v, vs, _, _, _, _, hts, hu, hp, hv, hb⟩ := h
    exact ⟨u, us, v, vs, _, _, _, _, hts, hu, hp.mono hc, hv, hb.mono hc⟩
  | none =>
    obtain ⟨u, v, vs, _, _, hts, hu, hv, hb⟩ := h
    exact ⟨u, v, vs, _, _, hts, hu, hv, hb.mono hc⟩

/-- The first token of a line. -/
theorem ReadsLine.head {x : Option Node × Node} (h : ReadsLine cost x newline space ts) :
    ∃ u us word, ts = u :: us ∧ u.Is .op word newline space ∧ word ∈ ["case", "default"] := by
  obtain ⟨pattern, body⟩ := x
  cases pattern with
  | some pattern =>
    obtain ⟨u, us, v, vs, _, _, _, _, rfl, hu, -⟩ := h
    exact ⟨u, us ++ v :: vs, _, rfl, hu, by simp⟩
  | none =>
    obtain ⟨u, v, vs, _, _, rfl, hu, -⟩ := h
    exact ⟨u, v :: vs, _, rfl, hu, by simp⟩

/-- What stands behind a line: its end, and the next line after a comma. -/
theorem Spread.lines {xs : List (Option Node × Node)} (h : Spread Comma (ReadsLine cost) xs vs) :
    ∃ ts, Listed Comma (ReadsLine cost) xs ts ∧ ∀ c more newline space,
      c.Is .op "\x7d" newline space →
        skipSeparators (vs ++ c :: more) = .ok ((), ts ++ c :: more) ∧
        ∀ n, ∃ t' more', vs ++ c :: more = t' :: more' ∧ Ends n t' := by
  cases h with
  | nil =>
    refine ⟨[], .nil, fun c more _ _ hc => ⟨skipAny_other (by simp [hc.op_isAny]), fun n => ?_⟩⟩
    exact ⟨c, more, rfl, hc.ends (by decide) n⟩
  | @cons x xs _ us ts vs hs hx hxs =>
    obtain ⟨u, _, _, rfl, hu⟩ := hs
    refine ⟨ts ++ vs, .cons hx hxs, fun c more _ _ hc => ⟨?_, fun n => ?_⟩⟩
    · obtain ⟨u₀, us₀, word, rfl, hu₀, hw⟩ := hx.head
      have hwords : ∀ w ∈ ["case", "default"], w ∉ [";", ","] := by decide
      have hother : u₀.isAny [";", ","] = false := by
        rw [hu₀.op_isAny]
        simpa using hwords word hw
      simp only [List.append_assoc, List.cons_append, List.nil_append]
      rw [skipSeparators, skipAny_cons (by simp [hu.op_isAny]), skipAny_other hother]
    · exact ⟨u, _, rfl, hu.ends (by decide) n⟩

/-- The last line of a match, if it is there. -/
def lastLine (r : Rules) : Parser (Option Node) := do
  if ← accept "default" then
    let _ ← expect "=>"
    let body ← r.body
    skipSeparators
    pure (some body)
  else pure none

theorem reads_lastLine (h : Listed Comma (ReadsLine cost) (matchLines [] otherwise) ts) :
    ∃ f, sameOption f otherwise = true ∧ ∀ k, cost < k → ∀ c more newline space,
      c.Is .op "\x7d" newline space →
        accept "case" (ts ++ c :: more) = .ok (false, ts ++ c :: more) ∧
        lastLine (rules k) (ts ++ c :: more) = .ok (f, c :: more) := by
  cases otherwise with
  | none =>
    cases h
    refine ⟨none, by simp [sameOption], fun k hk c more _ _ hc => ⟨?_, ?_⟩⟩
    · exact accept_other (by simp [hc.op_isAny])
    · rw [List.nil_append, lastLine, bind_ok (accept_other (by simp [hc.op_isAny]))]
      rfl
  | some n =>
    obtain _ | ⟨hx, _ | _⟩ := h
    obtain ⟨u, v, vs, _, _, rfl, hu, hv, -, e, he, hread⟩ := hx
    refine ⟨some e, by simp [sameOption, he], fun k hk c more _ _ hc => ⟨?_, ?_⟩⟩
    · exact accept_other (by simp [hu.op_isAny])
    · have hbody := hread k hk c more (hc.ends (by decide) n)
      have hskip : skipSeparators (c :: more) = .ok ((), c :: more) :=
        skipAny_other (by simp [hc.op_isAny])
      simp only [List.append_nil, List.cons_append]
      rw [lastLine, bind_ok (accept_cons (by simp [hu.op_isAny])), if_pos rfl,
        bind_ok (expect_cons (by simp [hv.op_isAny])), bind_ok hbody, bind_ok hskip]
      rfl

theorem reads_arms {arms : List Arm}
    (h : Listed Comma (ReadsLine cost) (matchLines arms otherwise) ts) :
    ∃ as f, sameArms as arms = true ∧ sameOption f otherwise = true ∧
      ∀ k m, cost < k → arms.length < m → ∀ c more newline space, c.Is .op "\x7d" newline space →
        ∃ us, (rules k).arms m (ts ++ c :: more) = .ok (as, us) ∧
          lastLine (rules k) us = .ok (f, c :: more) := by
  induction arms generalizing ts with
  | nil =>
    obtain ⟨f, hf, hread⟩ := reads_lastLine h
    refine ⟨[], f, by simp [sameArms], hf, fun k m hk hm c more _ _ hc => ?_⟩
    obtain ⟨m, rfl⟩ : ∃ j, m = j + 1 := ⟨m - 1, by omega⟩
    obtain ⟨haccept, hlast⟩ := hread k hk c more _ _ hc
    refine ⟨ts ++ c :: more, ?_, hlast⟩
    obtain ⟨t₀, rest₀, hcons⟩ : ∃ t₀ rest₀, ts ++ c :: more = t₀ :: rest₀ := by
      cases ts with
      | nil => exact ⟨c, more, rfl⟩
      | cons t ts => exact ⟨t, ts ++ c :: more, rfl⟩
    rw [hcons] at haccept ⊢
    rw [Rules.arms, bind_ok current_cons, bind_ok haccept]
    rfl
  | cons arm arms ih =>
    obtain ⟨la, pattern, body⟩ := arm
    obtain _ | ⟨hx, hxs⟩ := h
    rename_i vs
    obtain ⟨u, us, v, ws, _, _, _, _, rfl, hu, hp, hv, -, b, hb, hread⟩ := hx
    obtain ⟨e, he, hx⟩ := hp.expression
    obtain ⟨ts', hlisted, hnext⟩ := hxs.lines
    obtain ⟨as, f, has, hf, hrest⟩ := ih hlisted
    refine ⟨.mk u.loc e b :: as, f, by simp [sameArms, Arm.same, he, hb, has], hf, ?_⟩
    intro k m hk hm c more _ _ hc
    obtain ⟨m, rfl⟩ : ∃ j, m = j + 1 := ⟨m - 1, by omega⟩
    obtain ⟨hskip, hfollow⟩ := hnext c more _ _ hc
    obtain ⟨us', harms, hlast⟩ := hrest k m hk (by simpa using hm) c more _ _ hc
    refine ⟨us', ?_, hlast⟩
    have hpattern := hx k hk v (ws ++ (vs ++ c :: more)) (hv.ends (by decide) pattern).follows
    have hbody : (rules k).body (ws ++ (vs ++ c :: more)) = .ok (b, vs ++ c :: more) := by
      obtain ⟨t', more', heq, hends⟩ := hfollow body
      rw [heq]
      exact hread k hk t' more' hends
    simp only [List.append_assoc, List.cons_append]
    rw [Rules.arms, bind_ok current_cons, bind_ok (accept_cons (by simp [hu.op_isAny])), if_pos rfl,
      bind_ok hpattern, bind_ok (expect_cons (by simp [hv.op_isAny])), bind_ok hbody, bind_ok hskip,
      bind_ok harms]
    rfl

/-- The last line of a match, and what is done behind it. -/
theorem lastLine_bind {r : Rules} {next : Option Node → Parser Node} {f : Option Node}
    (h : lastLine r ts = .ok (f, us)) :
    (do
      let isLast ← accept "default"
      if isLast then
        let _ ← expect "=>"
        let body ← r.body
        skipSeparators
        let otherwise ← pure (some body)
        next otherwise
      else
        let otherwise ← pure none
        next otherwise : Parser Node) ts = next f us := by
  rw [← bind_ok (f := next) h, lastLine, bind_assoc]
  refine congrFun (congrArg (accept "default" >>= ·) (funext fun isLast => ?_)) ts
  cases isLast <;> simp

theorem reads_select {subject : Node} {arms : List Arm} (hu : u.Is .op "match" newline space)
    {newline' space' : Bool} (hs : ReadsExpression cost subject newline' space' ts)
    (hv : v.Is .op "\x7b" false true)
    (h : Listed Comma (ReadsLine cost) (matchLines arms otherwise) us)
    (hlen : arms.length ≤ cost) {newline'' space'' : Bool} (hc : c.Is .op "\x7d" newline'' space'')
    (l : Loc) :
    ReadsExpression (cost + 1) (.select l subject arms otherwise) newline space
      (u :: (ts ++ v :: us) ++ [c]) := by
  obtain ⟨e, he, hx⟩ := hs.expression
  obtain ⟨as, f, has, hf, hread⟩ := reads_arms h
  refine ⟨by omega, .of_op hu (by decide) (by decide), .of_primary (e := .select u.loc e as f)
    (by simp [Node.same, he, has, hf]) (by omega) fun k hk t more _ => ?_⟩
  obtain ⟨ws, harms, hlast⟩ := hread k k (by omega) (by omega) c (t :: more) _ _ hc
  have hbrace : v.isAny innerWords = false := by
    rw [hv.op_isAny]
    decide
  have hsubject := hx k (by omega) v (us ++ c :: t :: more)
    (ends_of_begins hv.space hbrace subject).follows
  have hskip : skipSeparators (us ++ c :: t :: more) = .ok ((), us ++ c :: t :: more) := by
    generalize matchLines arms otherwise = lines at h
    cases h with
    | nil => exact skipAny_other (by simp [hc.op_isAny])
    | cons hx _ =>
      obtain ⟨u₀, us₀, word, rfl, hu₀, hw⟩ := hx.head
      have hwords : ∀ w ∈ ["case", "default"], w ∉ [";", ","] := by decide
      refine skipAny_other ?_
      rw [hu₀.op_isAny]
      simpa using hwords word hw
  simp only [List.append_assoc, List.cons_append, List.nil_append]
  rw [primary_op hu.kind, Rules.marked]
  simp only [hu.text]
  rw [Rules.selection, bind_ok (expect_cons (by simp [hu.op_isAny])), bind_ok hsubject,
    bind_ok (expect_cons (by simp [hv.op_isAny])), bind_ok hskip, rules_bound, bind_ok harms]
  refine (lastLine_bind hlast).trans ?_
  rw [bind_ok (expect_cons (by simp [hc.op_isAny]))]
  rfl

/-! ## Definitions, assignments and jumps -/

theorem reads_define {name : Name} {isMutable : Bool}
    (hu : u.Is .op (if isMutable then "var" else "let") newline space) {newline' space' : Bool}
    (ht : t.Is .ident name.text newline' space') (hv : v.Is .op "=" false true)
    {newline'' space'' : Bool} (h : ReadsExpression cost n newline'' space'' ts) (l : Loc) :
    ReadsStatement (cost + 1) (.define l name n isMutable) newline space (u :: t :: v :: ts) := by
  obtain ⟨e, he, hx⟩ := h.expression
  have hword : (u.text == "var") = isMutable := by
    rw [hu.text]
    cases isMutable <;> rfl
  refine .of_word (e := .define u.loc t.name e isMutable) ?_ hu ?_ ?_
  · simp [Node.same, Token.name, ht.text, he]
  · cases isMutable <;> decide
  intro k hk w more hw
  have hvalue := hx k hk w more (hw.of_isOpen (by simp [Node.isOpen])).follows
  have hdefinition : (rules k).definition (u :: t :: v :: (ts ++ w :: more)) =
      .ok (.define u.loc t.name e isMutable, w :: more) := by
    rw [Rules.definition, bind_ok advance_cons, bind_ok (identifier_cons ht.kind),
      bind_ok (expect_cons (by simp [hv.op_isAny])), bind_ok hvalue, hword]
    rfl
  simp only [List.cons_append]
  rw [Rules.anyStatement, bind_ok current_cons, if_neg (by simp [hu.kind])]
  cases isMutable with
  | true =>
    simp only [hu.text, if_true]
    exact hdefinition
  | false =>
    simp only [hu.text, Bool.false_eq_true, if_false]
    exact hdefinition

theorem reads_function {ps : List Param} {ns : List Node} {name : Name}
    (hu : u.Is .op "@" newline space) {newline' space' : Bool}
    (ht : t.Is .ident name.text newline' space') (h : ReadsSignature cost ps ns ts) (l l' : Loc) :
    ReadsStatement (cost + 1) (.define l name (.fn l' ps ns) false) newline space (u :: t :: ts) := by
  obtain ⟨-, qs, es, hqs, hes, hread⟩ := h
  refine .of_word (e := .define u.loc t.name (.fn u.loc qs es) false) ?_ hu (by decide) ?_
  · simp [Node.same, Token.name, ht.text, hqs, hes]
  intro k hk w more _
  obtain ⟨us, hparams, hblock⟩ := hread k hk (w :: more)
  simp only [List.cons_append]
  rw [Rules.anyStatement, bind_ok current_cons, if_neg (by simp [hu.kind])]
  simp only [hu.text]
  refine (bind_ok (a := t) rfl).trans ?_
  rw [if_pos ht.kind, Rules.functionDefinition, bind_ok (expect_cons (by simp [hu.op_isAny])),
    bind_ok (identifier_cons ht.kind), bind_ok hparams, bind_ok hblock]
  rfl

theorem reads_each {item : Name} {items : Node} (hu : u.Is .op "each" newline space)
    {newline' space' : Bool} (hv : v.Is .op "let" newline' space')
    {newline'' space'' : Bool} (ht : t.Is .ident item.text newline'' space'')
    {newline₁ space₁ : Bool} (hc : c.Is .op "," newline₁ space₁) {newline₂ space₂ newline₃ : Bool}
    (hs : ReadsExpression cost items newline₂ space₂ ts)
    (hb : ReadsBody cost body newline₃ true us) (l : Loc) :
    ReadsStatement (cost + 1) (.each l item items body) newline space
      (u :: v :: t :: c :: (ts ++ us)) := by
  obtain ⟨e, he, hx⟩ := hs.expression
  obtain ⟨⟨t₁, rest₁, rfl, -, hspace, -, hany⟩, b, hb, hread⟩ := hb
  refine .of_word (e := .each u.loc t.name e b) ?_ hu (by decide) ?_
  · simp [Node.same, Token.name, ht.text, he, hb]
  intro k hk w more hw
  have hitems := hx k hk t₁ (rest₁ ++ w :: more) (ends_of_begins hspace hany items).follows
  have hbody := hread k hk w more (hw.of_isOpen (by simp [Node.isOpen]))
  simp only [List.append_assoc, List.cons_append] at hbody ⊢
  rw [Rules.anyStatement, bind_ok current_cons, if_neg (by simp [hu.kind])]
  simp only [hu.text]
  rw [Rules.eachLoop, bind_ok (expect_cons (by simp [hu.op_isAny])),
    bind_ok (expect_cons (by simp [hv.op_isAny])), bind_ok (identifier_cons ht.kind),
    bind_ok (expect_cons (by simp [hc.op_isAny])), bind_ok hitems, bind_ok hbody]
  rfl

/-- The token between the two sides of an assignment. -/
theorem follows_of_assign {target : Node} (ht : t.Is .op word false true)
    (hw : word ∈ ["=", "+=", "-="]) (hn : target.isCond = false) : Follows target t := by
  have hall : ∀ w ∈ ["=", "+=", "-="], w ∉ "." :: binaryOperators := by decide
  have hany (words : List String) (hs : words ⊆ "." :: binaryOperators) : t.isAny words = false := by
    rw [ht.op_isAny]
    simpa using fun hm => hall word hw (hs hm)
  refine ⟨?_, by simp [hn]⟩
  rw [Token.stops, Token.leaves, hany ["."] (by simp), hany binaryOperators (by simp), ht.space]
  rfl

/-- Two expressions with an assignment sign between them. -/
theorem reads_assignment {target value m : Node} (hs : ReadsExpression cost target newline space ts)
    (hn : target.isCond = false) (ho : target.objectLed = false) (ht : t.Is .op word false true)
    (hw : word ∈ ["=", "+=", "-="]) {newline' space' : Bool}
    (hv : ReadsExpression cost value newline' space' us) (hopen : m.isOpen = value.isOpen)
    (hm : ∀ (l : Loc) (e f : Node), e.same target = true → f.same value = true →
      (if word = "=" then Node.assign l e f else .update l word e f).same m = true) :
    ReadsStatement (cost + 1) m newline space (ts ++ t :: us) := by
  obtain ⟨e, he, hx⟩ := hs.expression
  obtain ⟨f, hf, hx'⟩ := hv.expression
  obtain ⟨t₀, rest, rfl, hhead⟩ := hs.leads.heads
  refine .of_any (hm t₀.loc e f he hf) ⟨t₀, rest ++ t :: us, rfl, hhead⟩ (hs.leads.not_brace ho) ?_
  intro k hk w more hends
  have htarget := hx k hk t (us ++ w :: more) (follows_of_assign ht hw hn)
  have hvalue := hx' k hk w more (hends.of_isOpen hopen.symm).follows
  rw [List.append_assoc, hs.leads.statement ho]
  simp only [List.cons_append] at htarget ⊢
  rw [Rules.expressionStatement, bind_ok current_cons, bind_ok htarget, bind_ok current_cons]
  by_cases h : word = "="
  · rw [if_pos h, if_pos (by simp [ht.op_isAny, h]), bind_ok advance_cons, bind_ok hvalue]
    rfl
  · have hupdate : t.isAny ["+=", "-="] = true := by
      rw [ht.op_isAny]
      simp only [List.mem_cons, h, false_or] at hw
      simpa using hw
    rw [if_neg h, if_neg (by simp [ht.op_isAny, h]), if_pos hupdate, bind_ok advance_cons,
      bind_ok hvalue, ht.text]
    rfl

theorem reads_assign {target value : Node} (hs : ReadsExpression cost target newline space ts)
    (hn : target.isCond = false) (ho : target.objectLed = false) (ht : t.Is .op "=" false true)
    {newline' space' : Bool} (hv : ReadsExpression cost value newline' space' us) (l : Loc) :
    ReadsStatement (cost + 1) (.assign l target value) newline space (ts ++ t :: us) :=
  reads_assignment hs hn ho ht (by simp) hv (by simp [Node.isOpen])
    fun l e f he hf => by simp [Node.same, he, hf]

theorem reads_update {target value : Node} {op : String} (hop : op ∈ ["+=", "-="])
    (hs : ReadsExpression cost target newline space ts) (hn : target.isCond = false)
    (ho : target.objectLed = false) (ht : t.Is .op op false true) {newline' space' : Bool}
    (hv : ReadsExpression cost value newline' space' us) (l : Loc) :
    ReadsStatement (cost + 1) (.update l op target value) newline space (ts ++ t :: us) := by
  have hne : ∀ w ∈ ["+=", "-="], w ≠ "=" := by decide
  refine reads_assignment hs hn ho ht (List.mem_cons_of_mem _ hop) hv (by simp [Node.isOpen]) ?_
  intro l e f he hf
  rw [if_neg (hne op hop)]
  simp [Node.same, he, hf]

theorem reads_ret (hu : u.Is .op "return" newline space)
    (h : ReadsExpression cost n false true ts) (l : Loc) :
    ReadsStatement (cost + 1) (.ret l n) newline space (u :: ts) := by
  obtain ⟨e, he, hx⟩ := h.expression
  obtain ⟨t₀, rest, rfl, hline, -, hk₀, hany⟩ := h.leads.heads
  refine .of_word (e := .ret u.loc e) (by simp [Node.same, he]) hu (by decide) ?_
  intro k hk w more hw
  have hvalue := hx k hk w more (hw.of_isOpen (by simp [Node.isOpen])).follows
  have hmore : (decide (t₀.kind = .eof) || t₀.newlineBefore || t₀.isAny [";", "\x7d"]) = false := by
    simp [hk₀, hline, Token.not_isAny_subset hany (show [";", "\x7d"] ⊆ innerWords by decide)]
  simp only [List.cons_append] at hvalue ⊢
  rw [Rules.anyStatement, bind_ok current_cons, if_neg (by simp [hu.kind])]
  simp only [hu.text]
  rw [Rules.returnStatement, bind_ok advance_cons, bind_ok current_cons, if_neg (by simp [hmore]),
    bind_ok hvalue]
  rfl

theorem reads_exit (hu : u.Is .op "break" newline space) (l : Loc) :
    ReadsStatement (cost + 1) (.exit l) newline space [u] := by
  refine .of_word (e := .exit u.loc) (by simp [Node.same]) hu (by decide) fun k _ w more _ => ?_
  rw [Rules.anyStatement, bind_ok current_cons, if_neg (by simp [hu.kind])]
  simp only [hu.text]
  rfl

theorem reads_next (hu : u.Is .op "continue" newline space) (l : Loc) :
    ReadsStatement (cost + 1) (.next l) newline space [u] := by
  refine .of_word (e := .next u.loc) (by simp [Node.same]) hu (by decide) fun k _ w more _ => ?_
  rw [Rules.anyStatement, bind_ok current_cons, if_neg (by simp [hu.kind])]
  simp only [hu.text]
  rfl

end ScriptBridge.AiScript
