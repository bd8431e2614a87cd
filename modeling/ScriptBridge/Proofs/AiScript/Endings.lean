import ScriptBridge.Proofs.AiScript.Outcomes
import ScriptBridge.Proofs.AiScript.Reading

/-!
# Every text is read to an end

Each rule of the grammar comes to an end on tokens for which its levels of nesting are enough
(`Levels`), and `parse` gives enough of them for every text. So a text is a program, or it is told what
is wrong with it; the levels are never used up, and no token behind the end of the text is asked for but
the key of an object literal.

* `levels`: the rules, by induction on the levels.
* `tokenize_ended`: the tokens of a text, and their weight.
* `parse_ends`: what `parse` may give.
-/

namespace ScriptBridge.AiScript

open ScriptBridge.AiScript.Parser

variable {α : Type} {t : Token} {ts us vs : List Token} {n k m : Nat}

/-- The rules for `n` levels come to an end on the tokens that they have enough levels for. A statement
needs one level more than an expression, since it may be one. -/
structure Levels (n : Nat) : Prop where
  expression : Finishes 1 n (rules n).expression
  power : Finishes 1 n (rules n).power
  unary : Finishes 1 n (rules n).unary
  statement : Finishes 1 (n - 1) (rules n).statement

theorem separators_finish : Finishes 0 k skipSeparators :=
  skipAny_finishes (by decide)

namespace Levels

/-! ## Blocks and lists -/

theorem block (h : Levels n) : Finishes 1 (n + 1) (rules n).block := by
  rw [Rules.block, rules_bound]
  have hcheck : Finishes 0 (n - 1) (do
      if (← current).kind = .eof then Parser.fail .unterminatedBlock) :=
    .current fun t => by
      split
      · exact (Finishes.fail _).atToken
      · exact (Finishes.pure _).atToken
  refine (expect_finishes (by decide)).bind fun _ => separators_finish.bind fun _ => ?_
  refine (itemsUntil_finishes hcheck h.statement separators_finish (by omega) (by omega)).bind
    fun body => (expect_finishes (by decide)).bind fun _ => .pure _

theorem body (h : Levels n) : Finishes 1 (n - 1) (rules n).body := by
  rw [Rules.body]
  refine .sees fun isBlock => ?_
  split
  · exact .current fun t => ((h.block.mono (by omega)).bind fun _ => .pure _).atToken
  · exact h.statement

theorem expressionsUntil (h : Levels n) {close : String} (hc : close ≠ "") :
    Finishes 1 n ((rules n).expressionsUntil close) := by
  rw [Rules.expressionsUntil, rules_bound]
  refine (skipAny_finishes (by decide)).bind fun _ => ?_
  refine (itemsUntil_finishes (.pure ()) h.expression (skipAny_finishes (by decide)) (by omega)
    (by omega)).bind fun items => (expect_finishes hc).bind fun _ => .pure _

theorem parameter (h : Levels n) : Finishes 1 n (rules n).parameter := by
  have hcomma (k : Nat) (x : Param) : Finishes 0 k (do
      if !(← sees ")") then
        let _ ← expect ","
      return x) :=
    .sees fun isClose => by
      split
      · exact (expect_finishes (by decide)).bind fun _ => .pure x
      · exact .pure x
  rw [Rules.parameter]
  refine identifier_finishes.bind fun name => (accept_flag_finishes (by decide)).bind
    fun isOptional => ?_
  refine accept_finishes (by decide) ?_ ?_
  · exact ((h.expression.map some).mono (by omega)).bind fun fallback => hcomma _ _
  · exact (Finishes.pure none).bind fun fallback => hcomma _ _

theorem parameters (h : Levels n) : Finishes 1 (n + 1) (rules n).parameters := by
  rw [Rules.parameters, rules_bound]
  refine (expect_finishes (by decide)).bind fun _ => ?_
  exact (itemsUntil_finishes (.pure ()) h.parameter (.pure ()) (by omega) (by omega)).bind
    fun params => (expect_finishes (by decide)).bind fun _ => .pure _

/-! ## Primary expressions -/

theorem array (h : Levels n) : Finishes 1 (n + 1) (rules n).array := by
  rw [Rules.array]
  refine (expect_finishes (by decide)).bind fun t => ?_
  exact ((h.expressionsUntil (by decide)).mono (by omega)).bind fun items => .pure _

theorem branch (h : Levels n) (l : Loc) : Finishes 1 n ((rules n).branch l) := by
  rw [Rules.branch]
  exact h.expression.bind fun test => (h.body.mono (by omega)).bind fun body => .pure _

theorem branches (h : Levels n) (hk : k ≤ n + 1) (hm : k ≤ 2 * m + 1) :
    Finishes 0 k ((rules n).branches m) := by
  induction m generalizing k with
  | zero =>
    intro ts he hw
    have := he.weight_pos
    omega
  | succ m ih =>
    rw [Rules.branches]
    refine .current fun t => (accept_finishes (by decide) ?_ (.pure [])).atToken
    refine ((h.branch _).mono (by omega)).bind fun b => ?_
    exact (ih (by omega) (by omega)).bind fun bs => .pure _

theorem conditional (h : Levels n) : Finishes 1 (n + 1) (rules n).conditional := by
  rw [Rules.conditional, rules_bound]
  refine (expect_finishes (by decide)).bind fun t => ?_
  refine (h.expression.mono (by omega)).bind fun test => (h.body.mono (by omega)).bind fun body => ?_
  refine (h.branches (by omega) (by omega)).bind fun more => ?_
  refine accept_finishes (by decide) ?_ (.pure _)
  exact ((h.body.map some).mono (by omega)).bind fun otherwise => .pure _

theorem arms (h : Levels n) (hk : k ≤ n + 1) (hm : k ≤ 2 * m + 1) :
    Finishes 0 k ((rules n).arms m) := by
  induction m generalizing k with
  | zero =>
    intro ts he hw
    have := he.weight_pos
    omega
  | succ m ih =>
    rw [Rules.arms]
    refine .current fun t => (accept_finishes (by decide) ?_ (.pure [])).atToken
    refine (h.expression.mono (by omega)).bind fun pattern => (expect_finishes (by decide)).bind
      fun _ => (h.body.mono (by omega)).bind fun body => separators_finish.bind fun _ => ?_
    exact (ih (by omega) (by omega)).bind fun more => .pure _

theorem selection (h : Levels n) : Finishes 1 (n + 1) (rules n).selection := by
  rw [Rules.selection, rules_bound]
  refine (expect_finishes (by decide)).bind fun t => ?_
  refine (h.expression.mono (by omega)).bind fun subject => (expect_finishes (by decide)).bind
    fun _ => separators_finish.bind fun _ => (h.arms (by omega) (by omega)).bind fun cases => ?_
  have hclose (k : Nat) (o : Option Node) : Finishes 0 k (do
      let _ ← expect "\x7d"
      return Node.select t.loc subject cases o) :=
    (expect_finishes (by decide)).bind fun _ => .pure _
  refine accept_finishes (by decide) ?_ ?_
  · exact (expect_finishes (by decide)).bind fun _ => (h.body.mono (by omega)).bind fun body =>
      separators_finish.bind fun _ => (Finishes.pure (some body)).bind fun otherwise => hclose _ _
  · exact (Finishes.pure none).bind fun otherwise => hclose _ _

/-! ## Operators -/

/-- A name is read behind a point; the end of the text is none. -/
theorem property_finishes {f : Token → Parser α} {gain : Nat}
    (hf : ∀ name, Finishes (gain - 1) (k - 2) (f name)) :
    Finishes gain k (do
      let name ← advance
      if name.kind != .ident && !isWord name.text then
        throw (.grammar .expectedPropertyName name.line name.col)
      f name) := by
  intro ts he hw
  obtain ⟨name, rest, rfl⟩ := List.exists_cons_of_ne_nil he.ne_nil
  by_cases hk : name.kind = .eof
  · have htext : name.text = "" := by
      by_contra hne
      exact he.kind_ne_eof hne hk
    have hword : isWord "" = false := by decide
    rw [bind_ok advance_cons, htext, hk, hword, if_pos (by decide)]
    exact .grammar .expectedPropertyName name.line name.col
  · refine FinishesAt.advance hk ?_ rest he hw
    split
    · exact fun ts _ _ => .grammar .expectedPropertyName name.line name.col
    · exact hf name

theorem suffixes (h : Levels n) (node : Node) (hk : k ≤ n + 1) (hm : k ≤ 2 * m + 1) :
    Finishes 0 k ((rules n).suffixes m node) := by
  induction m generalizing k node with
  | zero =>
    intro ts he hw
    have := he.weight_pos
    omega
  | succ m ih =>
    have hrest (node : Node) {k' : Nat} (hk' : k' ≤ k - 2) : Finishes 0 k' ((rules n).suffixes m node) :=
      ih node (by omega) (by omega)
    rw [Rules.suffixes]
    refine .current fun t => ?_
    split
    · rename_i ht
      exact .of_isAny ht (by decide) fun hk => .advance hk
        (property_finishes fun name => hrest _ (by omega))
    · split
      · rename_i ht
        refine .of_isAny (Bool.and_eq_true_iff.mp ht).1 (by decide) fun hk => .advance hk ?_
        exact (h.expression.mono (by omega)).bind fun index => (expect_finishes (by decide)).bind
          fun _ => hrest _ (by omega)
      · split
        · rename_i ht
          refine .of_isAny (Bool.and_eq_true_iff.mp ht).1 (by decide) fun hk => .advance hk ?_
          exact ((h.expressionsUntil (by decide)).mono (by omega)).bind fun args => hrest _ (by omega)
        · exact (Finishes.pure node).atToken

/-- Operators of one level. -/
theorem chain (words : List String) {isOperator : Token → Bool} {operand : Parser Node}
    (hword : "" ∉ words) (hop : ∀ t, isOperator t = true → t.isAny words = true)
    (hoperand : Finishes 1 (n + 1) operand) : Finishes 1 (n + 1) ((rules n).chain isOperator operand) := by
  have hfrom (m : Nat) {k : Nat} (left : Node) (hk : k ≤ n + 1) (hm : k ≤ 2 * m + 1) :
      Finishes 0 k (Rules.chainFrom isOperator operand m left) := by
    induction m generalizing k left with
    | zero =>
      intro ts he hw
      have := he.weight_pos
      omega
    | succ m ih =>
      rw [Rules.chainFrom]
      refine .current fun t => ?_
      split
      · rename_i ht
        refine .of_isAny (hop t ht) hword fun hk => .advance hk ?_
        exact (hoperand.mono (by omega)).bind fun right => ih _ (by omega) (by omega)
      · exact (Finishes.pure left).atToken
  rw [Rules.chain, rules_bound]
  exact hoperand.bind fun left => hfrom n left (by omega) (by omega)

/-! ## Objects and templates -/

/-- An entry of an object literal; at the end of the text there is none. -/
theorem entry (h : Levels n) (he : Ended ts) (hw : 2 * weight ts ≤ n) :
    Outcome (EndsAtKey ts ∨ ∃ t : Token, ts = [t] ∧ t.kind = .eof) 1 ts ((rules n).entry ts) := by
  obtain ⟨key, rest, rfl⟩ := List.exists_cons_of_ne_nil he.ne_nil
  by_cases hk : key.kind = .eof
  · obtain rfl := he.eq_last hk
    rw [Rules.entry, bind_ok advance_cons, if_pos hk]
    exact .pastEnd (.inr ⟨key, rfl, hk⟩)
  · have hentry : FinishesAt key 1 n (rules n).entry := by
      rw [Rules.entry]
      refine .advance hk ?_
      rw [if_neg hk]
      exact (expect_finishes (by decide)).bind fun _ => (h.expression.mono (by omega)).bind fun x => .pure _
    exact (hentry rest he hw).lift .inl (List.suffix_refl _) (Nat.le_refl _)

/-- The entries of an object literal, up to its closing brace or to the end of the text. -/
theorem entries (h : Levels n) (he : Ended ts) (hw : 2 * weight ts ≤ n) (hm : weight ts ≤ m) :
    Outcome (EndsAtKey ts ∨ RunsOut (rules n) ts) 0 ts
      (itemsUntil "\x7d" (pure ()) (rules n).entry skipSeparators m ts) := by
  induction m generalizing ts with
  | zero => exact absurd hm (Nat.not_le_of_lt he.weight_pos)
  | succ m ih =>
    obtain ⟨key, rest, rfl⟩ := List.exists_cons_of_ne_nil he.ne_nil
    cases hclose : key.isAny ["\x7d"] with
    | true =>
      rw [itemsUntil_close hclose]
      exact .ok (List.suffix_refl _) he (Nat.le_refl _)
    | false =>
      rw [itemsUntil, bind_ok sees_cons, if_neg (by simp [hclose]), pure_bind]
      have hsees : sees "\x7d" (key :: rest) = .ok (false, key :: rest) := by rw [sees_cons, hclose]
      refine (h.entry he hw).bind (Or.imp_right ?_) fun e us hus heus hlus hentry => ?_
      · rintro ⟨t, ht, hk⟩
        rw [ht]
        exact .atEnd hk
      have hwus := weight_suffix hus
      have hafter : Outcome
          (EndsAtKey us ∨ ∃ vs, skipSeparators us = .ok ((), vs) ∧ RunsOut (rules n) vs) 0 us
          ((do
            skipSeparators
            return e :: (← itemsUntil "\x7d" (pure ()) (rules n).entry skipSeparators m)) us) := by
        refine (separators_finish us heus (Nat.le_refl _)).bind .inl fun _ vs hvs hevs hlvs hskip => ?_
        have hwvs := weight_suffix hvs
        refine ((ih hevs (by omega) (by omega)).bind id fun xs ws hws hews hlws _ => ?_).lift
          (g := 0) (Or.imp (·.of_suffix hvs) fun hrun => ⟨vs, hskip, hrun⟩) hvs (by omega)
        exact .ok hws hews hlws
      refine hafter.lift (Or.imp (·.of_suffix hus) ?_) hus (by omega)
      rintro ⟨vs, hskip, hrun⟩
      exact .entry hsees hentry hskip hrun

theorem object (h : Levels n) : Finishes 1 (n + 1) (rules n).object := by
  intro ts he hw
  rw [Rules.object, rules_bound]
  refine (expect_finishes (by decide) ts he hw).bind id fun brace rest hrest herest hlrest hbrace => ?_
  have hwrest := weight_suffix hrest
  have hrun : Outcome (EndsAtKey rest ∨
      ∃ us, skipSeparators rest = .ok ((), us) ∧ RunsOut (rules n) us) 0 rest ((do
        skipSeparators
        let entries ← itemsUntil "\x7d" (pure ()) (rules n).entry skipSeparators n
        let _ ← expect "\x7d"
        return Node.obj brace.loc (Assoc.ofPairs entries)) rest) := by
    refine (separators_finish rest herest (Nat.le_refl _)).bind .inl fun _ us hus heus hlus hskip => ?_
    have hwus := weight_suffix hus
    refine ((h.entries heus (by omega) (by omega)).bind id fun xs vs hvs hevs hlvs _ => ?_).lift
      (g := 0) (Or.imp (·.of_suffix hus) fun hrun => ⟨us, hskip, hrun⟩) hus (by omega)
    have hclose : Finishes 1 (2 * weight vs) (do
        let _ ← expect "\x7d"
        return Node.obj brace.loc (Assoc.ofPairs xs)) :=
      (expect_finishes (by decide)).bind fun _ => .pure _
    exact (hclose vs hevs (Nat.le_refl _)).lift (fun hkey => .inl (hkey.of_suffix hvs)) hvs (by omega)
  refine hrun.lift ?_ hrest (by omega)
  rintro (hkey | ⟨us, hskip, hrunsOut⟩)
  · exact hkey.of_suffix hrest
  · obtain ⟨hb, rfl⟩ := expect_ok hbrace
    exact .literal (List.nil_append _).symm hb hskip hrunsOut

/-- An interpolation is read to the end of its source. -/
theorem interpolation (h : Levels n) {source : String} (hw : 2 * (source.length + 1) ≤ n)
    (line col : Nat) :
    Settles (∃ us, tokenize source line col = .ok us ∧ EndsAtKey us)
      ((rules n).interpolation source line col) := by
  rw [Rules.interpolation]
  split
  · rename_i e _
    exact .lexical e
  · rename_i us hus
    have hwhole : Finishes 1 n (do
        let node ← (rules n).expression
        if (← current).kind != .eof then Parser.fail .trailingInterpolation
        return node) := by
      have hfail {k : Nat} : Finishes 0 k (Parser.fail .trailingInterpolation : Parser PUnit) := .fail _
      refine h.expression.bind fun node => .current fun t => ?_
      split
      · exact (hfail.bind fun _ => .pure node).atToken
      · exact (Finishes.pure node).atToken
    have hweight := tokenize_weight hus
    exact (hwhole us (tokenize_ended hus) (by omega)).settles fun hkey => ⟨us, hus, hkey⟩

/-- The parts of a template are read, one after the other. -/
theorem templateParts (h : Levels n) (loc : Loc) {parts : List TemplatePart}
    (hw : ∀ p ∈ parts, 2 * (p.size + 1) ≤ n) :
    Settles (∃ source line col us, .code source line col ∈ parts ∧
      tokenize source line col = .ok us ∧ EndsAtKey us) ((rules n).templateParts loc parts) := by
  induction parts with
  | nil => exact .ok []
  | cons p parts ih =>
    obtain ⟨hp, hparts⟩ := List.forall_mem_cons.mp hw
    have hrest : Settles (∃ source line col us, .code source line col ∈ p :: parts ∧
        tokenize source line col = .ok us ∧ EndsAtKey us) ((rules n).templateParts loc parts) := by
      refine (ih hparts).imp ?_
      rintro ⟨source, line, col, us, hmem, hus⟩
      exact ⟨source, line, col, us, List.mem_cons_of_mem _ hmem, hus⟩
    cases p with
    | text value =>
      rw [Rules.templateParts]
      exact hrest.bind id fun nodes => .ok _
    | code source line col =>
      rw [Rules.templateParts]
      refine (h.interpolation hp line col).bind ?_ fun node => hrest.bind id fun nodes => .ok _
      rintro ⟨us, hus, hkey⟩
      exact ⟨source, line, col, us, List.mem_cons_self, hus, hkey⟩

/-- A template; its interpolations are parts of its token. -/
theorem template (h : Levels n) (ht : t.kind ≠ .eof) : FinishesAt t 1 (n + 1) (do
    let _ ← advance
    (rules n).template t) := by
  intro ts he hw
  have hts := he.tail ht
  have hpos := hts.weight_pos
  rw [weight_cons] at hw
  rw [bind_ok advance_cons, Rules.template]
  have hparts : ∀ p ∈ t.parts, 2 * (p.size + 1) ≤ n := by
    intro p hp
    have hle := List.single_le_sum (fun _ _ => Nat.zero_le _) _ (List.mem_map_of_mem (f := TemplatePart.size) hp)
    have : t.weight = 1 + (t.parts.map TemplatePart.size).sum := rfl
    omega
  have hread := h.templateParts t.loc hparts
  generalize (rules n).templateParts t.loc t.parts = result at hread
  cases hread with
  | ok nodes => exact .ok (List.suffix_cons t ts) hts (Nat.le_refl _)
  | lexical e => exact .lexical e
  | grammar cause line col => exact .grammar cause line col
  | pastEnd hkey =>
    obtain ⟨source, line, col, us, hmem, hus, hkey⟩ := hkey
    exact .pastEnd (.interpolation List.mem_cons_self hmem hus hkey)

theorem marked (h : Levels n) : FinishesAt t 1 (n + 1) ((rules n).marked t) := by
  rw [Rules.marked]
  have hone {p : Parser Node} {word : String} (ht : t.text = word) (hw : word ≠ "")
      (hp : t.kind ≠ .eof → FinishesAt t 1 (n + 1) p) : FinishesAt t 1 (n + 1) p :=
    .of_text (ht ▸ hw) hp
  split
  · rename_i ht
    exact hone ht (by decide) fun hk => .advance hk (.pure _)
  · rename_i ht
    exact hone ht (by decide) fun hk => .advance hk (.pure _)
  · rename_i ht
    exact hone ht (by decide) fun hk => .advance hk (.pure _)
  · rename_i ht
    refine hone ht (by decide) fun hk => .advance hk ?_
    exact (h.block.mono (by omega)).bind fun body => .pure _
  · exact h.conditional.atToken
  · exact h.selection.atToken
  · rename_i ht
    refine hone ht (by decide) fun hk => .advance hk ?_
    exact (h.parameters.mono (by omega)).bind fun params => (h.block.mono (by omega)).bind
      fun body => .pure _
  · rename_i ht
    refine hone ht (by decide) fun hk => .advance hk ?_
    exact (h.expression.mono (by omega)).bind fun inner => (expect_finishes (by decide)).bind
      fun _ => .pure _
  · exact h.array.atToken
  · exact h.object.atToken
  · exact (Finishes.fail _).atToken

theorem primary (h : Levels n) : Finishes 1 (n + 1) (rules n).primary := by
  rw [Rules.primary]
  refine .current fun t => ?_
  split
  · rename_i hk
    exact .advance (by simp [hk]) (.pure _)
  · rename_i hk
    exact .advance (by simp [hk]) (.pure _)
  · rename_i hk
    exact h.template (by simp [hk])
  · rename_i hk
    exact .advance (by simp [hk]) (.pure _)
  · exact h.marked
  · exact h.marked

/-! ## Statements -/

theorem definition (h : Levels n) (ht : t.kind ≠ .eof) : FinishesAt t 1 n (rules n).definition := by
  rw [Rules.definition]
  refine .advance ht ?_
  exact identifier_finishes.bind fun name => (expect_finishes (by decide)).bind fun _ =>
    (h.expression.mono (by omega)).bind fun x => .pure _

theorem functionDefinition (h : Levels n) : Finishes 1 n (rules n).functionDefinition := by
  rw [Rules.functionDefinition]
  refine (expect_finishes (by decide)).bind fun _ => identifier_finishes.bind fun name => ?_
  exact (h.parameters.mono (by omega)).bind fun params => (h.block.mono (by omega)).bind
    fun body => .pure _

theorem eachLoop (h : Levels n) : Finishes 1 n (rules n).eachLoop := by
  rw [Rules.eachLoop]
  refine (expect_finishes (by decide)).bind fun _ => (expect_finishes (by decide)).bind fun _ =>
    identifier_finishes.bind fun name => (expect_finishes (by decide)).bind fun _ => ?_
  exact (h.expression.mono (by omega)).bind fun items => (h.body.mono (by omega)).bind
    fun body => .pure _

theorem expressionStatement (h : Levels n) : Finishes 1 n (rules n).expressionStatement := by
  rw [Rules.expressionStatement]
  refine .current fun t => Finishes.atToken ?_
  refine h.expression.bind fun target => .current fun u => ?_
  split
  · rename_i hu
    refine .of_isAny hu (by decide) fun hk => .advance hk ?_
    exact (h.expression.mono (by omega)).bind fun value => .pure _
  · split
    · rename_i hu
      refine .of_isAny hu (by decide) fun hk => .advance hk ?_
      exact (h.expression.mono (by omega)).bind fun value => .pure _
    · exact (Finishes.pure target).atToken

theorem returnStatement (h : Levels n) (ht : t.kind ≠ .eof) :
    FinishesAt t 1 n (rules n).returnStatement := by
  rw [Rules.returnStatement]
  refine .advance ht ?_
  refine .current fun u => Finishes.atToken ?_
  split
  · exact .pure _
  · exact (h.expression.mono (by omega)).bind fun value => .pure _

/-- Looking at the token after the next takes nothing. -/
theorem second_finishes : Finishes 0 k second := by
  intro ts he _
  match ts, he with
  | [t], he => exact .ok (List.suffix_refl _) he (Nat.le_refl _)
  | _ :: t :: rest, he => exact .ok (List.suffix_refl _) he (Nat.le_refl _)

theorem anyStatement (h : Levels n) : Finishes 1 n (rules n).anyStatement := by
  rw [Rules.anyStatement]
  refine .current fun t => ?_
  split
  · exact h.expressionStatement.atToken
  · have hone {p : Parser Node} {word : String} (ht : t.text = word) (hw : word ≠ "")
        (hp : t.kind ≠ .eof → FinishesAt t 1 n p) : FinishesAt t 1 n p :=
      .of_text (ht ▸ hw) hp
    split
    · rename_i ht
      exact hone ht (by decide) h.definition
    · rename_i ht
      exact hone ht (by decide) h.definition
    · refine (second_finishes.bind fun u => ?_).atToken
      split
      · exact h.functionDefinition
      · exact h.expressionStatement
    · rename_i ht
      exact hone ht (by decide) h.returnStatement
    · rename_i ht
      exact hone ht (by decide) fun hk => .advance hk (.pure _)
    · rename_i ht
      exact hone ht (by decide) fun hk => .advance hk (.pure _)
    · rename_i ht
      exact hone ht (by decide) fun hk => .advance hk
        ((h.block.mono (by omega)).bind fun body => (Nat.sub_self 0).symm ▸ .pure _)
    · exact h.eachLoop.atToken
    · exact ((h.block.mono (by omega)).bind fun body => .pure _).atToken
    · exact h.expressionStatement.atToken

theorem postfixExpression (h : Levels n) : Finishes 1 (n + 1) (rules n).postfixExpression := by
  rw [Rules.postfixExpression, rules_bound]
  exact h.primary.bind fun node => h.suffixes node (by omega) (by omega)

theorem unaryExpression (h : Levels n) : Finishes 1 (n + 1) (rules n).unaryExpression := by
  rw [Rules.unaryExpression]
  refine .current fun t => ?_
  split
  · rename_i ht
    refine .of_isAny ht (by decide) fun hk => .advance hk (.current fun operand => ?_)
    split
    · rename_i ho
      have hk : operand.kind = .number := by simpa using (Bool.and_eq_true_iff.mp ho).2
      exact .advance (by simp [hk]) (.pure _)
    · exact ((h.unary.mono (by omega)).bind fun x => .pure _).atToken
  · exact h.postfixExpression.atToken

theorem powerExpression (h : Levels n) : Finishes 1 (n + 1) (rules n).powerExpression := by
  rw [Rules.powerExpression]
  refine h.unaryExpression.bind fun left => accept_finishes (by decide) ?_ (.pure left)
  exact (h.power.mono (by omega)).bind fun right => .pure _

theorem disjunction (h : Levels n) : Finishes 1 (n + 1) (rules n).disjunction := by
  refine chain ["||"] (by decide) (fun _ ht => ht) ?_
  refine chain ["&&"] (by decide) (fun _ ht => ht) ?_
  refine chain ["==", "!="] (by decide) (fun _ ht => ht) ?_
  refine chain ["<", "<=", ">", ">="] (by decide) (fun _ ht => ht) ?_
  refine chain ["+", "-"] (by decide) (fun _ ht => (Bool.and_eq_true_iff.mp ht).1) ?_
  exact chain ["*", "/", "%"] (by decide) (fun _ ht => ht) h.powerExpression

end Levels

/-- All levels of the rules come to an end. -/
theorem levels (n : Nat) : Levels n := by
  induction n with
  | zero =>
    have hnone {p : Parser Node} : Finishes 1 0 p := by
      intro ts he hw
      have := he.weight_pos
      omega
    exact ⟨hnone, hnone, hnone, hnone⟩
  | succ n ih =>
    exact ⟨ih.disjunction, ih.powerExpression, ih.unaryExpression, ih.anyStatement⟩

/-! ## Programs -/

theorem statementsToEnd_finishes (hk : k ≤ n - 1) (hm : k ≤ 2 * m + 1) :
    Finishes 0 k (statementsToEnd (rules n) m) := by
  induction m generalizing k with
  | zero =>
    intro ts he hw
    have := he.weight_pos
    omega
  | succ m ih =>
    rw [statementsToEnd]
    refine .current fun t => Finishes.atToken ?_
    split
    · exact .pure []
    · exact ((levels n).statement.mono hk).bind fun s => separators_finish.bind fun _ =>
        (ih (by omega) (by omega)).bind fun more => .pure _

theorem program_finishes : Finishes 0 (n - 1) (program (rules n)) := by
  rw [program, rules_bound]
  exact separators_finish.bind fun _ => statementsToEnd_finishes (by omega) (by omega)

/-- Every text is read to an end: it is a program, or it cannot be split into tokens, or its tokens are
no program, or an object literal in it ends where a key should stand. The levels of nesting are never
used up, no other token behind the last one is asked for, and each number has a value. -/
theorem parse_ends (source : String) :
    Settles (∃ ts, tokenize source 1 1 = .ok ts ∧ EndsAtKey ts) (parse source) ∧
      ∀ line col ts, tokenize source line col = .ok ts → ∀ t ∈ ts, t.Valued := by
  refine ⟨?_, fun line col ts => tokenize_valued⟩
  rw [parse]
  split
  · rename_i e _
    exact .lexical e
  · rename_i ts hts
    have hweight := tokenize_weight hts
    exact (program_finishes ts (tokenize_ended hts) (by omega)).settles fun hkey => ⟨ts, hts, hkey⟩

/-- A key is missing at the end of the text. -/
example : parse "x = \x7b" = .error .pastEnd := by cbv

end ScriptBridge.AiScript
