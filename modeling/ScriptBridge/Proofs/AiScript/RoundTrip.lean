import ScriptBridge.Proofs.AiScript.Writing

/-!
# Printing and reading back

Statements that can be printed (`Printable`) are read back as they were: `print` gives a text, `parse`
reads it, and the trees are equal up to places. The proof follows the printer, one equation per form
(`written_text`), and the forms are the lemmas of `Writing`.

* `written_text`: the text of a node is read as the node, at each position.
* `parse_of_print`, `parse_print`: the round trip.
-/

namespace ScriptBridge.AiScript

open ScriptBridge.AiScript.Parser

/-- A text that is read as a node at a position. -/
def WrittenAt : Position → Node → String → Prop
  | .expression => WrittenExpression
  | .statement => WrittenStatement
  | .body => WrittenBody

variable {n : Node} {t : String} {position : Position}

theorem WrittenExpression.at (h : WrittenExpression n t)
    (ho : position ≠ .expression → n.objectLed = false) : WrittenAt position n t := by
  cases position with
  | expression => exact h
  | statement => exact WrittenExpression.statement h (ho nofun)
  | body => exact (WrittenExpression.statement h (ho nofun)).body

theorem WrittenStatement.at (h : WrittenStatement n t) (hp : position ≠ .expression) :
    WrittenAt position n t := by
  cases position with
  | expression => exact absurd rfl hp
  | statement => exact h
  | body => exact WrittenStatement.body h

/-- A node that is not an object does not begin with one where that would be a block. -/
theorem Fits.not_objectLed {s : Site} (h : Fits s n) (hn : n.isObj = false)
    (hp : s.position ≠ .expression) : n.objectLed = false := by
  by_contra ho
  have := h.2.2.2 hp (by simpa using ho)
  rw [hn] at this
  cases this

mutual
/-- The text of a node is read as the node. -/
theorem written_text {s : Site} (level : Nat) :
    (n : Node) → Everywhere Fits s n →
      ∃ t, text s.position level n = .ok t ∧ WrittenAt s.position n t
  | .num l x, hf => by
    obtain ⟨t, ht, h⟩ := written_num hf.1 l
    exact ⟨t, ht, WrittenExpression.at h (hf.not_objectLed rfl)⟩
  | .str l value, hf =>
    ⟨_, rfl, WrittenExpression.at (written_str l value) (hf.not_objectLed rfl)⟩
  | .bool l value, hf =>
    ⟨_, rfl, WrittenExpression.at (written_bool l value) (hf.not_objectLed rfl)⟩
  | .null l, hf => ⟨_, rfl, WrittenExpression.at (written_null l) (hf.not_objectLed rfl)⟩
  | .ident l name, hf =>
    ⟨_, rfl, WrittenExpression.at (written_ident hf.2.1 l) (hf.not_objectLed rfl)⟩
  | .tmpl l parts, hf => by
    obtain ⟨ss, hss, h⟩ := written_parts level parts hf.2
    refine ⟨_, ?_, WrittenExpression.at (written_tmpl h hf.1.2.2.1.1 l) (hf.1.not_objectLed rfl)⟩
    rw [text, hss]
    rfl
  | .arr l items, hf => by
    obtain ⟨us, hus, h⟩ := written_texts (s := s.operand) (level + 1) items hf.2
    refine ⟨_, ?_, WrittenExpression.at (written_array h level l) (hf.1.not_objectLed rfl)⟩
    have hus : texts .expression (level + 1) items = .ok us := hus
    rw [text, hus]
    rfl
  | .obj l entries, hf => by
    obtain ⟨us, hus, h⟩ := written_entries (s := s) (level + 1) entries hf.2
    have hobject := written_object hf.1.2.1 h level l
    by_cases hp : s.position = .expression
    · refine ⟨listText "\x7b" "\x7d" level us, ?_, ?_⟩
      · rw [text, hus, hp]
        rfl
      · rw [hp]
        exact hobject
    · refine ⟨_, ?_, WrittenStatement.at (written_parens_statement hobject) hp⟩
      rw [text, hus]
      exact congrArg Except.ok (if_neg hp)
  | .prop l target name, hf => by
    obtain ⟨t, ht, h⟩ := written_text (s := s.operand) level target hf.2
    have ht : text .expression level target = .ok t := ht
    refine ⟨_, ?_, WrittenExpression.at (written_prop h hf.1.2.2.1.1 hf.1.2.2.1.2 l)
      (hf.1.not_objectLed rfl)⟩
    rw [text, ht]
    rfl
  | .index l target key, hf => by
    obtain ⟨t, ht, h⟩ := written_text (s := s.operand) level target hf.2.1
    obtain ⟨k, hk, h'⟩ := written_text (s := s.operand) level key hf.2.2
    have ht : text .expression level target = .ok t := ht
    have hk : text .expression level key = .ok k := hk
    refine ⟨_, ?_, WrittenExpression.at (written_index h hf.1.2.2.1 h' l) (hf.1.not_objectLed rfl)⟩
    rw [text, ht, hk]
    rfl
  | .call l target args, hf => by
    obtain ⟨t, ht, h⟩ := written_text (s := s.operand) level target hf.2.1
    obtain ⟨us, hus, h'⟩ := written_texts (s := s.operand) level args hf.2.2
    have ht : text .expression level target = .ok t := ht
    have hus : texts .expression level args = .ok us := hus
    refine ⟨_, ?_, WrittenExpression.at (written_call h hf.1.2.2.1 h' l) (hf.1.not_objectLed rfl)⟩
    rw [text, ht, hus]
    rfl
  | .unary l op operand, hf => by
    obtain ⟨t, ht, h⟩ := written_text (s := s.operand) level operand hf.2
    have ht : text .expression level operand = .ok t := ht
    refine ⟨_, ?_, WrittenExpression.at (written_unary hf.1.2.1 h hf.1.2.2.1 l)
      (hf.1.not_objectLed rfl)⟩
    rw [text, ht]
    rfl
  | .binary l op left right, hf => by
    obtain ⟨t, ht, h⟩ := written_text (s := s.operand) level left hf.2.1
    obtain ⟨u, hu, h'⟩ := written_text (s := s.operand) level right hf.2.2
    have ht : text .expression level left = .ok t := ht
    have hu : text .expression level right = .ok u := hu
    have hop : op ∈ binaryOperators := hf.1.2.1
    refine ⟨_, ?_, WrittenExpression.at (written_binary hop h hf.1.2.2.1 h' l)
      (hf.1.not_objectLed rfl)⟩
    rw [text, List.contains_iff_mem.mpr hop, ht, hu]
    rfl
  | .fn l params body, hf => by
    obtain ⟨us, hus, h⟩ := written_params (s := s) level params hf.1.2.1 hf.2.1
    obtain ⟨vs, hvs, h'⟩ := written_texts (s := s.statement) (level + 1) body hf.2.2
    have hvs : texts .statement (level + 1) body = .ok vs := hvs
    refine ⟨_, ?_, WrittenExpression.at (written_fn h h' level l) (hf.1.not_objectLed rfl)⟩
    rw [text, hus, hvs]
    rfl
  | .block l statements, hf => by
    obtain ⟨us, hus, h⟩ := written_texts (s := s.statement) (level + 1) statements hf.2
    have hus : texts .statement (level + 1) statements = .ok us := hus
    by_cases hp : s.position = .body
    · refine ⟨blockText level us, ?_, ?_⟩
      · rw [text, hus, hp]
        rfl
      · rw [hp]
        exact written_block_body h level l
    · refine ⟨_, ?_, WrittenExpression.at (written_eval h level l) (hf.1.not_objectLed rfl)⟩
      rw [text, hus]
      exact congrArg Except.ok (if_neg hp)
  | .cond l test body branches otherwise, hf => by
    obtain ⟨hfits, hf₁, hf₂, hf₃, hf₄⟩ := hf
    obtain ⟨t, ht, h₁⟩ := written_text (s := s.operand) level test hf₁
    obtain ⟨b, hb, h₂⟩ := written_text (s := s.body) level body hf₂
    obtain ⟨bs, hbs, h₃⟩ := written_branches (s := s) level branches hf₃
    obtain ⟨e, he, h₄⟩ := written_else (s := s) level otherwise hf₄
    have ht : text .expression level test = .ok t := ht
    have hb : text .body level body = .ok b := hb
    refine ⟨_, ?_, WrittenExpression.at
      (written_cond h₁ h₂ h₃ h₄ hfits.2.2.1.1 hfits.2.2.1.2 l) (hfits.not_objectLed rfl)⟩
    rw [text, ht, hb, hbs, he]
    rfl
  | .select l subject arms otherwise, hf => by
    obtain ⟨hfits, hf₁, hf₂, hf₃⟩ := hf
    obtain ⟨t, ht, h₁⟩ := written_text (s := s.operand) level subject hf₁
    obtain ⟨as, has, h₂⟩ := written_arms (s := s) (level + 1) arms hf₂
    obtain ⟨e, he, h₃⟩ := written_default (s := s) (level + 1) otherwise hf₃
    have ht : text .expression level subject = .ok t := ht
    refine ⟨_, ?_, WrittenExpression.at (written_select h₁ (List.rel_append h₂ h₃) level l)
      (hfits.not_objectLed rfl)⟩
    rw [text, has, he, ht]
    rfl
  | .loop l statements, hf => by
    obtain ⟨us, hus, h⟩ := written_texts (s := s.statement) (level + 1) statements hf.2
    have hus : texts .statement (level + 1) statements = .ok us := hus
    refine ⟨_, ?_, WrittenStatement.at (written_loop h level l) hf.1.2.1⟩
    rw [text, hus]
    rfl
  | .each l item items body, hf => by
    obtain ⟨t, ht, h⟩ := written_text (s := s.operand) level items hf.2.1
    obtain ⟨b, hb, h'⟩ := written_text (s := s.body) level body hf.2.2
    have ht : text .expression level items = .ok t := ht
    have hb : text .body level body = .ok b := hb
    refine ⟨_, ?_, WrittenStatement.at (written_each hf.1.2.1.1 h h' l) hf.1.2.1.2⟩
    rw [text, ht, hb]
    rfl
  | .define l name value isMutable, hf => by
    have hname : IsPath name.text := hf.1.2.1.1
    have hp : s.position ≠ .expression := hf.1.2.1.2
    obtain ⟨t, ht, h⟩ := written_text (s := s.operand) level value hf.2
    have ht : text .expression level value = .ok t := ht
    have hother (heq : text s.position level (.define l name value isMutable) =
        defineText level name value isMutable) :
        ∃ t, text s.position level (.define l name value isMutable) = .ok t ∧
          WrittenAt s.position (.define l name value isMutable) t := by
      refine ⟨_, ?_, WrittenStatement.at (written_define hname h l) hp⟩
      rw [heq, defineText, ht]
      rfl
    cases isMutable with
    | true => cases value <;> exact hother rfl
    | false =>
      cases value with
      | fn l' params body =>
        obtain ⟨-, hfits, hf₁, hf₂⟩ := hf
        obtain ⟨us, hus, h⟩ := written_params (s := s) level params hfits.2.1 hf₁
        obtain ⟨vs, hvs, h'⟩ := written_texts (s := s.statement) (level + 1) body hf₂
        have hvs : texts .statement (level + 1) body = .ok vs := hvs
        refine ⟨_, ?_, WrittenStatement.at (written_function hname h h' level l l') hp⟩
        rw [text, hus, hvs]
        rfl
      | _ => exact hother rfl
  | .assign l target value, hf => by
    obtain ⟨t, ht, h⟩ := written_text (s := s.operand) level target hf.2.1
    obtain ⟨u, hu, h'⟩ := written_text (s := s.operand) level value hf.2.2
    have ht : text .expression level target = .ok t := ht
    have hu : text .expression level value = .ok u := hu
    have ho : target.objectLed = false := hf.1.not_objectLed rfl hf.1.2.1
    refine ⟨_, ?_, WrittenStatement.at (written_assign h hf.1.2.2.1 ho h' l) hf.1.2.1⟩
    rw [text, ht, hu]
    rfl
  | .update l op target value, hf => by
    obtain ⟨t, ht, h⟩ := written_text (s := s.operand) level target hf.2.1
    obtain ⟨u, hu, h'⟩ := written_text (s := s.operand) level value hf.2.2
    have ht : text .expression level target = .ok t := ht
    have hu : text .expression level value = .ok u := hu
    have ho : target.objectLed = false := hf.1.not_objectLed rfl hf.1.2.1.2
    refine ⟨_, ?_, WrittenStatement.at (written_update hf.1.2.1.1 h hf.1.2.2.1 ho h' l) hf.1.2.1.2⟩
    rw [text, ht, hu]
    rfl
  | .ret l value, hf => by
    obtain ⟨t, ht, h⟩ := written_text (s := s.operand) level value hf.2
    have ht : text .expression level value = .ok t := ht
    refine ⟨_, ?_, WrittenStatement.at (written_ret h l) hf.1.2.1⟩
    rw [text, ht]
    rfl
  | .exit l, hf => ⟨_, rfl, WrittenStatement.at (written_exit l) hf.2.1⟩
  | .next l, hf => ⟨_, rfl, WrittenStatement.at (written_next l) hf.2.1⟩
  | .loneParam _, hf => hf.2.1.elim
  | .loneBranch _, hf => hf.2.1.elim
  | .loneArm _, hf => hf.2.1.elim
  | .bare .., hf => hf.2.1.elim

theorem written_texts {s : Site} (level : Nat) :
    (ns : List Node) → EverywhereAll Fits s ns →
      ∃ ts, texts s.position level ns = .ok ts ∧ List.Forall₂ (WrittenAt s.position) ns ts
  | [], _ => ⟨[], rfl, .nil⟩
  | n :: ns, hf => by
    obtain ⟨t, ht, h⟩ := written_text (s := s) level n hf.1
    obtain ⟨ts, hts, h'⟩ := written_texts (s := s) level ns hf.2
    refine ⟨t :: ts, ?_, .cons h h'⟩
    rw [texts, ht, hts]
    rfl

theorem written_parts {s : Site} (level : Nat) :
    (ns : List Node) → EverywhereParts Fits s ns →
      ∃ ss, templateTexts level ns = .ok ss ∧ List.Forall₂ PartText ns ss
  | [], _ => ⟨[], rfl, .nil⟩
  | n :: ns, hf => by
    have hrest := fun h => written_parts (s := s) level ns h
    have hvalue := fun h => written_text (s := ⟨.expression, true⟩) level n h
    have hcode (hstr : n.isStr = false) (hn : Everywhere Fits ⟨.expression, true⟩ n)
        (hns : EverywhereParts Fits s ns) (heq : templateTexts level (n :: ns) = (do
          let t ← text .expression level n
          return ("\x7b" ++ t ++ "\x7d") :: (← templateTexts level ns))) :
        ∃ ss, templateTexts level (n :: ns) = .ok ss ∧ List.Forall₂ PartText (n :: ns) ss := by
      obtain ⟨t, ht, h⟩ := hvalue hn
      obtain ⟨ss, hss, h'⟩ := hrest hns
      have hscan := scans_text (s := ⟨.expression, true⟩) rfl hn ht
      have ht : text .expression level n = .ok t := ht
      refine ⟨_, ?_, .cons (.code hstr hscan h.lexes) h'⟩
      rw [heq, ht, hss]
      rfl
    cases n with
    | str l value =>
      obtain ⟨ss, hss, h⟩ := hrest hf
      refine ⟨templateText value :: ss, ?_, .cons (.text l value) h⟩
      rw [templateTexts, hss]
      rfl
    | _ => exact hcode rfl hf.1 hf.2 rfl

theorem written_entries {s : Site} (level : Nat) :
    (es : List (String × Node)) → EverywhereEntries Fits s.operand es →
      ∃ us, entryTexts level es = .ok us ∧
        List.Forall₂ (fun e u => ∃ t, u = keyText e.1 ++ ": " ++ t ∧ WrittenExpression e.2 t) es us
  | [], _ => ⟨[], rfl, .nil⟩
  | (key, n) :: es, hf => by
    obtain ⟨t, ht, h⟩ := written_text (s := s.operand) level n hf.1
    obtain ⟨us, hus, h'⟩ := written_entries (s := s) level es hf.2
    have ht : text .expression level n = .ok t := ht
    refine ⟨_, ?_, .cons ⟨t, rfl, h⟩ h'⟩
    rw [entryTexts, ht, hus]
    rfl

theorem written_params {s : Site} (level : Nat) :
    (ps : List Param) → (∀ p ∈ ps, IsPath p.name.text) → EverywhereParams Fits s.operand ps →
      ∃ us, paramTexts level ps = .ok us ∧ List.Forall₂ WrittenParam ps us
  | [], _, _ => ⟨[], rfl, .nil⟩
  | .mk _ name isOptional fallback :: ps, hn, hf => by
    obtain ⟨hname, hn⟩ := List.forall_mem_cons.mp hn
    obtain ⟨d, hd, h⟩ := written_fallback (s := s) level fallback hf.1
    obtain ⟨us, hus, h'⟩ := written_params (s := s) level ps hn hf.2
    refine ⟨_, ?_, .cons ⟨hname, d, h, rfl⟩ h'⟩
    rw [paramTexts, hd, hus]
    rfl

theorem written_fallback {s : Site} (level : Nat) :
    (o : Option Node) → EverywhereOption Fits s.operand o →
      ∃ d, fallbackText level o = .ok d ∧ WrittenFallback o d
  | none, _ => ⟨"", rfl, rfl⟩
  | some n, hf => by
    obtain ⟨t, ht, h⟩ := written_text (s := s.operand) level n hf
    have ht : text .expression level n = .ok t := ht
    refine ⟨_, ?_, t, rfl, h⟩
    rw [fallbackText, ht]
    rfl

theorem written_branches {s : Site} (level : Nat) :
    (bs : List Branch) → EverywhereBranches Fits s bs →
      ∃ us, branchTexts level bs = .ok us ∧ List.Forall₂ WrittenBranch bs us
  | [], _ => ⟨[], rfl, .nil⟩
  | .mk _ test body :: bs, hf => by
    obtain ⟨t, ht, h⟩ := written_text (s := s.operand) level test hf.1
    obtain ⟨b, hb, h'⟩ := written_text (s := s.body) level body hf.2.1
    obtain ⟨us, hus, h''⟩ := written_branches (s := s) level bs hf.2.2
    have ht : text .expression level test = .ok t := ht
    have hb : text .body level body = .ok b := hb
    refine ⟨_, ?_, .cons ⟨t, b, rfl, h, h'⟩ h''⟩
    rw [branchTexts, ht, hb, hus]
    rfl

theorem written_else {s : Site} (level : Nat) :
    (o : Option Node) → EverywhereOption Fits s.body o →
      ∃ e, elseText level o = .ok e ∧ WrittenElse o e
  | none, _ => ⟨"", rfl, rfl⟩
  | some n, hf => by
    obtain ⟨t, ht, h⟩ := written_text (s := s.body) level n hf
    have ht : text .body level n = .ok t := ht
    refine ⟨_, ?_, t, rfl, h⟩
    rw [elseText, ht]
    rfl

theorem written_arms {s : Site} (level : Nat) :
    (as : List Arm) → EverywhereArms Fits s as →
      ∃ us, armTexts level as = .ok us ∧
        List.Forall₂ WrittenLine (as.map fun | .mk _ pattern body => (some pattern, body)) us
  | [], _ => ⟨[], rfl, .nil⟩
  | .mk _ pattern body :: as, hf => by
    obtain ⟨t, ht, h⟩ := written_text (s := s.operand) level pattern hf.1
    obtain ⟨b, hb, h'⟩ := written_text (s := s.body) level body hf.2.1
    obtain ⟨us, hus, h''⟩ := written_arms (s := s) level as hf.2.2
    have ht : text .expression level pattern = .ok t := ht
    have hb : text .body level body = .ok b := hb
    refine ⟨_, ?_, .cons ⟨t, b, rfl, h, h'⟩ h''⟩
    rw [armTexts, ht, hb, hus]
    rfl

theorem written_default {s : Site} (level : Nat) :
    (o : Option Node) → EverywhereOption Fits s.body o →
      ∃ us, defaultTexts level o = .ok us ∧ List.Forall₂ WrittenLine (o.map (none, ·)).toList us
  | none, _ => ⟨[], rfl, .nil⟩
  | some n, hf => by
    obtain ⟨t, ht, h⟩ := written_text (s := s.body) level n hf
    have ht : text .body level n = .ok t := ht
    refine ⟨_, ?_, .cons ⟨t, rfl, h⟩ .nil⟩
    rw [defaultTexts, ht]
    rfl
end

/-! ## Programs -/

section Programs

variable {cost : Nat} {newline space : Bool} {ns nodes : List Node} {ts vs : List Token}

theorem statementsToEnd_eof {r : Rules} {m : Nat} {u : Token} (hu : u.kind = .eof) :
    statementsToEnd r (m + 1) [u] = .ok ([], [u]) := by
  rw [statementsToEnd, bind_ok current_cons, if_pos hu]
  rfl

theorem statementsToEnd_cons {r : Rules} {m : Nat} {u : Token} {us ws : List Token} {e : Node}
    {es : List Node} (hu : u.kind ≠ .eof) (h : r.statement (u :: us) = .ok (e, vs))
    (hskip : skipSeparators vs = .ok ((), vs)) (hrest : statementsToEnd r m vs = .ok (es, ws)) :
    statementsToEnd r (m + 1) (u :: us) = .ok (e :: es, ws) := by
  rw [statementsToEnd, bind_ok current_cons, if_neg hu, bind_ok h, bind_ok hskip, bind_ok hrest]
  rfl

/-- Statements, one after the other, up to the end of the text. -/
theorem ReadsStatement.statementsToEnd (h : ReadsStatement cost n newline space ts)
    (hns : Spread (· = []) (ReadsStatement cost) ns vs) :
    ∃ es, sameAll es (n :: ns) = true ∧ ∀ k m, cost < k → ns.length < m →
      ∀ u, u.kind = .eof → u.text = "" →
        AiScript.statementsToEnd (rules k) (m + 1) (ts ++ (vs ++ [u])) = .ok (es, [u]) := by
  induction hns generalizing n newline space ts with
  | nil =>
    obtain ⟨⟨⟨t₀, rest, rfl, -, -, hk₀, -⟩, e, he, hread⟩, -⟩ := h
    refine ⟨[e], by simp [sameAll, he], fun k m hk hm u hu htext => ?_⟩
    obtain ⟨m, rfl⟩ : ∃ j, m = j + 1 := ⟨m - 1, by omega⟩
    have hskip : skipSeparators [u] = .ok ((), [u]) :=
      skipAny_other (by simp [Token.isAny, hu, htext])
    exact statementsToEnd_cons hk₀ (hread k hk u [] (ends_of_eof hu htext n)) hskip
      (statementsToEnd_eof hu)
  | @cons n' ns _ us ts' vs hs hn' hns ih =>
    obtain rfl := hs
    obtain ⟨es, hes, hrest⟩ := ih hn'
    obtain ⟨⟨⟨t₁, rest₁, rfl, -, hspace, -, hany⟩, -⟩, -⟩ := hn'
    obtain ⟨⟨⟨t₀, rest, rfl, -, -, hk₀, -⟩, e, he, hread⟩, -⟩ := h
    refine ⟨e :: es, by simp [sameAll, he, hes], fun k m hk hm u hu htext => ?_⟩
    obtain ⟨m, rfl⟩ : ∃ j, m = j + 1 := ⟨m - 1, by omega⟩
    have hrest := hrest k m hk (by simpa using hm) u hu htext
    have hstatement := hread k hk t₁ (rest₁ ++ (vs ++ [u])) (ends_of_begins hspace hany n)
    have hskip : skipSeparators (t₁ :: (rest₁ ++ (vs ++ [u]))) = .ok ((), t₁ :: (rest₁ ++ (vs ++ [u]))) :=
      skipAny_other (Token.not_isAny_subset hany (by decide))
    simp only [List.nil_append, List.append_assoc, List.cons_append] at hrest hstatement ⊢
    exact statementsToEnd_cons hk₀ hstatement hskip hrest

/-- The tokens of a program. -/
theorem lexes_program {us : List String} (h : WrittenStatement n t)
    (hns : List.Forall₂ WrittenStatement ns us) :
    let code := "\n".intercalate (t :: us)
    Lexes Delimits code.toList fun newline space ts => ∃ us vs, ts = us ++ vs ∧
      ReadsStatement (2 * code.toList.length + 1) n newline space us ∧
      Spread (· = []) (ReadsStatement (2 * code.toList.length + 1)) ns vs ∧
      ns.length ≤ code.toList.length := by
  intro code
  have htext : code.toList = t.toList ++ spreadText [] (lineGap 0) us := by
    rw [intercalate_cons_toList]
    rfl
  have hgap : IsGap (lineGap 0) := .inr ⟨0, rfl⟩
  obtain ⟨hcount, hlength⟩ := length_spreadText [] us hgap.ne_nil
  have hcode : t.toList.length + (spreadText [] (lineGap 0) us).length = code.toList.length := by
    rw [htext, List.length_append]
  have hns' : List.Forall₂ (fun n u =>
      Lexes Delimits u.toList (ReadsStatement (2 * code.toList.length + 1) n)) ns us := by
    refine List.forall₂_iff_zip.mpr ⟨hns.length_eq, fun {m u} hmem => ?_⟩
    have hle := hlength u (List.of_mem_zip hmem).2
    exact ((List.forall₂_iff_zip.mp hns).2 hmem).lexes.imp fun _ _ _ hx => hx.mono (by omega)
  have hlex := h.lexes.trailed (trails_spread isSeparator_nil hgap hns')
  rw [← htext] at hlex
  refine hlex.imp ?_
  rintro newline space _ ⟨us', vs, rfl, hx, hvs⟩
  exact ⟨us', vs, rfl, hx.mono (by omega), hvs, by rw [hns.length_eq]; omega⟩

theorem parse_eq {code : String} {us : List Token} (htokens : tokenize code 1 1 = .ok ts)
    (h : program (rules (4 * code.length + 16)) ts = .ok (nodes, us)) : parse code = .ok nodes := by
  rw [parse, htokens]
  simp only [h]
  rfl

/-- Statements that are written one to a line are read back. -/
theorem parse_written {us : List String} (h : List.Forall₂ WrittenStatement nodes us) :
    ∃ again, parse ("\n".intercalate us) = .ok again ∧ sameAll again nodes = true := by
  cases h with
  | nil => exact ⟨[], parse_eq (tokensFrom_nil 1 1 false false) rfl, by simp [sameAll]⟩
  | @cons n t ns us hn hns =>
    obtain ⟨_, line, col, ⟨ts, vs, rfl, hts, hvs, hcount⟩, hlex⟩ := lexes_program hn hns 1 1 false false
    let last : Token := { kind := .eof, text := "", line, col }
    have htokens : tokenize ("\n".intercalate (t :: us)) 1 1 = .ok (ts ++ (vs ++ [last])) := by
      have := hlex [] trivial [last] (tokensFrom_nil line col false false)
      rwa [List.append_nil, List.append_assoc] at this
    obtain ⟨es, hes, hread⟩ := hts.statementsToEnd hvs
    have hskip : skipSeparators (ts ++ (vs ++ [last])) = .ok ((), ts ++ (vs ++ [last])) := by
      obtain ⟨⟨⟨t₀, rest, rfl, -, -, -, hany⟩, -⟩, -⟩ := hts
      exact skipAny_other (Token.not_isAny_subset hany (by decide))
    have hprogram : program (rules (4 * ("\n".intercalate (t :: us)).length + 16))
        (ts ++ (vs ++ [last])) = .ok (es, [last]) := by
      rw [program, bind_ok hskip, rules_bound, ← String.length_toList]
      exact hread _ (4 * _ + 15) (by omega) (by omega) last rfl rfl
    exact ⟨es, parse_eq htokens hprogram, hes⟩

/-- A printed text is read back as the statements that it was printed from. -/
theorem parse_of_print {code : String} (h : Printable nodes) (hprint : print nodes = .ok code) :
    ∃ again, parse code = .ok again ∧ sameAll again nodes = true := by
  obtain ⟨us, hus, hwritten⟩ := written_texts (s := ⟨.statement, false⟩) 0 nodes h
  have hus : texts .statement 0 nodes = .ok us := hus
  rw [print, hus] at hprint
  cases hprint
  exact parse_written hwritten

/-- Statements that can be printed are read back as they were. -/
theorem parse_print (h : Printable nodes) :
    ∃ code again, print nodes = .ok code ∧ parse code = .ok again ∧ sameAll again nodes = true := by
  obtain ⟨us, hus, -⟩ := written_texts (s := ⟨.statement, false⟩) 0 nodes h
  have hus : texts .statement 0 nodes = .ok us := hus
  have hprint : print nodes = .ok ("\n".intercalate us) := by
    rw [print, hus]
    rfl
  obtain ⟨again, hparse, hsame⟩ := parse_of_print h hprint
  exact ⟨_, again, hprint, hparse, hsame⟩

/-- A definition with a call for its value, read back. -/
theorem parse_print_call :
    let nodes : List Node :=
      [.define {} ⟨"x", {}⟩ (.call {} (.ident {} "f") [.num {} (.ofNat 1), .str {} "a"]) false]
    Printable nodes ∧ ∃ code again, print nodes = .ok code ∧ parse code = .ok again ∧
      sameAll again nodes = true := by
  intro nodes
  have hpath (c : Char) (hc : isSegment [c] = true) (hk : keywords.contains (String.ofList [c]) = false) :
      IsPath (String.ofList [c]) := by
    exact ⟨[c], [], by simp [segmentsText], hc, nofun, hk⟩
  have hx : IsPath "x" := hpath 'x' (by decide) (by decide)
  have hf : IsPath "f" := hpath 'f' (by decide) (by decide)
  have hone : (Double.ofNat 1).isFinite = true := by decide +kernel
  have hprintable : Printable nodes := by
    simp [nodes, Printable, EverywhereAll, Everywhere, Fits, Finite, Formed, Apart, PartsStandApart,
      Node.isCond, Node.objectLed, Site.operand, hx, hf, hone]
  exact ⟨hprintable, parse_print hprintable⟩

end Programs

end ScriptBridge.AiScript
