import ScriptBridge.Proofs.AiScript.Pieces
import ScriptBridge.Proofs.AiScript.Scanning

/-!
# Templates

A template is one token, whose parts are its texts and the sources of its interpolations. The sources
are lexed and read on their own, so a value in a template is read as it would be anywhere else.

* `PartText`: how a part of a template is written.
* `readTemplate_parts`: the parts of a template are found again.
* `written_tmpl`: a template is read as it was written.
-/

namespace ScriptBridge.AiScript

open ScriptBridge.AiScript.Parser

variable {t : Token} {newline space : Bool} {cost : Nat} {n : Node} {ns ms : List Node} {l : Loc}

/-! ## Reading the parts -/

/-- The parts of a template token, read as nodes. -/
def ReadsParts (cost : Nat) (ns : List Node) (parts : List TemplatePart) : Prop :=
  ∀ loc, ∃ es, sameAll es ns = true ∧ ∀ k, cost ≤ k → (rules k).templateParts loc parts = .ok es

/-- A template without parts stands for one with an empty text. -/
def Fills (ms ns : List Node) : Prop :=
  (ms = ns ∧ ns ≠ []) ∨ (ms = [] ∧ ∃ l, ns = [.str l ""])

theorem reads_tmpl (ht : t.Is .template "\x60" newline space) (h : ReadsParts cost ms t.parts)
    (hf : Fills ms ns) (hc : 0 < cost) : ReadsExpression cost (.tmpl l ns) newline space [t] := by
  have hany (words : List String) : t.isAny words = false := by simp [Token.isAny, ht.kind]
  have hlead : Leads (.tmpl l ns) t.newlineBefore t.spaceBefore [t] :=
    .of_kind (.inr (.inl ht.kind)) (hany _) (hany _)
  rw [ht.newline, ht.space] at hlead
  obtain ⟨es, hes, hread⟩ := h t.loc
  let parts := if es.isEmpty then [.str t.loc ""] else es
  have hsame : sameAll parts ns = true := by
    rcases hf with ⟨rfl, hne⟩ | ⟨rfl, l', rfl⟩
    · cases es with
      | nil =>
        cases ms with
        | nil => exact absurd rfl hne
        | cons m ms => simp [sameAll] at hes
      | cons e es => exact hes
    · cases es with
      | nil => simp [parts, sameAll, Node.same]
      | cons e es => simp [sameAll] at hes
  refine ⟨hc, hlead, .of_primary (e := .tmpl t.loc parts) (by simpa [Node.same]) hc ?_⟩
  intro k hk u more _
  rw [List.singleton_append, Rules.primary, bind_ok current_cons]
  simp only [ht.kind]
  rw [bind_ok advance_cons, Rules.template]
  have hlift : (liftM ((rules k).templateParts t.loc t.parts) : Parser (List Node)) (u :: more) =
      .ok (es, u :: more) := by
    rw [hread k hk]
    rfl
  rw [bind_ok hlift]
  rfl

/-- The source of an interpolation is read as an expression. -/
theorem reads_interpolation {s : List Char} (h : Lexes Delimits s (ReadsExpression cost n))
    (line col : Nat) : ∃ e : Node, e.same n = true ∧ ∀ k, cost < k →
      (rules k).interpolation (String.ofList s) line col = .ok e := by
  obtain ⟨ts, line', col', hp, hs⟩ := h line col false false
  obtain ⟨e, he, hx⟩ := hp.expression
  let last : Token := { kind := .eof, text := "", line := line', col := col' }
  have htokens : tokensFrom ⟨s, line, col⟩ false false = .ok (ts ++ [last]) := by
    have := hs [] trivial [last] (tokensFrom_nil line' col' false false)
    rwa [List.append_nil] at this
  refine ⟨e, he, fun k hk => ?_⟩
  have hread := hx k hk last [] (ends_of_eof rfl rfl n).follows
  rw [Rules.interpolation, tokenize, String.toList_ofList, htokens]
  simp only
  rw [bind_ok hread]
  rfl

/-! ## Finding the parts -/

/-- How a part of a template is written: a text with escapes, or a value in braces. -/
inductive PartText : Node → String → Prop
  | text (l : Loc) (value : String) : PartText (.str l value) (templateText value)
  | code {n : Node} {t : String} (hn : n.isStr = false) (hp : Passes none t.toList none)
      (ht : Lexes Delimits t.toList (ReadsExpression (2 * t.toList.length) n)) :
      PartText n ("\x7b" ++ t ++ "\x7d")

/-- The parts that are found of written parts: a text for a text, and for a value its source, which is
what stands between the braces. -/
inductive Splits : List Node → List String → List TemplatePart → Prop
  | nil : Splits [] [] []
  | text {ns : List Node} {ss : List String} {parts : List TemplatePart} (l : Loc) (value : String)
      (h : Splits ns ss parts) :
      Splits (.str l value :: ns) (templateText value :: ss) (.text value :: parts)
  | code {n : Node} {ns : List Node} {ss : List String} {parts : List TemplatePart}
      (hn : n.isStr = false) (t : String) (line col : Nat) (h : Splits ns ss parts) :
      Splits (n :: ns) (("\x7b" ++ t ++ "\x7d") :: ss) (.code t line col :: parts)

theorem readTemplate_close (line col : Nat) (acc rest : List Char) :
    readTemplate line col acc ('\x60' :: rest) = .ok (consText acc [], ⟨rest, line, col + 1⟩) := by
  rw [readTemplate]
  · simp
  · simp
  · simp

theorem readTemplate_char (line col : Nat) (acc : List Char) (c : Char) :
    ∃ line' col', ∀ rest, readTemplate line col acc (templateChar c ++ rest) =
      readTemplate line' col' (c :: acc) rest := by
  unfold templateChar
  split
  · exact ⟨line, col + 2, fun rest => by rw [List.cons_append, List.singleton_append, readTemplate]⟩
  · rename_i h
    simp only [Bool.or_eq_true, beq_iff_eq, not_or] at h
    by_cases hc : c = '\n'
    · refine ⟨line + 1, 1, fun rest => ?_⟩
      rw [List.singleton_append, readTemplate]
      · simp [hc]
      · simp [h]
      · simp [h]
    · refine ⟨line, col + 1, fun rest => ?_⟩
      rw [List.singleton_append, readTemplate]
      · simp [hc, h]
      · simp [h]
      · simp [h]

theorem readTemplate_text (line col : Nat) (acc cs : List Char) :
    ∃ line' col', ∀ rest, readTemplate line col acc (cs.flatMap templateChar ++ rest) =
      readTemplate line' col' (cs.reverse ++ acc) rest := by
  induction cs generalizing line col acc with
  | nil => exact ⟨line, col, fun rest => rfl⟩
  | cons c cs ih =>
    obtain ⟨line₁, col₁, hc⟩ := readTemplate_char line col acc c
    obtain ⟨line₂, col₂, hcs⟩ := ih line₁ col₁ (c :: acc)
    refine ⟨line₂, col₂, fun rest => ?_⟩
    rw [List.flatMap_cons, List.append_assoc, hc, hcs]
    simp

theorem readTemplate_code {s : List Char} (hp : Passes none s none) (line col : Nat) (acc : List Char) :
    ∃ line' col', ∀ rest parts done, readTemplate line' col' [] rest = .ok (parts, done) →
      readTemplate line col acc ('\x7b' :: s ++ '\x7d' :: rest) =
        .ok (consText acc (.code (String.ofList s) line (col + 1) :: parts), done) := by
  refine ⟨(advancePlace s (line, col + 1)).1, (advancePlace s (line, col + 1)).2 + 1, ?_⟩
  intro rest parts done h
  have hclose : splitInterpolation none 0 ('\x7d' :: rest) = some ([], rest) := by
    rw [splitInterpolation.eq_def]
    simp
  have hsplit := hp 0 _ _ hclose
  rw [List.append_nil] at hsplit
  rw [List.cons_append, readTemplate]
  · simp only [Char.reduceBEq, Bool.false_eq_true, if_false, if_true]
    split
    · rename_i hnone
      rw [hsplit] at hnone
      cases hnone
    · rename_i inside after hsome
      rw [hsplit] at hsome
      cases hsome
      rw [h]
      rfl
  · nofun
  · nofun

/-- The parts of a template are found again. A text that is being collected (`acc`) is not followed by
another one, which would be added to it. -/
theorem readTemplate_parts {ss : List String} (h : List.Forall₂ PartText ns ss)
    (hempty : ∀ l, .str l "" ∉ ns) (hchain : ns.IsChain fun n m => n.isStr = false ∨ m.isStr = false)
    (hcost : ∀ s ∈ ss, 2 * s.toList.length ≤ cost) (line col : Nat) (acc : List Char)
    (hacc : acc ≠ [] → ∀ n ∈ ns.head?, n.isStr = false) :
    ∃ parts line' col', (ReadsParts cost ns parts ∧ Splits ns ss parts) ∧ ∀ rest,
      readTemplate line col acc (ss.flatMap String.toList ++ '\x60' :: rest) =
        .ok (consText acc parts, ⟨rest, line', col'⟩) := by
  induction h generalizing line col acc with
  | nil =>
    refine ⟨[], line, col + 1, ⟨fun loc => ⟨[], by simp [sameAll], fun k _ => rfl⟩, .nil⟩,
      fun rest => ?_⟩
    exact readTemplate_close line col acc rest
  | @cons n s ns ss hpart hrest ih =>
    have hempty' : ∀ l, .str l "" ∉ ns := fun l hm => hempty l (List.mem_cons_of_mem _ hm)
    have hcost' : ∀ s ∈ ss, 2 * s.toList.length ≤ cost := fun s hs => hcost s (by simp [hs])
    cases hpart with
    | text l value =>
      obtain rfl : acc = [] := by
        by_contra hne
        exact absurd (hacc hne _ rfl) (by simp [Node.isStr])
      have hvalue : value.toList ≠ [] := by
        intro hv
        refine hempty l ?_
        rw [String.toList_eq_nil_iff.mp hv]
        exact List.mem_cons_self
      obtain ⟨line₁, col₁, htext⟩ := readTemplate_text line col [] value.toList
      obtain ⟨parts, line', col', ⟨hparts, hsplits⟩, hread⟩ := ih hempty' hchain.tail hcost' line₁ col₁
        (value.toList.reverse ++ []) fun _ m hm => by
          cases ns with
          | nil => cases hm
          | cons m' ns =>
            obtain rfl := Option.some.inj hm
            exact (List.isChain_cons_cons.mp hchain).1.resolve_left (by simp [Node.isStr])
      have hcons : consText (value.toList.reverse ++ []) parts = .text value :: parts := by
        simp [consText, hvalue]
      refine ⟨.text value :: parts, line', col', ⟨fun loc => ?_, .text l value hsplits⟩, fun rest => ?_⟩
      · obtain ⟨es, hes, hk⟩ := hparts loc
        refine ⟨.str loc value :: es, by simp [sameAll, Node.same, hes], fun k hle => ?_⟩
        rw [Rules.templateParts, hk k hle]
        rfl
      · rw [List.flatMap_cons, List.append_assoc, templateText, String.toList_ofList, htext, hread, hcons]
        rfl
    | @code _ t hn hp ht =>
      obtain ⟨line₁, col₁, hcode⟩ := readTemplate_code hp line col acc
      obtain ⟨parts, line', col', ⟨hparts, hsplits⟩, hread⟩ := ih hempty' hchain.tail hcost' line₁ col₁ []
        fun hne => absurd rfl hne
      obtain ⟨e, he, hx⟩ := reads_interpolation ht line (col + 1)
      have hlength := hcost _ List.mem_cons_self
      simp only [String.toList_append, List.length_append] at hlength
      refine ⟨.code (String.ofList t.toList) line (col + 1) :: parts, line', col', ⟨fun loc => ?_, ?_⟩,
        fun rest => ?_⟩
      · obtain ⟨es, hes, hk⟩ := hparts loc
        refine ⟨e :: es, by simp [sameAll, he, hes], fun k hle => ?_⟩
        have hpos : 0 < "\x7b".toList.length := by decide
        rw [Rules.templateParts, hx k (by omega), hk k hle]
        rfl
      · rw [String.ofList_toList]
        exact .code hn t line (col + 1) hsplits
      · have := hcode _ parts _ (hread rest)
        simpa [String.toList_append] using this

/-- The parts of the token of a template: there is one for each part that was written, but none for an
empty text on its own. -/
def Found (cost : Nat) (ns : List Node) (ss : List String) (parts : List TemplatePart) : Prop :=
  (ns ≠ [] ∧ ReadsParts cost ns parts ∧ Splits ns ss parts) ∨ (parts = [] ∧ ∃ l, ns = [.str l ""])

theorem Found.fills {parts : List TemplatePart} {ss : List String} (h : Found cost ns ss parts) :
    ∃ ms, ReadsParts cost ms parts ∧ Fills ms ns := by
  rcases h with ⟨hne, hreads, -⟩ | ⟨rfl, hempty⟩
  · exact ⟨ns, hreads, .inl ⟨rfl, hne⟩⟩
  · exact ⟨[], fun loc => ⟨[], by simp [sameAll], fun k _ => rfl⟩, .inr ⟨rfl, hempty⟩⟩

/-- A template is one token. -/
theorem lexes_tmpl {ss : List String} (h : List.Forall₂ PartText ns ss) (hns : PartsApart ns) :
    let code := ("\x60" ++ String.join ss ++ "\x60").toList
    Lexes Delimits code fun newline space ts =>
      ∃ t : Token, ts = [t] ∧ t.Is .template "\x60" newline space ∧ Found (2 * code.length) ns ss t.parts := by
  intro code
  have htext : code = '\x60' :: (ss.flatMap String.toList ++ ['\x60']) := by
    simp [code, String.toList_append, String.toList_join]
  have hlen : ∀ s ∈ ss, s.toList.length ≤ (ss.flatMap String.toList).length := by
    intro s hs
    obtain ⟨before, after, rfl⟩ := List.append_of_mem hs
    simp only [List.flatMap_append, List.flatMap_cons, List.length_append]
    omega
  rw [htext]
  let cost := 2 * ('\x60' :: (ss.flatMap String.toList ++ ['\x60'])).length
  have hcost : ∀ s ∈ ss, 2 * s.toList.length ≤ cost := by
    intro s hs
    have := hlen s hs
    simp only [cost, List.length_cons, List.length_append, List.length_nil]
    omega
  have hparts (line col : Nat) : ∃ parts line' col', Found cost ns ss parts ∧
      ∀ rest, readTemplate line col [] (ss.flatMap String.toList ++ '\x60' :: rest) =
        .ok (parts, ⟨rest, line', col'⟩) := by
    rcases hns with ⟨l, rfl⟩ | ⟨hne, hempty, hchain⟩
    · obtain _ | ⟨hpart, _ | _⟩ := h
      cases hpart with
      | text => exact ⟨[], line, col + 1, .inr ⟨rfl, l, rfl⟩, readTemplate_close line col []⟩
      | code hn => cases hn
    · obtain ⟨parts, line', col', ⟨hreads, hsplits⟩, hread⟩ :=
        readTemplate_parts h hempty hchain hcost line col [] fun hne => absurd rfl hne
      exact ⟨parts, line', col', .inl ⟨hne, hreads, hsplits⟩, hread⟩
  refine lexes_token fun line col => ?_
  obtain ⟨parts, line', col', hfound, hread⟩ := hparts line (col + 1)
  refine ⟨parts, line', col', hfound, fun rest _ => ?_⟩
  have hread := hread rest
  simp [step, isDigit, hread]

/-- A template is read as it was written. -/
theorem written_tmpl {ss : List String} (h : List.Forall₂ PartText ns ss) (hns : PartsApart ns)
    (l : Loc) : Written (fun len => ReadsExpression (2 * len) (.tmpl l ns))
      ("\x60" ++ String.join ss ++ "\x60") := by
  refine ⟨by simp [String.toList_append], (lexes_tmpl h hns).imp ?_⟩
  rintro newline space _ ⟨t, rfl, ht, hfound⟩
  obtain ⟨ms, hms, hfills⟩ := hfound.fills
  exact reads_tmpl ht hms hfills (by simp [String.toList_append])

end ScriptBridge.AiScript
