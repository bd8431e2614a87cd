import ScriptBridge.Proofs.AiScript.RoundTrip

/-!
# Templates in templates

The parts of a template are found by a search that does not know of templates in templates: a mark opens
a quotation, and the next one closes it. So what stands in the values of a template in a template is
searched as if it were text, what stands in the templates there as if it were code, and so on, turn by
turn. `Passable` follows these turns through a tree of templates, strings, names and calls: a string that
is taken for text must not have the mark in it, nor a text that is taken for code a quote or a brace.
With that, the parts of a template are found as they were printed, at any depth.

* `passes_text`: the search passes over the text of a passable tree.
* `Nested`: trees whose values are passable, in each of their templates.
* `written_nested`: such a tree is read as it was written.
* `template_parts`: the token of a printed template, its parts and what is read of it.
-/

namespace ScriptBridge.AiScript

variable {n : Node} {ns : List Node} {t : String} {us : List String} {level : Nat} {quoted : Bool}

/-! ## What the search passes over -/

/-- The quotation that the search is in, outside of quotations or inside of a template. -/
def mark (quoted : Bool) : Option Char :=
  if quoted then some '\x60' else none

mutual
/-- A tree whose text the search passes over, inside a quotation or outside. -/
def Passable (quoted : Bool) : Node → Prop
  | .str _ value => quoted = true → '\x60' ∉ value.toList
  | .ident _ name => IsPath name
  | .call _ target args => Passable quoted target ∧ PassableAll quoted args
  | .tmpl _ parts => PassableParts quoted parts
  | _ => False

/-- A list of such trees. -/
def PassableAll (quoted : Bool) : List Node → Prop
  | [] => True
  | n :: ns => Passable quoted n ∧ PassableAll quoted ns

/-- The parts of a template that stands inside a quotation or outside: its own marks turn the search. -/
def PassableParts (quoted : Bool) : List Node → Prop
  | [] => True
  | .str _ value :: ns =>
    (quoted = true → ∀ c ∈ value.toList, c ∉ ['"', '\'', '\x60', '\x7b', '\x7d']) ∧
      PassableParts quoted ns
  | n :: ns => Passable (!quoted) n ∧ PassableParts quoted ns
end

theorem mark_closed (quoted : Bool) : Closed (Passes (mark quoted) · (mark quoted)) := by
  cases quoted
  · exact passes_closed
  · exact passes_inside_closed

/-- The marks of a template turn the search, and turn it back. -/
theorem passes_marks {s : List Char} (h : Passes (mark !quoted) s (mark !quoted)) :
    Passes (mark quoted) ('\x60' :: s ++ ['\x60']) (mark quoted) := by
  have hturn (quoted : Bool) : Passes (mark quoted) ['\x60'] (mark !quoted) := by
    cases quoted
    · exact .opening (by decide)
    · exact .closing '\x60'
  have hback := hturn !quoted
  rw [Bool.not_not] at hback
  exact ((hturn quoted).append h).append hback

/-- The text of a template is passed over inside it. -/
theorem passes_partText {value : String}
    (h : quoted = true → ∀ c ∈ value.toList, c ∉ ['"', '\'', '\x60', '\x7b', '\x7d']) :
    Passes (mark !quoted) (templateText value).toList (mark !quoted) := by
  cases quoted with
  | false => exact passes_templateText value
  | true =>
    rw [templateText, String.toList_ofList]
    refine .flatMap fun c hc => ?_
    have hplain := h rfl c hc
    unfold templateChar
    split
    · exact (Passes.plain (c := '\\') (by decide)).append (.plain hplain)
    · exact .plain hplain

mutual
/-- The search passes over the text of a passable tree. -/
theorem passes_text (quoted : Bool) {t : String} : (n : Node) → Passable quoted n →
    text .expression level n = .ok t → Passes (mark quoted) t.toList (mark quoted)
  | .str _ value, hn, h => by
    obtain rfl := Except.ok.inj h
    cases quoted with
    | false => exact .quote value
    | true => exact .quote_inside (hn rfl)
  | .ident .., hn, h => by
    obtain rfl := Except.ok.inj h
    exact (mark_closed quoted).name hn
  | .call _ target args, hn, h => by
    simp only [text, bind_eq_ok_iff] at h
    obtain ⟨as, has, t, ht, h⟩ := h
    obtain rfl := Except.ok.inj h
    have hS := mark_closed quoted
    simp only [String.toList_append]
    exact hS.append (hS.append (hS.append (passes_text quoted target hn.1 ht)
      (hS.word "(" (by decide))) (hS.commaList (passes_texts quoted args hn.2 has)))
      (hS.word ")" (by decide))
  | .tmpl _ parts, hn, h => by
    simp only [text, bind_eq_ok_iff] at h
    obtain ⟨ss, hss, h⟩ := h
    obtain rfl := Except.ok.inj h
    rw [String.toList_append, String.toList_append, String.toList_join]
    exact passes_marks (.flatMap (passes_parts quoted parts hn hss))

theorem passes_texts (quoted : Bool) {us : List String} : (ns : List Node) → PassableAll quoted ns →
    texts .expression level ns = .ok us → ∀ t ∈ us, Passes (mark quoted) t.toList (mark quoted)
  | [], _, h => by
    obtain rfl := Except.ok.inj h
    exact List.forall_mem_nil _
  | n :: ns, hn, h => by
    simp only [texts, bind_eq_ok_iff] at h
    obtain ⟨t, ht, us, hus, h⟩ := h
    obtain rfl := Except.ok.inj h
    exact List.forall_mem_cons.mpr ⟨passes_text quoted n hn.1 ht, passes_texts quoted ns hn.2 hus⟩

theorem passes_parts (quoted : Bool) {ss : List String} : (ns : List Node) → PassableParts quoted ns →
    templateTexts level ns = .ok ss → ∀ t ∈ ss, Passes (mark !quoted) t.toList (mark !quoted)
  | [], _, h => by
    obtain rfl := Except.ok.inj h
    exact List.forall_mem_nil _
  | n :: ns, hn, h => by
    have hvalue (hn : Passable (!quoted) n) {t : String} (ht : text .expression level n = .ok t) :
        Passes (mark !quoted) ("\x7b" ++ t ++ "\x7d").toList (mark !quoted) := by
      rw [String.toList_append, String.toList_append]
      exact (mark_closed !quoted).braces (passes_text (!quoted) n hn ht)
    cases n with
    | str _ value =>
      simp only [templateTexts, bind_eq_ok_iff] at h
      obtain ⟨ss, hss, h⟩ := h
      obtain rfl := Except.ok.inj h
      exact List.forall_mem_cons.mpr ⟨passes_partText hn.1, passes_parts quoted ns hn.2 hss⟩
    | _ =>
      simp only [templateTexts, bind_eq_ok_iff] at h
      obtain ⟨t, ht, ss, hss, h⟩ := h
      obtain rfl := Except.ok.inj h
      exact List.forall_mem_cons.mpr ⟨hvalue hn.1 ht, passes_parts quoted ns hn.2 hss⟩
end

/-! ## Reading nested templates -/

mutual
/-- A tree of templates, strings, names and calls whose templates can be taken apart: their texts stand
apart from each other, and their values are passed over. -/
def Nested : Node → Prop
  | .str .. => True
  | .ident _ name => IsPath name
  | .call _ target args => Nested target ∧ NestedAll args
  | .tmpl _ parts => PartsApart parts ∧ NestedParts parts
  | _ => False

/-- A list of such trees. -/
def NestedAll : List Node → Prop
  | [] => True
  | n :: ns => Nested n ∧ NestedAll ns

/-- The parts of a template in such a tree. -/
def NestedParts : List Node → Prop
  | [] => True
  | .str .. :: ns => NestedParts ns
  | n :: ns => Nested n ∧ Passable false n ∧ NestedParts ns
end

mutual
/-- A nested tree is printed, and read as it was written. -/
theorem written_nested (level : Nat) : (n : Node) → Nested n →
    ∃ t, text .expression level n = .ok t ∧ WrittenExpression n t
  | .str l value, _ => ⟨_, rfl, written_str l value⟩
  | .ident l _, hn => ⟨_, rfl, written_ident hn l⟩
  | .call l target args, hn => by
    obtain ⟨t, ht, htarget⟩ := written_nested level target hn.1
    obtain ⟨us, hus, hargs⟩ := written_nestedAll level args hn.2
    have hcond : target.isCond = false := by
      cases target with
      | cond => exact hn.1.elim
      | _ => rfl
    refine ⟨_, ?_, written_call htarget hcond hargs l⟩
    rw [text, hus, ht]
    rfl
  | .tmpl l parts, hn => by
    obtain ⟨ss, hss, hparts⟩ := written_nestedParts level parts hn.2
    refine ⟨_, ?_, written_tmpl hparts hn.1 l⟩
    rw [text, hss]
    rfl

theorem written_nestedAll (level : Nat) : (ns : List Node) → NestedAll ns →
    ∃ us, texts .expression level ns = .ok us ∧ List.Forall₂ WrittenExpression ns us
  | [], _ => ⟨[], rfl, .nil⟩
  | n :: ns, hn => by
    obtain ⟨t, ht, hwritten⟩ := written_nested level n hn.1
    obtain ⟨us, hus, hrest⟩ := written_nestedAll level ns hn.2
    refine ⟨t :: us, ?_, .cons hwritten hrest⟩
    rw [texts, ht, hus]
    rfl

theorem written_nestedParts (level : Nat) : (ns : List Node) → NestedParts ns →
    ∃ ss, templateTexts level ns = .ok ss ∧ List.Forall₂ PartText ns ss
  | [], _ => ⟨[], rfl, .nil⟩
  | n :: ns, hn => by
    have hcode (hstr : n.isStr = false) (hnested : Nested n) (hpass : Passable false n)
        (hns : NestedParts ns) (heq : templateTexts level (n :: ns) = (do
          let t ← text .expression level n
          return ("\x7b" ++ t ++ "\x7d") :: (← templateTexts level ns))) :
        ∃ ss, templateTexts level (n :: ns) = .ok ss ∧ List.Forall₂ PartText (n :: ns) ss := by
      obtain ⟨t, ht, hwritten⟩ := written_nested level n hnested
      obtain ⟨ss, hss, hrest⟩ := written_nestedParts level ns hns
      refine ⟨_, ?_, .cons (.code hstr (passes_text false n hpass ht) hwritten.lexes) hrest⟩
      rw [heq, ht, hss]
      rfl
    cases n with
    | str l value =>
      obtain ⟨ss, hss, hrest⟩ := written_nestedParts level ns hn
      refine ⟨templateText value :: ss, ?_, .cons (.text l value) hrest⟩
      rw [templateTexts, hss]
      rfl
    | _ => exact hcode rfl hn.1 hn.2.1 hn.2.2 rfl
end

/-- A part of a template and the part of its token: a text with its value, and a value with the text
that is printed of it. -/
def Shows (n : Node) : TemplatePart → Prop
  | .text value => ∃ l, n = .str l value
  | .code source _ _ => n.isStr = false ∧ text .expression 0 n = .ok source

/-- The parts that are found are the parts that were printed. -/
theorem shows_of_splits {ss : List String} {parts : List TemplatePart} (h : Splits ns ss parts)
    (hss : templateTexts 0 ns = .ok ss) : List.Forall₂ Shows ns parts := by
  induction h with
  | nil => exact .nil
  | text l value _ ih =>
    simp only [templateTexts, bind_eq_ok_iff] at hss
    obtain ⟨ss', hss', heq⟩ := hss
    obtain rfl := (List.cons.inj (Except.ok.inj heq)).2
    exact .cons ⟨l, rfl⟩ (ih hss')
  | @code n ns ss parts hn t line col _ ih =>
    have hcode (heq : templateTexts 0 (n :: ns) = (do
          let t ← text .expression 0 n
          return ("\x7b" ++ t ++ "\x7d") :: (← templateTexts 0 ns))) :
        List.Forall₂ Shows (n :: ns) (.code t line col :: parts) := by
      rw [heq] at hss
      simp only [bind_eq_ok_iff] at hss
      obtain ⟨u, hu, ss', hss', heq⟩ := hss
      obtain ⟨htext, rfl⟩ := List.cons.inj (Except.ok.inj heq)
      obtain rfl : u = t := (String.append_right_inj _).mp ((String.append_left_inj _).mp htext)
      exact .cons ⟨hn, hu⟩ (ih hss')
    cases n with
    | str => cases hn
    | _ => exact hcode rfl

/-- A printed template is one token: its texts are the texts of the template, and its sources are what
is printed of the values. It is read back as the template. -/
theorem template_parts {l : Loc} {parts : List Node} (h : Nested (.tmpl l parts)) :
    ∃ code t last, print [.tmpl l parts] = .ok code ∧ tokenize code 1 1 = .ok [t, last] ∧
      t.kind = .template ∧ last.kind = .eof ∧
      (List.Forall₂ Shows parts t.parts ∨ t.parts = [] ∧ ∃ l, parts = [.str l ""]) ∧
      ∃ again, parse code = .ok again ∧ sameAll again [.tmpl l parts] = true := by
  obtain ⟨ss, hss, hparts⟩ := written_nestedParts 0 parts h.2
  have hwritten : WrittenStatement (.tmpl l parts) ("\x60" ++ String.join ss ++ "\x60") :=
    WrittenExpression.statement (written_tmpl hparts h.1 l) rfl
  have hprint : print [.tmpl l parts] = .ok ("\x60" ++ String.join ss ++ "\x60") := by
    rw [print, texts, text, hss]
    rfl
  obtain ⟨_, line, col, ⟨t, rfl, ht, hfound⟩, hlex⟩ := lexes_tmpl hparts h.1 1 1 false false
  have htokens := hlex [] trivial _ (tokensFrom_nil line col false false)
  rw [List.append_nil] at htokens
  refine ⟨_, t, _, hprint, htokens, ht.kind, rfl, ?_, parse_written (.cons hwritten .nil)⟩
  exact hfound.imp (fun hall => shows_of_splits hall.2.2 hss) id

/-- A template in a template in an argument of a call, with marks, quotes and braces in the texts. -/
theorem template_parts_inCall :
    let inner : Node := .tmpl {} [.str {} "\"\x60\x7b", .tmpl {} [.ident {} "x"]]
    let parts : List Node := [.str {} "\x60a", .call {} (.ident {} "f") [.str {} "\x60\x7d", inner]]
    Nested (.tmpl {} parts) ∧ ∃ code t last, print [.tmpl {} parts] = .ok code ∧
      tokenize code 1 1 = .ok [t, last] ∧ t.kind = .template ∧ last.kind = .eof ∧
      (List.Forall₂ Shows parts t.parts ∨ t.parts = [] ∧ ∃ l, parts = [.str l ""]) ∧
      ∃ again, parse code = .ok again ∧ sameAll again [.tmpl {} parts] = true := by
  intro inner parts
  have hpath (c : Char) (hc : isSegment [c] = true) (hk : keywords.contains (String.ofList [c]) = false) :
      IsPath (String.ofList [c]) :=
    ⟨[c], [], by simp [segmentsText], hc, nofun, hk⟩
  have hx : IsPath "x" := hpath 'x' (by decide) (by decide)
  have hf : IsPath "f" := hpath 'f' (by decide) (by decide)
  have hnested : Nested (.tmpl {} parts) := by
    simp [parts, inner, Nested, NestedAll, NestedParts, Passable, PassableAll, PassableParts, PartsApart,
      Node.isStr, hx, hf]
  exact ⟨hnested, template_parts hnested⟩

/-- The search takes a mark in a string, in a template in a template, for the end of a template, and the
quote behind it for the start of a string. -/
example : splitInterpolation none 0
    ['\x60', '\x7b', 'f', '(', '"', '\x60', '"', ')', '\x7d', '\x60', '\x7d', '\x60'] = none := by cbv

end ScriptBridge.AiScript
