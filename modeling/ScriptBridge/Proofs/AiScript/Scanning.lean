import ScriptBridge.Data.Outcome
import ScriptBridge.Proofs.AiScript.Layout
import ScriptBridge.Proofs.AiScript.Printable

/-!
# Looking for the end of an interpolation

The end of an interpolation is looked for among the characters, before there are tokens: braces are
counted and quotations are passed over. The text of a node is passed over whole, from outside a
quotation (`scans_text`), and, if it has no template mark in it, from inside a template as well.

* `Passes q s q'`: the search passes over `s` and goes from the quotation `q` to `q'`.
* `Closed S`: a property of texts that the printer preserves.
* `closed_text`: such a property holds of all texts that the printer writes.
-/

namespace ScriptBridge.AiScript

/-! ## Passing over a text -/

/-- The search for the end of an interpolation passes over a text. -/
def Passes (q : Option Char) (s : List Char) (q' : Option Char) : Prop :=
  ∀ depth rest r, splitInterpolation q' depth rest = some r →
    splitInterpolation q depth (s ++ rest) = some (s ++ r.1, r.2)

namespace Passes

variable {q q' q'' : Option Char} {s s' : List Char}

theorem nil : Passes q [] q :=
  fun _ _ _ h => h

theorem append (h : Passes q s q') (h' : Passes q' s' q'') : Passes q (s ++ s') q'' := by
  intro depth rest r hr
  rw [List.append_assoc, h depth _ _ (h' depth rest r hr), List.append_assoc]

theorem flatMap {α : Type} {items : List α} {f : α → List Char} (h : ∀ x ∈ items, Passes q (f x) q) :
    Passes q (items.flatMap f) q := by
  induction items with
  | nil => exact nil
  | cons x items ih =>
    rw [List.flatMap_cons]
    exact (h x (by simp)).append (ih fun y hy => h y (by simp [hy]))

theorem plain {c : Char} (h : c ∉ ['"', '\'', '\x60', '\x7b', '\x7d']) : Passes none [c] none := by
  intro depth rest r hr
  simp only [List.mem_cons, List.not_mem_nil, or_false, not_or] at h
  rw [List.singleton_append, splitInterpolation.eq_def]
  simp [h, hr, splitInterpolation.push]

theorem braces (h : Passes none s none) : Passes none ('\x7b' :: s ++ ['\x7d']) none := by
  intro depth rest r hr
  have hclose : splitInterpolation none (depth + 1) ('\x7d' :: rest) = some ('\x7d' :: r.1, r.2) := by
    rw [splitInterpolation.eq_def]
    simp [hr, splitInterpolation.push]
  rw [List.append_assoc, List.cons_append, List.singleton_append, splitInterpolation.eq_def]
  simp [h (depth + 1) _ _ hclose, splitInterpolation.push]

theorem quoted {c d : Char} (hd : c ≠ d) (hb : c ≠ '\\') : Passes (some d) [c] (some d) := by
  intro depth rest r hr
  rw [List.singleton_append, splitInterpolation.eq_def]
  simp [hd, hb, hr, splitInterpolation.push]

theorem escaped {c d : Char} (hd : d ≠ '\\') : Passes (some d) ['\\', c] (some d) := by
  intro depth rest r hr
  rw [List.cons_append, List.singleton_append, splitInterpolation.eq_def]
  simp [Ne.symm hd, hr, splitInterpolation.push]

theorem opening {c : Char} (h : c ∈ ['"', '\'', '\x60']) : Passes none [c] (some c) := by
  intro depth rest r hr
  rw [List.singleton_append, splitInterpolation.eq_def]
  simp only [List.mem_cons, List.not_mem_nil, or_false] at h
  simp [h, or_assoc, hr, splitInterpolation.push]

theorem closing (c : Char) : Passes (some c) [c] none := by
  intro depth rest r hr
  rw [List.singleton_append, splitInterpolation.eq_def]
  simp [hr, splitInterpolation.push]

/-- A string is passed over from outside. -/
theorem quote (value : String) : Passes none (AiScript.quote value).toList none := by
  have hchar : ∀ c : Char, Passes (some '"') (quoteChar c) (some '"') := by
    intro c
    unfold quoteChar
    split
    case h_6 h₁ h₂ _ _ _ => exact quoted (fun h => h₂ h) (fun h => h₁ h)
    all_goals exact escaped (by decide)
  rw [AiScript.quote, String.toList_ofList]
  exact (opening (c := '"') (by decide)).append
    ((flatMap fun c _ => hchar c).append (closing '"'))

/-- A string without the mark of a template is passed over inside a template. -/
theorem quote_inside {value : String} (h : '\x60' ∉ value.toList) :
    Passes (some '\x60') (AiScript.quote value).toList (some '\x60') := by
  have hchar : ∀ c ∈ value.toList, Passes (some '\x60') (quoteChar c) (some '\x60') := by
    intro c hc
    have hmark : c ≠ '\x60' := fun he => h (he ▸ hc)
    unfold quoteChar
    split
    case h_6 h₁ _ _ _ _ => exact quoted hmark (fun h => h₁ h)
    all_goals exact escaped (by decide)
  have hquote : Passes (some '\x60') ['"'] (some '\x60') := quoted (by decide) (by decide)
  rw [AiScript.quote, String.toList_ofList]
  exact hquote.append ((flatMap hchar).append hquote)

end Passes

/-! ## Properties of all texts -/

/-- The characters that mean something to the search. -/
def searchMarks : List Char :=
  ['"', '\'', '\x60', '\\', '\x7b', '\x7d']

/-- A property of texts that the printer preserves. -/
structure Closed (S : List Char → Prop) : Prop where
  nil : S []
  append : ∀ {s s'}, S s → S s' → S (s ++ s')
  plain : ∀ {c}, c ∉ searchMarks → S [c]
  braces : ∀ {s}, S s → S ('\x7b' :: s ++ ['\x7d'])

theorem passes_closed : Closed (Passes none · none) := by
  have hmarks : ['"', '\'', '\x60', '\x7b', '\x7d'] ⊆ searchMarks := by decide
  exact ⟨.nil, .append, fun h => .plain fun hc => h (hmarks hc), .braces⟩

theorem passes_inside_closed : Closed (Passes (some '\x60') · (some '\x60')) := by
  refine ⟨.nil, .append, fun h => ?_, fun h => ?_⟩
  · exact .quoted (fun he => h (by simp [he, searchMarks])) fun he => h (by simp [he, searchMarks])
  · have hbrace (c : Char) (hc : c ∈ ['\x7b', '\x7d']) : Passes (some '\x60') [c] (some '\x60') := by
      have hall : ∀ c ∈ ['\x7b', '\x7d'], c ≠ '\x60' ∧ c ≠ '\\' :=
        List.all_iff_forall_prop.mp (by decide)
      exact .quoted (hall c hc).1 (hall c hc).2
    exact ((hbrace '\x7b' (by simp)).append h).append (hbrace '\x7d' (by simp))

namespace Closed

variable {S : List Char → Prop} {s : List Char}

theorem plains (hS : Closed S) (h : ∀ c ∈ s, c ∉ searchMarks) : S s := by
  induction s with
  | nil => exact hS.nil
  | cons c s ih => exact hS.append (hS.plain (h c (by simp))) (ih fun d hd => h d (by simp [hd]))

/-- A text without marks. -/
theorem word (hS : Closed S) (w : String) (h : w.toList.all (· ∉ searchMarks) = true) : S w.toList :=
  hS.plains (List.all_iff_forall_prop.mp h)

theorem flatMap {α : Type} {items : List α} {f : α → List Char} (hS : Closed S)
    (h : ∀ x ∈ items, S (f x)) : S (items.flatMap f) := by
  induction items with
  | nil => exact hS.nil
  | cons x items ih =>
    rw [List.flatMap_cons]
    exact hS.append (h x (by simp)) (ih fun y hy => h y (by simp [hy]))

theorem lineGap (hS : Closed S) (level : Nat) : S (AiScript.lineGap level) := by
  refine hS.plains fun c hc => ?_
  rw [AiScript.lineGap, indent, String.toList_ofList, List.mem_cons, List.mem_replicate] at hc
  rcases hc with rfl | ⟨-, rfl⟩ <;> decide

theorem spreadText {separator gap : List Char} {items : List String} (hS : Closed S) (hs : S separator)
    (hg : S gap) (h : ∀ t ∈ items, S t.toList) : S (AiScript.spreadText separator gap items) :=
  hS.flatMap fun t ht => hS.append hs (hS.append hg (h t ht))

theorem commaList {items : List String} (hS : Closed S) (h : ∀ t ∈ items, S t.toList) :
    S (", ".intercalate items).toList := by
  cases items with
  | nil => exact hS.nil
  | cons t items =>
    rw [commaList_toList]
    exact hS.append (h t (by simp)) (hS.spreadText (hS.plain (by decide)) (hS.plain (by decide))
      fun u hu => h u (by simp [hu]))

/-- The brackets around items. -/
def bracketPairs : List (String × String) :=
  [("[", "]"), ("\x7b", "\x7d")]

theorem between {left right : String} (hS : Closed S) (hb : (left, right) ∈ bracketPairs) (h : S s) :
    S (left.toList ++ (s ++ right.toList)) := by
  simp only [bracketPairs, List.mem_cons, Prod.mk.injEq, List.not_mem_nil, or_false] at hb
  rcases hb with ⟨rfl, rfl⟩ | ⟨rfl, rfl⟩
  · exact hS.append (hS.plain (by decide)) (hS.append h (hS.plain (by decide)))
  · exact hS.braces h

theorem bracketLines {left right separator : String} {level : Nat} {lines : List String}
    (hS : Closed S) (hb : (left, right) ∈ bracketPairs) (hs : S separator.toList) (hne : lines ≠ [])
    (h : ∀ t ∈ lines, S t.toList) : S (AiScript.bracketLines left right separator level lines).toList := by
  obtain ⟨t, ts, rfl⟩ := List.exists_cons_of_ne_nil hne
  rw [bracketLines_toList, ← List.append_assoc _ (AiScript.lineGap level)]
  refine hS.between hb (hS.append (hS.append (hS.append (hS.lineGap _) (h t (by simp))) ?_)
    (hS.lineGap _))
  exact hS.spreadText hs (hS.lineGap _) fun u hu => h u (by simp [hu])

theorem blockText {level : Nat} {statements : List String} (hS : Closed S)
    (h : ∀ t ∈ statements, S t.toList) : S (AiScript.blockText level statements).toList := by
  rw [AiScript.blockText]
  split
  · exact hS.braces hS.nil
  · rename_i hne
    exact hS.bracketLines (by simp [bracketPairs]) hS.nil (by simpa using hne) h

theorem listText {left right : String} {level : Nat} {items : List String} (hS : Closed S)
    (hb : (left, right) ∈ bracketPairs) (h : ∀ t ∈ items, S t.toList) :
    S (AiScript.listText left right level items).toList := by
  rw [AiScript.listText]
  split
  · rename_i hany
    refine hS.bracketLines hb (hS.word "," (by decide)) ?_ h
    rintro rfl
    cases hany
  · rw [String.toList_append, String.toList_append, List.append_assoc]
    exact hS.between hb (hS.commaList h)

theorem loopText {level : Nat} {statements : List String} (hS : Closed S)
    (h : ∀ t ∈ statements, S t.toList) : S (AiScript.loopText level statements).toList := by
  have hblock : S ("loop " ++ AiScript.blockText level statements).toList := by
    rw [String.toList_append]
    exact hS.append (hS.word "loop " (by decide)) (hS.blockText h)
  unfold AiScript.loopText
  split
  · rename_i t
    split
    · exact hblock
    · have hinside : S (' ' :: t.toList ++ [' ']) :=
        hS.append (hS.append (hS.plain (c := ' ') (by decide)) (h t (by simp)))
          (hS.plain (by decide))
      have hloop := hS.append (hS.word "loop " (by decide)) (hS.braces hinside)
      simpa [String.toList_append] using hloop
  · exact hblock

theorem segment (hS : Closed S) (h : isSegment s = true) : S s := by
  have hpart : ∀ m ∈ searchMarks, isNamePart m = false :=
    List.all_iff_forall_prop.mp (by decide)
  refine hS.plains fun c hc hm => ?_
  have := isSegment_namePart h c hc
  rw [hpart c hm] at this
  cases this

theorem name {w : String} (hS : Closed S) (h : IsPath w) : S w.toList := by
  obtain ⟨first, more, hw, hfirst, hmore, -⟩ := h
  rw [hw]
  refine hS.append (hS.segment hfirst) (hS.flatMap fun segment hs => ?_)
  exact hS.append (s := [':']) (hS.plain (by decide)) (hS.segment (hmore segment hs))

theorem number {x : Double} {t : String} (hS : Closed S) (hx : x.isFinite = true)
    (h : numberText x = .ok t) : S t.toList := by
  have hchar : ∀ m ∈ searchMarks, isNumeralChar m = false :=
    List.all_iff_forall_prop.mp (by decide)
  obtain ⟨n, hn, -⟩ := writeMagnitude_numeral numberLayout hx
  have hmagnitude : S (numberLayout.writeMagnitude x).toList := by
    rw [hn, String.toList_ofList]
    refine hS.plains fun c hc hm => ?_
    have := n.text_chars c hc
    rw [hchar c hm] at this
    cases this
  rw [numberText, hx] at h
  simp only [Bool.not_true, Bool.false_eq_true, if_false] at h
  split at h
  · obtain rfl := Except.ok.inj h
    rw [String.toList_append, String.toList_append]
    exact hS.append (hS.append (hS.word "(-" (by decide)) hmagnitude) (hS.word ")" (by decide))
  · obtain rfl := Except.ok.inj h
    exact hmagnitude

end Closed

/-- A property of texts that the printer preserves, for trees that satisfy `D`. -/
structure Carries (S : List Char → Prop) (D : Site → Node → Prop) : Prop extends Closed S where
  str : ∀ {s l value}, D s (.str l value) → S (quote value).toList
  key : ∀ {s l entries}, D s (.obj l entries) → ∀ e ∈ entries, S (quote e.1).toList
  tmpl : ∀ {s l parts level t}, s.interpolated = true → D s (.tmpl l parts) →
    EverywhereParts Fits s parts → Fits s (.tmpl l parts) →
    text s.position level (.tmpl l parts) = .ok t → S t.toList

section Texts

variable {S : List Char → Prop} {D : Site → Node → Prop}

theorem Carries.keyText {s : Site} {l : Loc} {entries : List (String × Node)} (hS : Carries S D)
    (h : D s (.obj l entries)) : ∀ e ∈ entries, S (keyText e.1).toList := by
  intro e he
  unfold AiScript.keyText
  split
  · rename_i hplain
    exact hS.name (isPath_of_plainKey hplain)
  · exact hS.key h e he

mutual
/-- A property that the printer preserves holds of the text of a node. -/
theorem closed_text (hS : Carries S D) {s : Site} {level : Nat} {t : String} :
    (n : Node) → s.interpolated = true → Everywhere Fits s n → Everywhere D s n →
      text s.position level n = .ok t → S t.toList
  | .num _ x, _, hf, _, h => hS.number hf.1 h
  | .str .., _, _, hd, h => by
    obtain rfl := Except.ok.inj h
    exact hS.str hd
  | .bool _ value, _, _, _, h => by
    obtain rfl := Except.ok.inj h
    cases value
    · exact hS.word "false" (by decide)
    · exact hS.word "true" (by decide)
  | .null _, _, _, _, h => by
    obtain rfl := Except.ok.inj h
    exact hS.word "null" (by decide)
  | .ident _ name, _, hf, _, h => by
    obtain rfl := Except.ok.inj h
    exact hS.name hf.2.1
  | .tmpl .., hi, hf, hd, h => hS.tmpl hi hd.1 hf.2 hf.1 h
  | .arr _ items, hi, hf, hd, h => by
    simp only [text, bind_eq_ok_iff] at h
    obtain ⟨ts, hts, h⟩ := h
    obtain rfl := Except.ok.inj h
    exact hS.listText (by simp [Closed.bracketPairs])
      (closed_texts hS (s := s.operand) items hi hf.2 hd.2 hts)
  | .obj _ entries, hi, hf, hd, h => by
    simp only [text, bind_eq_ok_iff] at h
    obtain ⟨ts, hts, h⟩ := h
    obtain rfl := Except.ok.inj h
    have hlist : S (listText "\x7b" "\x7d" level ts).toList :=
      hS.listText (by simp [Closed.bracketPairs])
        (closed_entryTexts hS entries hi (hS.keyText hd.1) hf.2 hd.2 hts)
    split
    · exact hlist
    · rw [String.toList_append, String.toList_append]
      exact hS.append (hS.append (hS.word "(" (by decide)) hlist) (hS.word ")" (by decide))
  | .prop _ target name, hi, hf, hd, h => by
    simp only [text, bind_eq_ok_iff] at h
    obtain ⟨t, ht, h⟩ := h
    obtain rfl := Except.ok.inj h
    simp only [String.toList_append]
    exact hS.append (hS.append (closed_text hS (s := s.operand) target hi hf.2 hd.2 ht)
      (hS.word "." (by decide))) (hS.segment hf.1.2.2.1.2)
  | .index _ target key, hi, hf, hd, h => by
    simp only [text, bind_eq_ok_iff] at h
    obtain ⟨t, ht, k, hk, h⟩ := h
    obtain rfl := Except.ok.inj h
    simp only [String.toList_append]
    exact hS.append (hS.append (hS.append
      (closed_text hS (s := s.operand) target hi hf.2.1 hd.2.1 ht) (hS.word "[" (by decide)))
      (closed_text hS (s := s.operand) key hi hf.2.2 hd.2.2 hk)) (hS.word "]" (by decide))
  | .call _ target args, hi, hf, hd, h => by
    simp only [text, bind_eq_ok_iff] at h
    obtain ⟨as, has, t, ht, h⟩ := h
    obtain rfl := Except.ok.inj h
    simp only [String.toList_append]
    exact hS.append (hS.append (hS.append
      (closed_text hS (s := s.operand) target hi hf.2.1 hd.2.1 ht) (hS.word "(" (by decide)))
      (hS.commaList (closed_texts hS (s := s.operand) args hi hf.2.2 hd.2.2 has)))
      (hS.word ")" (by decide))
  | .unary _ op operand, hi, hf, hd, h => by
    simp only [text, bind_eq_ok_iff] at h
    obtain ⟨t, ht, h⟩ := h
    obtain rfl := Except.ok.inj h
    have hop : ∀ w ∈ ["!", "+", "-"], w.toList.all (· ∉ searchMarks) = true := by decide
    simp only [String.toList_append]
    exact hS.append (hS.append (hS.append (hS.word "(" (by decide)) (hS.word op (hop op hf.1.2.1)))
      (closed_text hS (s := s.operand) operand hi hf.2 hd.2 ht)) (hS.word ")" (by decide))
  | .binary _ op left right, hi, hf, hd, h => by
    have hmem : op ∈ binaryOperators := hf.1.2.1
    simp only [text, List.contains_iff_mem.mpr hmem, Bool.not_true, Bool.false_eq_true, if_false,
      bind_eq_ok_iff] at h
    obtain ⟨l, hl, r, hr, h⟩ := h
    obtain rfl := Except.ok.inj h
    have hop : ∀ w ∈ binaryOperators, w.toList.all (· ∉ searchMarks) = true := by decide
    simp only [String.toList_append]
    exact hS.append (hS.append (hS.append (hS.append (hS.append (hS.append (hS.word "(" (by decide))
      (closed_text hS (s := s.operand) left hi hf.2.1 hd.2.1 hl)) (hS.word " " (by decide)))
      (hS.word op (hop op hmem))) (hS.word " " (by decide)))
      (closed_text hS (s := s.operand) right hi hf.2.2 hd.2.2 hr)) (hS.word ")" (by decide))
  | .fn _ params body, hi, hf, hd, h => by
    simp only [text, bind_eq_ok_iff] at h
    obtain ⟨ps, hps, b, hb, h⟩ := h
    obtain rfl := Except.ok.inj h
    simp only [String.toList_append, List.append_assoc]
    exact hS.append (hS.word "@(" (by decide)) (hS.append
      (hS.commaList (closed_paramTexts hS params hi hf.1.2.1 hf.2.1 hd.2.1 hps))
      (hS.append (hS.word ") " (by decide))
        (hS.blockText (closed_texts hS (s := s.statement) body hi hf.2.2 hd.2.2 hb))))
  | .block _ statements, hi, hf, hd, h => by
    simp only [text, bind_eq_ok_iff] at h
    obtain ⟨b, hb, h⟩ := h
    obtain rfl := Except.ok.inj h
    have hblock : S (AiScript.blockText level b).toList :=
      hS.blockText (closed_texts hS (s := s.statement) statements hi hf.2 hd.2 hb)
    split
    · exact hblock
    · rw [String.toList_append]
      exact hS.append (hS.word "eval " (by decide)) hblock
  | .cond _ test body branches otherwise, hi, hf, hd, h => by
    obtain ⟨-, hf₁, hf₂, hf₃, hf₄⟩ := hf
    obtain ⟨-, hd₁, hd₂, hd₃, hd₄⟩ := hd
    simp only [text, bind_eq_ok_iff] at h
    obtain ⟨t, ht, b, hb, bs, hbs, e, he, h⟩ := h
    obtain rfl := Except.ok.inj h
    simp only [String.toList_append, List.append_assoc, String.toList_join]
    exact hS.append (hS.word "if " (by decide)) (hS.append
      (closed_text hS (s := s.operand) test hi hf₁ hd₁ ht) (hS.append (hS.word " " (by decide))
      (hS.append (closed_text hS (s := s.body) body hi hf₂ hd₂ hb) (hS.append
      (hS.flatMap (closed_branchTexts hS branches hi hf₃ hd₃ hbs))
      (closed_elseText hS otherwise hi hf₄ hd₄ he)))))
  | .select _ subject arms otherwise, hi, hf, hd, h => by
    obtain ⟨-, hf₁, hf₂, hf₃⟩ := hf
    obtain ⟨-, hd₁, hd₂, hd₃⟩ := hd
    simp only [text, bind_eq_ok_iff] at h
    obtain ⟨as, has, e, he, t, ht, h⟩ := h
    obtain rfl := Except.ok.inj h
    have hhead : S ("match (" ++ t ++ ") ").toList := by
      simp only [String.toList_append, List.append_assoc]
      exact hS.append (hS.word "match (" (by decide)) (hS.append
        (closed_text hS (s := s.operand) subject hi hf₁ hd₁ ht) (hS.word ") " (by decide)))
    have hlines : ∀ t ∈ as ++ e, S t.toList := by
      rw [List.forall_mem_append]
      exact ⟨closed_armTexts hS arms hi hf₂ hd₂ has, closed_defaultTexts hS otherwise hi hf₃ hd₃ he⟩
    split
    · rw [String.toList_append]
      exact hS.append hhead (hS.braces hS.nil)
    · rename_i hne
      rw [String.toList_append]
      exact hS.append hhead (hS.bracketLines (by simp [Closed.bracketPairs])
        (hS.word "," (by decide)) (by simpa using hne) hlines)
  | .loop _ statements, hi, hf, hd, h => by
    simp only [text, bind_eq_ok_iff] at h
    obtain ⟨b, hb, h⟩ := h
    obtain rfl := Except.ok.inj h
    exact hS.loopText (closed_texts hS (s := s.statement) statements hi hf.2 hd.2 hb)
  | .each _ item items body, hi, hf, hd, h => by
    simp only [text, bind_eq_ok_iff] at h
    obtain ⟨is, his, b, hb, h⟩ := h
    obtain rfl := Except.ok.inj h
    simp only [String.toList_append, List.append_assoc]
    exact hS.append (hS.word "each let " (by decide)) (hS.append (hS.name hf.1.2.1.1)
      (hS.append (hS.word ", " (by decide)) (hS.append
      (closed_text hS (s := s.operand) items hi hf.2.1 hd.2.1 his) (hS.append
      (hS.word " " (by decide)) (closed_text hS (s := s.body) body hi hf.2.2 hd.2.2 hb)))))
  | .define _ name value isMutable, hi, hf, hd, h => by
    have hvalue (v : String) (hv : text .expression level value = .ok v) : S v.toList :=
      closed_text hS (s := s.operand) value hi hf.2 hd.2 hv
    have hother (h : defineText level name value isMutable = .ok t) : S t.toList := by
      simp only [defineText, bind_eq_ok_iff] at h
      obtain ⟨v, hv, h⟩ := h
      obtain rfl := Except.ok.inj h
      have hword : S (if isMutable then "var " else "let ").toList := by
        cases isMutable
        · exact hS.word "let " (by decide)
        · exact hS.word "var " (by decide)
      simp only [String.toList_append, List.append_assoc]
      exact hS.append hword (hS.append (hS.name hf.1.2.1.1) (hS.append (hS.word " = " (by decide))
        (hvalue v hv)))
    cases isMutable with
    | true => cases value <;> exact hother h
    | false =>
      cases value with
      | fn _ params body =>
        simp only [text, bind_eq_ok_iff] at h
        obtain ⟨ps, hps, b, hb, h⟩ := h
        obtain rfl := Except.ok.inj h
        obtain ⟨hname, hfn, hf₁, hf₂⟩ := hf
        obtain ⟨-, -, hd₁, hd₂⟩ := hd
        simp only [String.toList_append, List.append_assoc]
        exact hS.append (hS.word "@" (by decide)) (hS.append (hS.name hname.2.1.1) (hS.append
          (hS.word "(" (by decide)) (hS.append
          (hS.commaList (closed_paramTexts hS params hi hfn.2.1 hf₁ hd₁ hps))
          (hS.append (hS.word ") " (by decide))
            (hS.blockText (closed_texts hS (s := s.statement) body hi hf₂ hd₂ hb))))))
      | _ => exact hother h
  | .assign _ target value, hi, hf, hd, h => by
    simp only [text, bind_eq_ok_iff] at h
    obtain ⟨t, ht, v, hv, h⟩ := h
    obtain rfl := Except.ok.inj h
    simp only [String.toList_append, List.append_assoc]
    exact hS.append (closed_text hS (s := s.operand) target hi hf.2.1 hd.2.1 ht) (hS.append
      (hS.word " = " (by decide)) (closed_text hS (s := s.operand) value hi hf.2.2 hd.2.2 hv))
  | .update _ op target value, hi, hf, hd, h => by
    simp only [text, bind_eq_ok_iff] at h
    obtain ⟨t, ht, v, hv, h⟩ := h
    obtain rfl := Except.ok.inj h
    have hop : ∀ w ∈ ["+=", "-="], w.toList.all (· ∉ searchMarks) = true := by decide
    simp only [String.toList_append, List.append_assoc]
    exact hS.append (closed_text hS (s := s.operand) target hi hf.2.1 hd.2.1 ht) (hS.append
      (hS.word " " (by decide)) (hS.append (hS.word op (hop op hf.1.2.1.1)) (hS.append
      (hS.word " " (by decide)) (closed_text hS (s := s.operand) value hi hf.2.2 hd.2.2 hv))))
  | .ret _ value, hi, hf, hd, h => by
    simp only [text, bind_eq_ok_iff] at h
    obtain ⟨v, hv, h⟩ := h
    obtain rfl := Except.ok.inj h
    rw [String.toList_append]
    exact hS.append (hS.word "return " (by decide))
      (closed_text hS (s := s.operand) value hi hf.2 hd.2 hv)
  | .exit _, _, _, _, h => by
    obtain rfl := Except.ok.inj h
    exact hS.word "break" (by decide)
  | .next _, _, _, _, h => by
    obtain rfl := Except.ok.inj h
    exact hS.word "continue" (by decide)
  | .loneParam _, _, hf, _, _ => hf.2.1.elim
  | .loneBranch _, _, hf, _, _ => hf.2.1.elim
  | .loneArm _, _, hf, _, _ => hf.2.1.elim
  | .bare .., _, hf, _, _ => hf.2.1.elim

theorem closed_texts (hS : Carries S D) {s : Site} {level : Nat} {ts : List String} :
    (ns : List Node) → s.interpolated = true → EverywhereAll Fits s ns → EverywhereAll D s ns →
      texts s.position level ns = .ok ts → ∀ t ∈ ts, S t.toList
  | [], _, _, _, h => by
    obtain rfl := Except.ok.inj h
    nofun
  | n :: ns, hi, hf, hd, h => by
    simp only [texts, bind_eq_ok_iff] at h
    obtain ⟨t, ht, ts, hts, h⟩ := h
    obtain rfl := Except.ok.inj h
    exact List.forall_mem_cons.mpr ⟨closed_text hS n hi hf.1 hd.1 ht,
      closed_texts hS ns hi hf.2 hd.2 hts⟩

theorem closed_entryTexts (hS : Carries S D) {s : Site} {level : Nat} {ts : List String} :
    (es : List (String × Node)) → s.interpolated = true → (∀ e ∈ es, S (keyText e.1).toList) →
      EverywhereEntries Fits s.operand es → EverywhereEntries D s.operand es →
      entryTexts level es = .ok ts → ∀ t ∈ ts, S t.toList
  | [], _, _, _, _, h => by
    obtain rfl := Except.ok.inj h
    nofun
  | (key, n) :: es, hi, hk, hf, hd, h => by
    simp only [entryTexts, bind_eq_ok_iff] at h
    obtain ⟨t, ht, ts, hts, h⟩ := h
    obtain rfl := Except.ok.inj h
    obtain ⟨hkey, hk⟩ := List.forall_mem_cons.mp hk
    refine List.forall_mem_cons.mpr ⟨?_, closed_entryTexts hS es hi hk hf.2 hd.2 hts⟩
    rw [String.toList_append, String.toList_append]
    exact hS.append (hS.append hkey (hS.word ": " (by decide)))
      (closed_text hS n (s := s.operand) hi hf.1 hd.1 ht)

theorem closed_paramTexts (hS : Carries S D) {s : Site} {level : Nat} {ts : List String} :
    (ps : List Param) → s.interpolated = true → (∀ p ∈ ps, IsPath p.name.text) →
      EverywhereParams Fits s.operand ps → EverywhereParams D s.operand ps →
      paramTexts level ps = .ok ts → ∀ t ∈ ts, S t.toList
  | [], _, _, _, _, h => by
    obtain rfl := Except.ok.inj h
    nofun
  | .mk _ name isOptional fallback :: ps, hi, hn, hf, hd, h => by
    simp only [paramTexts, bind_eq_ok_iff] at h
    obtain ⟨d, hd', ts, hts, h⟩ := h
    obtain rfl := Except.ok.inj h
    obtain ⟨hname, hn⟩ := List.forall_mem_cons.mp hn
    refine List.forall_mem_cons.mpr ⟨?_, closed_paramTexts hS ps hi hn hf.2 hd.2 hts⟩
    have hmark : S (if isOptional then "?" else "").toList := by
      cases isOptional
      · exact hS.nil
      · exact hS.word "?" (by decide)
    simp only [String.toList_append]
    exact hS.append (hS.append (hS.name hname) hmark)
      (closed_fallbackText hS fallback hi hf.1 hd.1 hd')

theorem closed_fallbackText (hS : Carries S D) {s : Site} {level : Nat} {t : String} :
    (o : Option Node) → s.interpolated = true → EverywhereOption Fits s.operand o →
      EverywhereOption D s.operand o → fallbackText level o = .ok t → S t.toList
  | none, _, _, _, h => by
    obtain rfl := Except.ok.inj h
    exact hS.nil
  | some n, hi, hf, hd, h => by
    simp only [fallbackText, bind_eq_ok_iff] at h
    obtain ⟨t, ht, h⟩ := h
    obtain rfl := Except.ok.inj h
    rw [String.toList_append]
    exact hS.append (hS.word " = " (by decide)) (closed_text hS (s := s.operand) n hi hf hd ht)

theorem closed_branchTexts (hS : Carries S D) {s : Site} {level : Nat} {ts : List String} :
    (bs : List Branch) → s.interpolated = true → EverywhereBranches Fits s bs →
      EverywhereBranches D s bs → branchTexts level bs = .ok ts → ∀ t ∈ ts, S t.toList
  | [], _, _, _, h => by
    obtain rfl := Except.ok.inj h
    nofun
  | .mk _ test body :: bs, hi, hf, hd, h => by
    simp only [branchTexts, bind_eq_ok_iff] at h
    obtain ⟨t, ht, b, hb, ts, hts, h⟩ := h
    obtain rfl := Except.ok.inj h
    refine List.forall_mem_cons.mpr ⟨?_, closed_branchTexts hS bs hi hf.2.2 hd.2.2 hts⟩
    simp only [String.toList_append, List.append_assoc]
    exact hS.append (hS.word " elif " (by decide)) (hS.append
      (closed_text hS (s := s.operand) test hi hf.1 hd.1 ht) (hS.append (hS.word " " (by decide))
      (closed_text hS (s := s.body) body hi hf.2.1 hd.2.1 hb)))

theorem closed_elseText (hS : Carries S D) {s : Site} {level : Nat} {t : String} :
    (o : Option Node) → s.interpolated = true → EverywhereOption Fits s.body o →
      EverywhereOption D s.body o → elseText level o = .ok t → S t.toList
  | none, _, _, _, h => by
    obtain rfl := Except.ok.inj h
    exact hS.nil
  | some n, hi, hf, hd, h => by
    simp only [elseText, bind_eq_ok_iff] at h
    obtain ⟨t, ht, h⟩ := h
    obtain rfl := Except.ok.inj h
    rw [String.toList_append]
    exact hS.append (hS.word " else " (by decide)) (closed_text hS (s := s.body) n hi hf hd ht)

theorem closed_armTexts (hS : Carries S D) {s : Site} {level : Nat} {ts : List String} :
    (as : List Arm) → s.interpolated = true → EverywhereArms Fits s as → EverywhereArms D s as →
      armTexts level as = .ok ts → ∀ t ∈ ts, S t.toList
  | [], _, _, _, h => by
    obtain rfl := Except.ok.inj h
    nofun
  | .mk _ pattern body :: as, hi, hf, hd, h => by
    simp only [armTexts, bind_eq_ok_iff] at h
    obtain ⟨p, hp, b, hb, ts, hts, h⟩ := h
    obtain rfl := Except.ok.inj h
    refine List.forall_mem_cons.mpr ⟨?_, closed_armTexts hS as hi hf.2.2 hd.2.2 hts⟩
    simp only [String.toList_append, List.append_assoc]
    exact hS.append (hS.word "case " (by decide)) (hS.append
      (closed_text hS (s := s.operand) pattern hi hf.1 hd.1 hp) (hS.append
      (hS.word " => " (by decide)) (closed_text hS (s := s.body) body hi hf.2.1 hd.2.1 hb)))

theorem closed_defaultTexts (hS : Carries S D) {s : Site} {level : Nat} {ts : List String} :
    (o : Option Node) → s.interpolated = true → EverywhereOption Fits s.body o →
      EverywhereOption D s.body o → defaultTexts level o = .ok ts → ∀ t ∈ ts, S t.toList
  | none, _, _, _, h => by
    obtain rfl := Except.ok.inj h
    nofun
  | some n, hi, hf, hd, h => by
    simp only [defaultTexts, bind_eq_ok_iff] at h
    obtain ⟨t, ht, h⟩ := h
    obtain rfl := Except.ok.inj h
    refine List.forall_mem_singleton.mpr ?_
    rw [String.toList_append]
    exact hS.append (hS.word "default => " (by decide)) (closed_text hS (s := s.body) n hi hf hd ht)
end

end Texts

/-! ## Templates -/

theorem markless_carries : Carries (Passes (some '\x60') · (some '\x60')) Markless where
  toClosed := passes_inside_closed
  str h := .quote_inside h
  key h e he := .quote_inside (h e he)
  tmpl _ h := h.elim

theorem passes_templateText (value : String) :
    Passes (some '\x60') (templateText value).toList (some '\x60') := by
  rw [templateText, String.toList_ofList]
  refine .flatMap fun c _ => ?_
  unfold templateChar
  split
  · exact .escaped (by decide)
  · rename_i h
    simp only [Bool.or_eq_true, beq_iff_eq, not_or] at h
    exact .quoted h.1.2 h.1.1

/-- The parts of a template without marks in its values are passed over inside it. -/
theorem passes_templateTexts {s : Site} {level : Nat} {parts : List Node} {ts : List String}
    (hf : EverywhereParts Fits s parts) (hm : EverywhereParts Markless s parts)
    (h : templateTexts level parts = .ok ts) :
    ∀ t ∈ ts, Passes (some '\x60') t.toList (some '\x60') := by
  have hvalue (n : Node) (hf : Everywhere Fits ⟨.expression, true⟩ n)
      (hm : Everywhere Markless ⟨.expression, true⟩ n) {t : String}
      (ht : text .expression level n = .ok t) :
      Passes (some '\x60') ("\x7b" ++ t ++ "\x7d").toList (some '\x60') := by
    rw [String.toList_append, String.toList_append]
    exact passes_inside_closed.braces (closed_text markless_carries n rfl hf hm ht)
  induction parts generalizing ts with
  | nil =>
    obtain rfl := Except.ok.inj h
    nofun
  | cons n parts ih =>
    cases n with
    | str _ value =>
      simp only [templateTexts, bind_eq_ok_iff] at h
      obtain ⟨ts, hts, h⟩ := h
      obtain rfl := Except.ok.inj h
      exact List.forall_mem_cons.mpr ⟨passes_templateText value, ih hf hm hts⟩
    | _ =>
      simp only [templateTexts, bind_eq_ok_iff] at h
      obtain ⟨t, ht, ts, hts, h⟩ := h
      obtain rfl := Except.ok.inj h
      exact List.forall_mem_cons.mpr ⟨hvalue _ hf.1 hm.1 ht, ih hf.2 hm.2 hts⟩

theorem fits_carries : Carries (Passes none · none) Fits where
  toClosed := passes_closed
  str _ := .quote _
  key _ e _ := .quote e.1
  tmpl hi _ hparts hfits h := by
    simp only [text, bind_eq_ok_iff] at h
    obtain ⟨ts, hts, h⟩ := h
    obtain rfl := Except.ok.inj h
    have hmark : Passes (some '\x60') (String.join ts).toList (some '\x60') := by
      rw [String.toList_join]
      exact .flatMap (passes_templateTexts hparts (hfits.2.2.1.2 hi) hts)
    rw [String.toList_append, String.toList_append]
    exact ((Passes.opening (by decide)).append hmark).append (.closing '\x60')

/-- The end of an interpolation is not found inside the text of its value. -/
theorem scans_text {s : Site} {level : Nat} {t : String} {n : Node} (hi : s.interpolated = true)
    (hf : Everywhere Fits s n) (h : text s.position level n = .ok t) : Passes none t.toList none :=
  closed_text fits_carries n hi hf hf h

end ScriptBridge.AiScript
