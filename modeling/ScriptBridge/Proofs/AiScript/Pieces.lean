import ScriptBridge.Proofs.AiScript.Layout
import ScriptBridge.Proofs.AiScript.Statements

/-!
# The tokens of laid out texts

Items between brackets become a token for each bracket and the tokens of the items between them,
whether they stand on one line or on lines of their own. A text that may be empty has no tokens of its
own to carry the blanks before it, so it is only lexed behind another (`Trails`).

* `Trails`: texts that stand behind another, and may be empty.
* `Enclosed`, `lexes_enclosed`: items between brackets.
* `Written`: a text, its tokens, and that it does not begin with an equals sign.
-/

namespace ScriptBridge.AiScript

variable {α : Type} {D D' : List Char → Prop} {s s' gap : List Char} {P P' : Tokens}
  {Q Q' : List Token → Prop}

/-! ## Texts behind others -/

/-- A text behind another: it is empty, or the other one ends where it begins. -/
def Trails (s : List Char) (Q : List Token → Prop) : Prop :=
  (s = [] ∧ Q []) ∨ (Lexes Delimits s (fun _ _ => Q) ∧ ∀ rest, Delimits (s ++ rest))

theorem Trails.imp (h : Trails s Q) (hq : ∀ ts, Q ts → Q' ts) : Trails s Q' := by
  rcases h with ⟨hs, h⟩ | ⟨h, hd⟩
  · exact .inl ⟨hs, hq _ h⟩
  · exact .inr ⟨h.imp fun _ _ => hq, hd⟩

theorem Lexes.trailed (h : Lexes Delimits s P) (h' : Trails s' Q) :
    Lexes Delimits (s ++ s') fun newline space ts =>
      ∃ us vs, ts = us ++ vs ∧ P newline space us ∧ Q vs := by
  rcases h' with ⟨rfl, hq⟩ | ⟨h', hd⟩
  · rw [List.append_nil]
    exact h.imp fun newline space ts hp => ⟨ts, [], by simp, hp, hq⟩
  · exact h.append h' fun rest _ => hd rest

theorem Trails.append (h : Trails s Q) (h' : Trails s' Q') :
    Trails (s ++ s') fun ts => ∃ us vs, ts = us ++ vs ∧ Q us ∧ Q' vs := by
  rcases h with ⟨rfl, hq⟩ | ⟨h, hd⟩
  · exact h'.imp fun ts hq' => ⟨[], ts, rfl, hq, hq'⟩
  · refine .inr ⟨h.trailed h', fun rest => ?_⟩
    rw [List.append_assoc]
    exact hd _

/-- A text that may be empty before one that is not. -/
theorem Trails.before (h : Trails s Q) (h' : Lexes D s' P) (hd' : ∀ rest, D rest → Delimits (s' ++ rest)) :
    Lexes D (s ++ s') fun _ _ ts => ∃ us vs newline space, ts = us ++ vs ∧ Q us ∧ P newline space vs := by
  rcases h with ⟨rfl, hq⟩ | ⟨h, -⟩
  · exact h'.imp fun newline space ts hp => ⟨[], ts, newline, space, rfl, hq, hp⟩
  · exact (h.append h' hd').imp fun _ _ ts ⟨us, vs, hts, hq, hp⟩ => ⟨us, vs, _, _, hts, hq, hp⟩

/-! ## Gaps -/

/-- What stands between two items, or before the first one: a blank or a new line. -/
def IsGap (gap : List Char) : Prop :=
  gap = [' '] ∨ ∃ level, gap = lineGap level

theorem IsGap.delimits (h : IsGap gap) (rest : List Char) : Delimits (gap ++ rest) := by
  rcases h with rfl | ⟨level, rfl⟩
  · exact delimits_cons (by decide) _
  · exact delimits_cons (by decide) _

theorem Lexes.after_gap (h : Lexes D s P) (hg : IsGap gap) :
    Lexes D (gap ++ s) fun _ _ ts => ∃ newline, P newline true ts := by
  rcases hg with rfl | ⟨level, rfl⟩
  · exact h.blank.imp fun newline _ ts hp => ⟨newline, hp⟩
  · exact (h.indented level).imp fun _ _ ts hp => ⟨true, hp⟩

theorem Lexes.after_maybe_gap (h : Lexes D s P) (hg : gap = [] ∨ IsGap gap) :
    Lexes D (gap ++ s) fun _ _ ts => ∃ newline space, P newline space ts := by
  rcases hg with rfl | hg
  · exact h.imp fun newline space ts hp => ⟨newline, space, hp⟩
  · exact (h.after_gap hg).imp fun _ _ ts ⟨newline, hp⟩ => ⟨newline, true, hp⟩

/-! ## Items -/

/-- The separators of items: nothing but the gap, or a comma before it. -/
structure IsSeparator (separator : List Char) (S : List Token → Prop) : Prop where
  lexes : ∀ {s P}, Lexes Delimits s P → (∀ rest, Delimits (s ++ rest)) →
    Lexes Delimits (separator ++ s) fun _ _ ts => ∃ us vs newline space, ts = us ++ vs ∧ S us ∧
      P newline space vs
  delimits : ∀ rest, Delimits rest → Delimits (separator ++ rest)

theorem isSeparator_nil : IsSeparator [] (· = []) :=
  ⟨fun h _ => h.imp fun newline space ts hp => ⟨[], ts, newline, space, rfl, rfl, hp⟩, fun _ h => h⟩

theorem isSeparator_comma : IsSeparator [','] Comma := by
  refine ⟨fun h _ => ?_, fun rest _ => delimits_cons (by decide) _⟩
  refine ((lexes_bracket (c := ',') (by decide)).append h fun _ _ => trivial).imp ?_
  rintro newline space ts ⟨us, vs, rfl, ⟨t, rfl, ht⟩, hp⟩
  exact ⟨[t], vs, _, _, rfl, ⟨t, _, _, rfl, ht⟩, hp⟩

theorem trails_spread {S : List Token → Prop} {R : α → Tokens} {separator : List Char} {xs : List α}
    {items : List String} (hs : IsSeparator separator S) (hg : IsGap gap)
    (h : List.Forall₂ (fun x item => Lexes Delimits item.toList (R x)) xs items) :
    Trails (spreadText separator gap items) (Spread S R xs) := by
  induction h with
  | nil => exact .inl ⟨rfl, .nil⟩
  | @cons x item xs items hx _ ih =>
    have hitem := hs.lexes (hx.after_gap hg) fun rest => by
      rw [List.append_assoc]
      exact hg.delimits _
    have hfirst : Trails (separator ++ (gap ++ item.toList)) fun ts =>
        ∃ us vs newline, ts = us ++ vs ∧ S us ∧ R x newline true vs := by
      refine .inr ⟨hitem.imp ?_, fun rest => ?_⟩
      · rintro _ _ ts ⟨us, vs, _, _, rfl, hus, newline, hvs⟩
        exact ⟨us, vs, newline, rfl, hus, hvs⟩
      · rw [List.append_assoc, List.append_assoc]
        exact hs.delimits _ (hg.delimits _)
    refine (hfirst.append ih).imp ?_
    rintro _ ⟨_, ws, rfl, ⟨us, vs, newline, rfl, hus, hvs⟩, hws⟩
    rw [List.append_assoc]
    exact .cons hus hvs hws

theorem length_spreadText (separator : List Char) (items : List String) (hg : gap ≠ []) :
    items.length ≤ (spreadText separator gap items).length ∧
      ∀ item ∈ items, item.toList.length ≤ (spreadText separator gap items).length := by
  have hpos := List.length_pos_iff.mpr hg
  induction items with
  | nil => simp
  | cons item items ih =>
    simp only [spreadText, List.flatMap_cons, List.length_append, List.length_cons] at ih ⊢
    refine ⟨by omega, fun other ho => ?_⟩
    rcases List.mem_cons.mp ho with rfl | ho
    · omega
    · have := ih.2 other ho
      omega

theorem IsGap.ne_nil (h : IsGap gap) : gap ≠ [] := by
  rcases h with rfl | ⟨level, rfl⟩ <;> simp [lineGap]

/-- A condition on tokens that a longer text weakens. -/
def Grows (R : Nat → α → Tokens) : Prop :=
  ∀ a b x newline space ts, a ≤ b → R a x newline space ts → R b x newline space ts

/-- The tokens of items between brackets, in a text of the given length. -/
def Enclosed (left right : Char) (S : List Token → Prop) (R : Nat → α → Tokens) (xs : List α)
    (length : Nat) : Tokens := fun newline space ts =>
  ∃ u us c newline' space' len, ts = u :: us ++ [c] ∧ u.Is .op (String.ofList [left]) newline space ∧
    Listed S (R len) xs us ∧ c.Is .op (String.ofList [right]) newline' space' ∧ len + 2 ≤ length ∧
    xs.length < length

section Enclosed

variable {left right : Char} {S : List Token → Prop} {R : Nat → α → Tokens} {xs : List α}
  {items : List String}

theorem lexes_enclosed_nil (hl : left ∈ brackets) (hr : right ∈ brackets) :
    Lexes (fun _ => True) [left, right] (Enclosed left right S R [] 2) := by
  refine ((lexes_bracket hl).append (lexes_bracket hr) fun _ _ => trivial).imp ?_
  rintro newline space _ ⟨_, _, rfl, ⟨u, rfl, hu⟩, c, rfl, hc⟩
  exact ⟨u, [], c, _, _, 0, rfl, hu, .nil, hc, by simp, by simp⟩

/-- Items between brackets, with or without gaps at the brackets. -/
theorem lexes_enclosed {x : α} {item : String} {separator : List Char} (gap first last : List Char)
    (hl : left ∈ brackets) (hr : right ∈ brackets) (hd : right ∈ delimiters)
    (hs : IsSeparator separator S) (hg : IsGap gap) (hfirst : first = [] ∨ IsGap first)
    (hlast : last = [] ∨ IsGap last)
    (hmono : Grows R)
    (hx : Lexes Delimits item.toList (R item.toList.length x))
    (h : List.Forall₂ (fun x item => Lexes Delimits item.toList (R item.toList.length x)) xs items) :
    Lexes (fun _ => True)
      ([left] ++ ((first ++ item.toList) ++ (spreadText separator gap items ++ (last ++ [right]))))
      (Enclosed left right S R (x :: xs) ([left] ++ ((first ++ item.toList) ++
        (spreadText separator gap items ++ (last ++ [right])))).length) := by
  let len := item.toList.length + (spreadText separator gap items).length
  obtain ⟨hcount, hlength⟩ := length_spreadText separator items hg.ne_nil
  have hx' := hx.imp fun newline space ts hx => hmono _ len _ _ _ _ (by omega) hx
  have h' : List.Forall₂ (fun x item => Lexes Delimits item.toList (R len x)) xs items := by
    refine List.forall₂_iff_zip.mpr ⟨h.length_eq, fun {y other} hmem => ?_⟩
    have hle := hlength other (List.of_mem_zip hmem).2
    exact ((List.forall₂_iff_zip.mp h).2 hmem).imp fun newline space ts hy =>
      hmono _ _ _ _ _ _ (by omega) hy
  have hclose : ∀ rest, Delimits (last ++ [right] ++ rest) := by
    intro rest
    rw [List.append_assoc]
    rcases hlast with rfl | hlast
    · exact delimits_cons hd _
    · exact hlast.delimits _
  have hspread := trails_spread hs hg h'
  have htail := hspread.before ((lexes_bracket hr).after_maybe_gap hlast) fun rest _ => hclose rest
  have hdelimits : ∀ rest, Delimits (spreadText separator gap items ++ (last ++ [right]) ++ rest) := by
    intro rest
    rw [List.append_assoc]
    rcases hspread with ⟨hnil, -⟩ | ⟨-, hd⟩
    · rw [hnil]
      exact hclose rest
    · exact hd _
  have hitems := (hx'.after_maybe_gap hfirst).append htail fun rest _ => hdelimits rest
  refine ((lexes_bracket hl).append hitems fun _ _ => trivial).imp ?_
  rintro newline space _ ⟨_, _, rfl, ⟨u, rfl, hu⟩, us, _, rfl, ⟨_, _, hus⟩, vs, _, _, _, rfl, hvs,
    _, _, c, rfl, hc⟩
  refine ⟨u, us ++ vs, c, _, _, len, by simp, hu, .cons hus hvs, hc, ?_, ?_⟩
  · simp only [List.length_append, List.length_singleton, len]
    omega
  · have := h.length_eq
    simp only [List.length_append, List.length_cons, List.length_nil]
    omega

/-- Items on one line with commas between them. -/
theorem lexes_commaList (left right : Char) (hl : left ∈ brackets) (hr : right ∈ brackets) (hd : right ∈ delimiters)
    (hmono : Grows R)
    (h : List.Forall₂ (fun x item => Lexes Delimits item.toList (R item.toList.length x)) xs items) :
    Lexes (fun _ => True) ([left] ++ ((", ".intercalate items).toList ++ [right]))
      (Enclosed left right Comma R xs ([left] ++ ((", ".intercalate items).toList ++ [right])).length) := by
  cases h with
  | nil => exact lexes_enclosed_nil hl hr
  | @cons x item xs items hx h =>
    have := lexes_enclosed [' '] [] [] hl hr hd isSeparator_comma (.inl rfl) (.inl rfl) (.inl rfl)
      hmono hx h
    rw [commaList_toList, List.append_assoc]
    exact this

/-- Items on lines of their own. -/
theorem lexes_bracketLines {l r : String} (separator : String) (hleft : l.toList = [left])
    (hright : r.toList = [right]) (hl : left ∈ brackets) (hr : right ∈ brackets)
    (hd : right ∈ delimiters) (hs : IsSeparator separator.toList S)
    (hmono : Grows R)
    (level : Nat) (hne : items ≠ [])
    (h : List.Forall₂ (fun x item => Lexes Delimits item.toList (R item.toList.length x)) xs items) :
    Lexes (fun _ => True) (bracketLines l r separator level items).toList
      (Enclosed left right S R xs (bracketLines l r separator level items).toList.length) := by
  cases h with
  | nil => exact absurd rfl hne
  | @cons x item xs items hx h =>
    have := lexes_enclosed (lineGap (level + 1)) (lineGap (level + 1)) (lineGap level) hl hr hd hs
      (.inr ⟨level + 1, rfl⟩) (.inr (.inr ⟨level + 1, rfl⟩)) (.inr (.inr ⟨level, rfl⟩)) hmono hx h
    rw [bracketLines_toList, hleft, hright, List.append_assoc (lineGap (level + 1) ++ item.toList)]
    exact this

theorem lexes_listText {l r : String} (hleft : l.toList = [left]) (hright : r.toList = [right])
    (hl : left ∈ brackets) (hr : right ∈ brackets) (hd : right ∈ delimiters)
    (hmono : Grows R)
    (level : Nat)
    (h : List.Forall₂ (fun x item => Lexes Delimits item.toList (R item.toList.length x)) xs items) :
    Lexes (fun _ => True) (listText l r level items).toList
      (Enclosed left right Comma R xs (listText l r level items).toList.length) := by
  rw [listText]
  split
  · rename_i hany
    refine lexes_bracketLines "," hleft hright hl hr hd isSeparator_comma hmono level ?_ h
    rintro rfl
    cases hany
  · rw [String.toList_append, String.toList_append, hleft, hright, List.append_assoc]
    exact lexes_commaList left right hl hr hd hmono h

theorem lexes_blockText
    (hmono : Grows R)
    (level : Nat)
    (h : List.Forall₂ (fun x item => Lexes Delimits item.toList (R item.toList.length x)) xs items) :
    Lexes (fun _ => True) (blockText level items).toList
      (Enclosed '\x7b' '\x7d' (· = []) R xs (blockText level items).toList.length) := by
  rw [blockText]
  split
  · rename_i hempty
    obtain rfl : items = [] := by simpa using hempty
    cases h
    exact lexes_enclosed_nil (by decide) (by decide)
  · rename_i hne
    exact lexes_bracketLines "" rfl rfl (by decide) (by decide) (by decide) isSeparator_nil hmono level
      (by simpa using hne) h

/-- The braces of a loop, on one line or on several. -/
theorem lexes_loopText
    (hmono : Grows R)
    (level : Nat)
    (h : List.Forall₂ (fun x item => Lexes Delimits item.toList (R item.toList.length x)) xs items) :
    ∃ s, (loopText level items).toList = "loop".toList ++ ' ' :: s ∧
      Lexes (fun _ => True) s (Enclosed '\x7b' '\x7d' (· = []) R xs s.length) := by
  have hblock : ∃ s, ("loop " ++ blockText level items).toList = "loop".toList ++ ' ' :: s ∧
      Lexes (fun _ => True) s (Enclosed '\x7b' '\x7d' (· = []) R xs s.length) := by
    refine ⟨(blockText level items).toList, ?_, lexes_blockText hmono level h⟩
    rw [String.toList_append]
    rfl
  unfold loopText
  split
  · rename_i item
    split
    · exact hblock
    · obtain _ | ⟨hx, h⟩ := h
      have hbrace : '\x7b' ∈ brackets ∧ '\x7d' ∈ brackets ∧ '\x7d' ∈ delimiters := by decide
      have := lexes_enclosed [' '] [' '] [' '] hbrace.1 hbrace.2.1 hbrace.2.2 isSeparator_nil
        (.inl rfl) (.inr (.inl rfl)) (.inr (.inl rfl)) hmono hx h
      refine ⟨_, ?_, this⟩
      cases h
      simp [spreadText, String.toList_append]
  · exact hblock

end Enclosed

/-! ## Written texts -/

/-- A text with its tokens. It does not begin with an equals sign, so an operator may stand before it. -/
structure Written (R : Nat → Tokens) (t : String) : Prop where
  head : t.toList.head? ≠ some '='
  lexes : Lexes Delimits t.toList (R t.toList.length)

theorem Written.imp {R R' : Nat → Tokens} {t : String} (h : Written R t)
    (hr : ∀ len newline space ts, R len newline space ts → R' len newline space ts) : Written R' t :=
  ⟨h.head, h.lexes.imp fun newline space ts => hr _ newline space ts⟩

end ScriptBridge.AiScript
