import ScriptBridge.AiScript.Printer
import ScriptBridge.Text.Word
import ScriptBridge.Proofs.Number.Numeral
import Mathlib.Data.Bool.AllAny

/-!
# Pieces of text and their tokens

`Lexes D s P`: wherever the text `s` stands, if what follows satisfies `D`, then `s` is split into
tokens that satisfy `P` and what follows is split on its own. `P` also knows whether a line end or a
blank stood before. Blanks and line ends belong to the piece behind them, so pieces can be put one after
the other.

* `Lexes.append`, `Lexes.blank`, `Lexes.newline`: putting pieces together.
* `Delimits`: text that no token goes on into.
* `lexes_word`, `lexes_name`, `lexes_number`, `lexes_quote`: the pieces of one token.
-/

namespace ScriptBridge.AiScript

/-! ## Pieces -/

/-- What the tokens of a piece are to satisfy, given whether a line end and a blank stand before. -/
abbrev Tokens := Bool → Bool → List Token → Prop

/-- A text that is split into tokens on its own, in front of all that satisfies `D`. -/
def Lexes (D : List Char → Prop) (s : List Char) (P : Tokens) : Prop :=
  ∀ line col newline space, ∃ ts line' col', P newline space ts ∧
    ∀ rest, D rest → ∀ more, tokensFrom ⟨rest, line', col'⟩ false false = .ok more →
      tokensFrom ⟨s ++ rest, line, col⟩ newline space = .ok (ts ++ more)

variable {D D' : List Char → Prop} {s s' : List Char} {P Q : Tokens}

theorem Lexes.imp (h : Lexes D s P) (hP : ∀ newline space ts, P newline space ts → Q newline space ts) :
    Lexes D s Q := by
  intro line col newline space
  obtain ⟨ts, line', col', hp, hs⟩ := h line col newline space
  exact ⟨ts, line', col', hP _ _ _ hp, hs⟩

theorem Lexes.of_delimiter (h : Lexes D s P) (hD : ∀ rest, D' rest → D rest) : Lexes D' s P := by
  intro line col newline space
  obtain ⟨ts, line', col', hp, hs⟩ := h line col newline space
  exact ⟨ts, line', col', hp, fun rest hr => hs rest (hD rest hr)⟩

/-- Two sorts of tokens one after the other, the second without blanks before. -/
def Tokens.then (P Q : Tokens) : Tokens := fun newline space ts =>
  ∃ us vs, ts = us ++ vs ∧ P newline space us ∧ Q false false vs

theorem Lexes.append (h : Lexes D s P) (h' : Lexes D' s' Q) (hD : ∀ rest, D' rest → D (s' ++ rest)) :
    Lexes D' (s ++ s') (P.then Q) := by
  intro line col newline space
  obtain ⟨us, line₁, col₁, hp, hs⟩ := h line col newline space
  obtain ⟨vs, line₂, col₂, hq, hs'⟩ := h' line₁ col₁ false false
  refine ⟨us ++ vs, line₂, col₂, ⟨us, vs, rfl, hp, hq⟩, fun rest hr more hm => ?_⟩
  rw [List.append_assoc, List.append_assoc]
  exact hs _ (hD rest hr) _ (hs' rest hr more hm)

/-! ## Steps -/

theorem tokensFrom_nil (line col : Nat) (newline space : Bool) :
    tokensFrom ⟨[], line, col⟩ newline space =
      .ok [{ kind := .eof, text := "", line, col, newlineBefore := newline }] := by
  rw [tokensFrom]

theorem tokensFrom_blank {c : Char} {cs : List Char} {line col : Nat} {newline space : Bool}
    {after : Cursor} (h : step c cs line col = .ok (.blank, after)) :
    tokensFrom ⟨c :: cs, line, col⟩ newline space = tokensFrom after newline true := by
  rw [tokensFrom]
  split
  · rename_i hr
    cases hr
  · rename_i c' cs' hr
    cases hr
    split <;> simp_all

theorem tokensFrom_newline {c : Char} {cs : List Char} {line col : Nat} {newline space : Bool}
    {after : Cursor} (h : step c cs line col = .ok (.newline, after)) :
    tokensFrom ⟨c :: cs, line, col⟩ newline space = tokensFrom after true true := by
  rw [tokensFrom]
  split
  · rename_i hr
    cases hr
  · rename_i c' cs' hr
    cases hr
    split <;> simp_all

theorem tokensFrom_token {c : Char} {cs : List Char} {line col : Nat} {newline space : Bool}
    {kind : TokenKind} {text : String} {parts : List TemplatePart} {after : Cursor}
    {more : List Token} (h : step c cs line col = .ok (.token kind text parts, after))
    (hm : tokensFrom after false false = .ok more) :
    tokensFrom ⟨c :: cs, line, col⟩ newline space =
      .ok ({ kind, text, line, col, newlineBefore := newline, spaceBefore := space, parts } :: more) := by
  rw [tokensFrom]
  split
  · rename_i hr
    cases hr
  · rename_i c' cs' hr
    cases hr
    split <;> simp_all [bind, Except.bind, pure, Except.pure]

theorem Lexes.blank (h : Lexes D s P) : Lexes D (' ' :: s) fun newline _ ts => P newline true ts := by
  intro line col newline space
  obtain ⟨ts, line', col', hp, hs⟩ := h line (col + 1) newline true
  refine ⟨ts, line', col', hp, fun rest hr more hm => ?_⟩
  rw [List.cons_append, tokensFrom_blank rfl]
  exact hs rest hr more hm

theorem Lexes.newline (h : Lexes D s P) : Lexes D ('\n' :: s) fun _ _ ts => P true true ts := by
  intro line col newline space
  obtain ⟨ts, line', col', hp, hs⟩ := h (line + 1) 1 true true
  refine ⟨ts, line', col', hp, fun rest hr more hm => ?_⟩
  rw [List.cons_append, tokensFrom_newline rfl]
  exact hs rest hr more hm

/-- The blanks at the start of a line. -/
theorem Lexes.indented (h : Lexes D s P) (level : Nat) :
    Lexes D ('\n' :: (indent level).toList ++ s) fun _ _ ts => P true true ts := by
  have hblanks (k : Nat) : Lexes D (List.replicate k ' ' ++ s)
      fun newline space ts => ∃ space', (space = true → space' = true) ∧ P newline space' ts := by
    induction k with
    | zero => exact h.imp fun newline space ts hp => ⟨space, id, hp⟩
    | succ k ih =>
      refine ih.blank.imp ?_
      rintro newline space ts ⟨space', hs, hp⟩
      exact ⟨space', fun _ => hs rfl, hp⟩
  rw [indent, String.toList_ofList, List.cons_append]
  refine (hblanks (2 * level)).newline.imp ?_
  rintro newline space ts ⟨space', hs, hp⟩
  rwa [hs rfl] at hp

/-! ## Single tokens -/

/-- A token of a kind and a text, and what stands before it. -/
structure Token.Is (t : Token) (kind : TokenKind) (text : String) (newline space : Bool) : Prop where
  kind : t.kind = kind
  text : t.text = text
  newline : t.newlineBefore = newline
  space : t.spaceBefore = space

/-- One token of a kind and a text. -/
def Tokens.one (kind : TokenKind) (text : String) : Tokens := fun newline space ts =>
  ∃ t, ts = [t] ∧ t.Is kind text newline space

theorem lexes_token {c : Char} {cs : List Char} {kind : TokenKind} {text : String}
    {Q : List TemplatePart → Prop}
    (h : ∀ line col, ∃ parts line' col', Q parts ∧ ∀ rest, D rest →
      step c (cs ++ rest) line col = .ok (.token kind text parts, ⟨rest, line', col'⟩)) :
    Lexes D (c :: cs) fun newline space ts =>
      ∃ t, ts = [t] ∧ t.Is kind text newline space ∧ Q t.parts := by
  intro line col newline space
  obtain ⟨parts, line', col', hq, hs⟩ := h line col
  let t : Token :=
    { kind, text, line, col, newlineBefore := newline, spaceBefore := space, parts }
  refine ⟨[t], line', col', ⟨t, rfl, ⟨rfl, rfl, rfl, rfl⟩, hq⟩, fun rest hr more hm => ?_⟩
  exact tokensFrom_token (hs rest hr) hm

theorem lexes_one {c : Char} {cs : List Char} {kind : TokenKind} {text : String}
    (h : ∀ line col, ∃ parts line' col', ∀ rest, D rest →
      step c (cs ++ rest) line col = .ok (.token kind text parts, ⟨rest, line', col'⟩)) :
    Lexes D (c :: cs) (.one kind text) := by
  refine (lexes_token (Q := fun _ => True) fun line col => ?_).imp fun _ _ ts ⟨t, ht, hi, _⟩ =>
    ⟨t, ht, hi⟩
  obtain ⟨parts, line', col', hs⟩ := h line col
  exact ⟨parts, line', col', trivial, hs⟩

/-! ## What may follow -/

/-- The characters that stand directly behind a token. -/
def delimiters : List Char :=
  [' ', '\n', ')', ']', '\x7d', ',', '[', '(', '?']

/-- Text that no token goes on into: a delimiter, an access, or the colon after a key. -/
def Delimits : List Char → Prop
  | [] => True
  | c :: cs => c ∈ delimiters ∨ (c = '.' ∧ ∃ d, cs.head? = some d ∧ isNameStart d = true) ∨
      (c = ':' ∧ cs.head? = some ' ')

theorem delimits_cons {c : Char} (h : c ∈ delimiters) (cs : List Char) : Delimits (c :: cs) :=
  .inl h

theorem isNameStart_not_digit {c : Char} (h : isNameStart c = true) : isDigit c = false := by
  by_contra hd
  have hd := isDigit_range (Bool.not_eq_false _ ▸ hd)
  unfold isNameStart Char.isAlpha Char.isUpper Char.isLower at h
  simp only [Bool.or_eq_true, Bool.and_eq_true, decide_eq_true_eq, beq_iff_eq] at h
  rcases h with ((⟨h, -⟩ | ⟨h, -⟩) | rfl) | rfl
  · have h : 65 ≤ c.toNat := h
    omega
  · have h : 97 ≤ c.toNat := h
    omega
  · simp at hd
  · simp at hd

namespace Delimits

variable {rest : List Char}

theorem head_cases (h : Delimits rest) {c : Char} (hc : rest.head? = some c) :
    c ∈ '.' :: ':' :: delimiters := by
  obtain ⟨cs, rfl⟩ : ∃ cs, rest = c :: cs := by
    cases rest with
    | nil => cases hc
    | cons d ds => exact ⟨ds, by rw [Option.some.inj hc]⟩
  rcases h with h | ⟨rfl, -⟩ | ⟨rfl, -⟩
  · exact List.mem_cons_of_mem _ (List.mem_cons_of_mem _ h)
  · exact List.mem_cons_self
  · exact List.mem_cons_of_mem _ List.mem_cons_self

theorem not_namePart (h : Delimits rest) (c : Char) (hc : rest.head? = some c) :
    isNamePart c = false := by
  have hall : ∀ c ∈ '.' :: ':' :: delimiters, isNamePart c = false :=
    List.all_iff_forall_prop.mp (by decide)
  exact hall c (h.head_cases hc)

theorem not_digit (h : Delimits rest) (c : Char) (hc : rest.head? = some c) : isDigit c = false := by
  have hall : ∀ c ∈ '.' :: ':' :: delimiters, isDigit c = false :=
    List.all_iff_forall_prop.mp (by decide)
  exact hall c (h.head_cases hc)

theorem readSegments_eq (h : Delimits rest) : readSegments rest = ([], rest) := by
  unfold readSegments
  split
  · rename_i c cs
    rcases h with h | ⟨h, -⟩ | ⟨-, h⟩
    · exact absurd h (by decide)
    · exact absurd h (by decide)
    · obtain rfl := Option.some.inj h
      rfl
  · rfl

theorem readFraction_eq (h : Delimits rest) : readFraction rest = ([], rest) := by
  unfold readFraction
  split
  · rename_i d cs
    rcases h with h | ⟨-, d', hd, hn⟩ | ⟨h, -⟩
    · exact absurd h (by decide)
    · obtain rfl := Option.some.inj hd
      rw [isNameStart_not_digit hn]
      rfl
    · exact absurd h (by decide)
  · rfl

theorem readExponent_eq (h : Delimits rest) : readExponent rest = some ([], rest) := by
  cases rest with
  | nil => rfl
  | cons c cs =>
    have hall : ∀ c ∈ '.' :: ':' :: delimiters, (c == 'e' || c == 'E') = false :=
      List.all_iff_forall_prop.mp (by decide)
    simp [readExponent, hall c (h.head_cases rfl)]

end Delimits

/-! ## Words and names -/

/-- A segment of a name. -/
def isSegment : List Char → Bool
  | [] => false
  | c :: cs => isNameStart c && cs.all isNamePart

/-- Further segments of a name as they are written. -/
def segmentsText (segments : List (List Char)) : List Char :=
  segments.flatMap (':' :: ·)

/-- A name: segments with colons between them, the first of which is not reserved. -/
def IsPath (name : String) : Prop :=
  ∃ first more, name.toList = first ++ segmentsText more ∧ isSegment first = true ∧
    (∀ s ∈ more, isSegment s = true) ∧ keywords.contains (String.ofList first) = false

/-- A key that is written without quotes is a name. -/
theorem isPath_of_plainKey {key : String} (h : isPlainKey key = true) : IsPath key := by
  rw [isPlainKey, Bool.and_eq_true, Bool.not_eq_true'] at h
  obtain ⟨hword, hchars⟩ := h
  refine ⟨key.toList, [], by simp [segmentsText], ?_, nofun, by rwa [String.ofList_toList]⟩
  cases hk : key.toList with
  | nil =>
    rw [hk] at hchars
    cases hchars
  | cons c cs =>
    simp only [hk, Bool.and_eq_true, List.all_eq_true, Bool.or_eq_true] at hchars
    simp only [isSegment, Bool.and_eq_true, List.all_eq_true]
    refine ⟨by simp only [isNameStart, Bool.or_eq_true]; exact .inl hchars.1, fun d hd => ?_⟩
    simp only [isNamePart, isNameStart, Bool.or_eq_true, isDigit_iff]
    rcases hchars.2 d hd with h | h
    · rw [Char.isAlphanum, Bool.or_eq_true] at h
      exact h.elim (fun h => .inl (.inl (.inl h))) .inr
    · exact .inl (.inl (.inr h))

theorem isSegment_namePart {s : List Char} (h : isSegment s = true) :
    ∀ c ∈ s, isNamePart c = true := by
  cases s with
  | nil => nofun
  | cons c cs =>
    rw [isSegment, Bool.and_eq_true, List.all_eq_true] at h
    intro d hd
    rcases List.mem_cons.mp hd with rfl | hd
    · simp [isNamePart, h.1]
    · exact h.2 d hd

theorem takeWhile_namePart {s rest : List Char} (h : isSegment s = true)
    (hr : ∀ c, rest.head? = some c → isNamePart c = false) :
    (s ++ rest).takeWhile isNamePart = s ∧ (s ++ rest).dropWhile isNamePart = rest := by
  rw [List.takeWhile_append_of_pos (isSegment_namePart h),
    List.dropWhile_append_of_pos (isSegment_namePart h)]
  cases rest with
  | nil => simp
  | cons c cs => simp [hr c rfl]

theorem segmentsText_head (more : List (List Char)) {rest : List Char} (hr : Delimits rest) (c : Char)
    (hc : (segmentsText more ++ rest).head? = some c) : isNamePart c = false := by
  cases more with
  | nil => exact hr.not_namePart c hc
  | cons s more =>
    obtain rfl := Option.some.inj hc
    rfl

theorem readSegments_text {more : List (List Char)} {rest : List Char}
    (h : ∀ s ∈ more, isSegment s = true) (hr : Delimits rest) :
    readSegments (segmentsText more ++ rest) = (segmentsText more, rest) := by
  induction more with
  | nil => exact hr.readSegments_eq
  | cons s more ih =>
    have hs := h s (by simp)
    obtain ⟨c, cs, rfl⟩ : ∃ c cs, s = c :: cs := by
      cases s with
      | nil => cases hs
      | cons c cs => exact ⟨c, cs, rfl⟩
    rw [isSegment, Bool.and_eq_true, List.all_eq_true] at hs
    have htake : (cs ++ (segmentsText more ++ rest)).takeWhile isNamePart = cs ∧
        (cs ++ (segmentsText more ++ rest)).dropWhile isNamePart = segmentsText more ++ rest := by
      rw [List.takeWhile_append_of_pos hs.2, List.dropWhile_append_of_pos hs.2]
      cases ht : segmentsText more ++ rest with
      | nil => simp
      | cons d ds => simp [segmentsText_head more hr d (by rw [ht]; rfl)]
    have hcons : segmentsText ((c :: cs) :: more) ++ rest =
        ':' :: c :: (cs ++ (segmentsText more ++ rest)) := by
      simp [segmentsText]
    rw [hcons, readSegments, if_pos hs.1, htake.1, htake.2, ih fun s h' => h s (by simp [h'])]
    simp [segmentsText]

/-- A character that starts a name starts nothing else. -/
theorem step_name {c : Char} {cs word rest : List Char} (line col : Nat) (hc : isNameStart c = true)
    (h : readName (c :: cs) = (word, rest)) :
    step c cs line col = .ok (.token (if keywords.contains (String.ofList word) then .op else .ident)
      (String.ofList word) [], ⟨rest, line, col + word.length⟩) := by
  have hne (d : Char) (hd : isNameStart d = false) : (c == d) = false := by
    rw [beq_eq_false_iff_ne]
    rintro rfl
    rw [hd] at hc
    cases hc
  simp only [step, hne '\n' rfl, hne ' ' rfl, hne '\t' rfl, hne '\r' rfl, hne '/' rfl, hne '"' rfl,
    hne '\'' rfl, hne '\x60' rfl, isNameStart_not_digit hc, hc, h, Bool.false_and, Bool.or_false,
    Bool.false_eq_true, if_false, if_true]

theorem IsPath.not_keyword {name : String} (h : IsPath name) : keywords.contains name = false := by
  obtain ⟨first, more, hname, -, -, hkey⟩ := h
  cases more with
  | nil =>
    rw [segmentsText, List.flatMap_nil, List.append_nil] at hname
    rwa [← hname, String.ofList_toList] at hkey
  | cons s more =>
    have hall : ∀ w ∈ keywords, ':' ∉ w.toList := by decide
    have hmem : ':' ∈ name.toList := by simp [hname, segmentsText]
    by_contra hk
    exact hall name (by simpa using hk) hmem

theorem lexes_name {name : String} (h : IsPath name) :
    Lexes Delimits name.toList (.one .ident name) := by
  have hnot := h.not_keyword
  obtain ⟨first, more, hname, hfirst, hmore, hkey⟩ := h
  obtain ⟨c, cs, rfl⟩ : ∃ c cs, first = c :: cs := by
    cases first with
    | nil => cases hfirst
    | cons c cs => exact ⟨c, cs, rfl⟩
  have hc : isNameStart c = true := by
    rw [isSegment, Bool.and_eq_true] at hfirst
    exact hfirst.1
  rw [hname, List.cons_append]
  refine lexes_one fun line col =>
    ⟨[], line, col + (c :: cs ++ segmentsText more).length, fun rest hr => ?_⟩
  have hname' : String.ofList (c :: cs ++ segmentsText more) = name := by
    rw [← hname, String.ofList_toList]
  have hread : readName (c :: (cs ++ segmentsText more ++ rest)) =
      (c :: cs ++ segmentsText more, rest) := by
    obtain ⟨ht, hd⟩ := takeWhile_namePart hfirst (segmentsText_head more hr)
    rw [show c :: (cs ++ segmentsText more ++ rest) = c :: cs ++ (segmentsText more ++ rest) by simp,
      readName, ht, hd, hkey, readSegments_text hmore hr]
    rfl
  rw [step_name line col hc hread, hname', hnot]
  rfl

theorem lexes_keyword {word : String} (h : word ∈ keywords) :
    Lexes Delimits word.toList (.one .op word) := by
  have hsegment : ∀ w ∈ keywords, isSegment w.toList = true := by decide
  have hs := hsegment word h
  have hkey : keywords.contains (String.ofList word.toList) = true := by
    rw [String.ofList_toList]
    simpa using h
  have hword := String.ofList_toList (s := word)
  generalize word.toList = cs at *
  cases cs with
  | nil => cases hs
  | cons c cs =>
    have hc : isNameStart c = true := by
      rw [isSegment, Bool.and_eq_true] at hs
      exact hs.1
    refine lexes_one fun line col => ⟨[], line, col + (c :: cs).length, fun rest hr => ?_⟩
    have hread : readName (c :: (cs ++ rest)) = (c :: cs, rest) := by
      obtain ⟨ht, hd⟩ := takeWhile_namePart hs hr.not_namePart
      rw [← List.cons_append, readName, ht, hd, hkey]
      rfl
    rw [step_name line col hc hread, hkey, hword]
    rfl

/-- A token that can stand after a dot. -/
def Token.IsMember (t : Token) (name : String) : Prop :=
  t.text = name ∧ (t.kind = .ident ∨ isWord name = true)

/-- One token that can stand after a dot. -/
def Tokens.member (name : String) : Tokens := fun _ _ ts =>
  ∃ t, ts = [t] ∧ t.IsMember name

theorem lexes_member {name : String} (h : isSegment name.toList = true) :
    Lexes Delimits name.toList (.member name) := by
  by_cases hk : name ∈ keywords
  · have hw : ∀ w ∈ keywords, isWord w = true := by decide +kernel
    exact (lexes_keyword hk).imp fun _ _ ts ⟨t, ht, hi⟩ => ⟨t, ht, hi.text, .inr (hw name hk)⟩
  · have hp : IsPath name := by
      refine ⟨name.toList, [], by simp [segmentsText], h, nofun, ?_⟩
      simpa using hk
    exact (lexes_name hp).imp fun _ _ ts ⟨t, ht, hi⟩ => ⟨t, ht, hi.text, .inl hi.kind⟩

/-! ## Numbers and strings -/

theorem readExponent_numeral (n : Numeral) {rest : List Char} (h : Delimits rest) :
    readExponent (n.exponentText ++ rest) = some (n.exponentText, rest) := by
  unfold Numeral.exponentText
  split
  · exact h.readExponent_eq
  · rename_i negative ds he
    obtain ⟨hne, hds⟩ := n.exponent_digits _ he
    obtain ⟨ht, hd⟩ := takeWhile_digits hds h.not_digit
    have hs : readSign ((if negative then '-' else '+') :: (ds ++ rest)) =
        ([if negative then '-' else '+'], ds ++ rest) := by
      cases negative <;> rfl
    have hne : ds.isEmpty = false := by simpa using hne
    simp [readExponent, hs, ht, hd, hne]

theorem readNumber_numeral (n : Numeral) {rest : List Char} (h : Delimits rest) :
    readNumber (n.text ++ rest) = some (n.text, rest) := by
  have hexp (c : Char) (hc : (n.exponentText ++ rest).head? = some c) : isDigit c = false := by
    cases he : n.exponentText with
    | nil => exact h.not_digit c (by simpa [he] using hc)
    | cons d ds =>
      obtain rfl : d = c := by simpa [he] using hc
      rw [n.exponentText_head d (by rw [he]; rfl)]
      rfl
  unfold readNumber Numeral.text Numeral.partText
  by_cases hp : n.part = []
  · obtain ⟨ht, hd⟩ := takeWhile_digits n.whole_digits hexp
    have hf : readFraction (n.exponentText ++ rest) = ([], n.exponentText ++ rest) := by
      cases he : n.exponentText with
      | nil => exact h.readFraction_eq
      | cons d ds =>
        obtain rfl := n.exponentText_head d (by rw [he]; rfl)
        rfl
    simp only [hp, List.isEmpty_nil, if_true, List.append_nil, List.append_assoc, ht, hd, hf,
      readExponent_numeral n h, Option.map_some]
  · obtain ⟨ht, hd⟩ := takeWhile_digits n.whole_digits
      (show ∀ c, ('.' :: (n.part ++ (n.exponentText ++ rest))).head? = some c → isDigit c = false by
        rintro c ⟨⟩
        rfl)
    obtain ⟨ht', hd'⟩ := takeWhile_digits n.part_digits hexp
    obtain ⟨d, ds, hpart⟩ := List.exists_cons_of_ne_nil hp
    have hdigit : isDigit d = true := n.part_digits d (by simp [hpart])
    have hf : readFraction ('.' :: (n.part ++ (n.exponentText ++ rest))) =
        ('.' :: n.part, n.exponentText ++ rest) := by
      rw [hpart] at ht' hd' ⊢
      rw [List.cons_append] at ht' hd' ⊢
      rw [readFraction, if_pos hdigit, ht', hd']
    have hp' : n.part.isEmpty = false := by simpa using hp
    simp only [hp', Bool.false_eq_true, if_false, List.append_assoc, List.cons_append, ht, hd, hf,
      readExponent_numeral n h, Option.map_some]

theorem lexes_number (n : Numeral) :
    Lexes Delimits n.text (.one .number (String.ofList n.text)) := by
  obtain ⟨c, cs, hn, hd⟩ := n.text_eq_cons
  rw [hn]
  refine lexes_one fun line col => ⟨[], line, col + (c :: cs).length, fun rest hr => ?_⟩
  have hread := readNumber_numeral n hr
  rw [hn, List.cons_append] at hread
  have hne (d : Char) (h : isDigit d = false) : (c == d) = false := by
    rw [beq_eq_false_iff_ne]
    rintro rfl
    rw [h] at hd
    cases hd
  simp only [step, hne '\n' rfl, hne ' ' rfl, hne '\t' rfl, hne '\r' rfl, hne '/' rfl, hd, hread,
    Bool.false_and, Bool.or_false, Bool.false_eq_true, if_false, if_true]

/-- A character of a string is read as itself. -/
theorem readString_quoteChar (c : Char) (line col : Nat) :
    ∃ line' col', ∀ cs, readString '"' line col (quoteChar c ++ cs) =
      (readString '"' line' col' cs).map fun (value, after) => (c :: value, after) := by
  unfold quoteChar
  split
  case h_6 h₁ h₂ h₃ h₄ h₅ =>
    refine ⟨line, col + 1, fun cs => ?_⟩
    rw [List.singleton_append, readString]
    · rw [if_neg (by simpa using h₂), if_neg (by simpa using h₃)]
    all_goals simp_all
  all_goals
    refine ⟨line, col + 2, fun cs => ?_⟩
    simp [readString, unescape]

theorem readString_quote (cs : List Char) (line col : Nat) :
    ∃ line' col', ∀ rest, readString '"' line col (cs.flatMap quoteChar ++ '"' :: rest) =
      some (cs, ⟨rest, line', col'⟩) := by
  induction cs generalizing line col with
  | nil => exact ⟨line, col + 1, fun rest => by simp [readString]⟩
  | cons c cs ih =>
    obtain ⟨line₁, col₁, hc⟩ := readString_quoteChar c line col
    obtain ⟨line₂, col₂, hcs⟩ := ih line₁ col₁
    refine ⟨line₂, col₂, fun rest => ?_⟩
    rw [List.flatMap_cons, List.append_assoc, hc, hcs]
    rfl

theorem lexes_quote (s : String) : Lexes (fun _ => True) (quote s).toList (.one .string s) := by
  rw [quote, String.toList_ofList, List.cons_append]
  refine lexes_one fun line col => ?_
  obtain ⟨line', col', h⟩ := readString_quote s.toList line (col + 1)
  refine ⟨[], line', col', fun rest _ => ?_⟩
  have h := h rest
  simp [step, isDigit, h]

/-! ## Operators -/

theorem lexes_operator {c : Char} {cs : List Char}
    (h : ∀ line col rest, D rest → step c (cs ++ rest) line col =
      .ok (.token .op (String.ofList (c :: cs)) [], ⟨rest, line, col + (c :: cs).length⟩)) :
    Lexes D (c :: cs) (.one .op (String.ofList (c :: cs))) :=
  lexes_one fun line col => ⟨[], line, col + (c :: cs).length, h line col⟩

/-- The characters that are operators wherever they stand. -/
def brackets : List Char :=
  ['(', ')', '[', ']', '\x7b', '\x7d', ',', ':', ';', '.', '?', '@']

/-- The characters that are operators before an operand. -/
def signs : List Char :=
  ['!', '+', '-']

/-- An operator of one character that the text behind it does not lengthen. -/
theorem lexes_single {c : Char} (h : c ∈ brackets ++ signs)
    (hD : ∀ d rest, D (d :: rest) → (c, d) ∉ doubleOperators) :
    Lexes D [c] (.one .op (String.ofList [c])) := by
  refine lexes_operator fun line col rest hr => ?_
  have hread : readOperator (c :: rest) = some ([c], rest) := by
    have hsingle : ∀ c ∈ brackets ++ signs, c ∈ singleOperators :=
      List.all_iff_forall_prop.mp (by decide)
    cases rest with
    | nil => simp [readOperator, hsingle c h]
    | cons d ds => simp [readOperator, hsingle c h, hD d ds hr]
  have hplain : ∀ c ∈ brackets ++ signs, (c == '\n' || c == ' ' || c == '\t' || c == '\r' ||
      c == '/' || isDigit c || c == '"' || c == '\'' || c == '\x60' || isNameStart c) = false :=
    List.all_iff_forall_prop.mp (by decide)
  have hp := hplain c h
  simp only [Bool.or_eq_false_iff] at hp
  simp [step, hp, hread]

theorem lexes_bracket {c : Char} (h : c ∈ brackets) :
    Lexes (fun _ => True) [c] (.one .op (String.ofList [c])) := by
  have hdouble : ∀ c ∈ brackets, ∀ p ∈ doubleOperators, p.1 ≠ c :=
    List.all_iff_forall_prop.mp (by decide)
  exact lexes_single (List.mem_append_left _ h) fun d _ _ hd => hdouble c h (c, d) hd rfl

theorem lexes_sign {c : Char} (h : c ∈ signs) :
    Lexes (fun rest => rest.head? ≠ some '=') [c] (.one .op (String.ofList [c])) := by
  have hdouble : ∀ c ∈ signs, ∀ p ∈ doubleOperators, p.1 = c → p.2 = '=' :=
    List.all_iff_forall_prop.mp (by decide)
  refine lexes_single (List.mem_append_right _ h) fun d _ hr hd => hr ?_
  exact congrArg some (hdouble c h (c, d) hd rfl)

/-- The operators that stand between blanks. -/
def spacedOperators : List String :=
  ["=", "=>", "+=", "-="] ++ binaryOperators

theorem lexes_spaced {op : String} (h : op ∈ spacedOperators) :
    Lexes (fun rest => ∃ more, rest = ' ' :: more) op.toList (.one .op op) := by
  simp only [spacedOperators, binaryOperators, List.cons_append, List.nil_append, List.mem_cons,
    List.not_mem_nil, or_false] at h
  rcases h with rfl | rfl | rfl | rfl | rfl | rfl | rfl | rfl | rfl | rfl | rfl | rfl | rfl | rfl |
    rfl | rfl | rfl | rfl <;>
  · refine lexes_operator ?_
    rintro line col _ ⟨more, rfl⟩
    rfl

end ScriptBridge.AiScript
