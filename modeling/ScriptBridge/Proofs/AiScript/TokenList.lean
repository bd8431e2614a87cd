import ScriptBridge.AiScript.Token
import ScriptBridge.Proofs.Number.Numeral
import Mathlib.Data.List.TakeWhile

/-!
# The tokens of a text

Of the tokens of a text the last one, and no other, stands for the end of the text (`Ended`). The
sources in the template tokens are parts of the text, so all tokens and all these sources together are
no longer than the text (`weight`), and the numerals are decimals.

* `tokenize_ended`, `tokenize_weight`: the end and the weight of the tokens of a text.
* `tokenize_valued`: number tokens have a value.
-/

namespace ScriptBridge.AiScript

variable {t : Token} {ts us : List Token}

/-! ## Lists of tokens -/

/-- Tokens of which the last one, and no other, stands for the end of the text. -/
inductive Ended : List Token → Prop
  | last {t : Token} (hk : t.kind = .eof) (ht : t.text = "") : Ended [t]
  | cons {t : Token} {ts : List Token} (hk : t.kind ≠ .eof) (h : Ended ts) : Ended (t :: ts)

theorem Ended.ne_nil (h : Ended ts) : ts ≠ [] := by
  cases h <;> exact List.cons_ne_nil _ _

theorem Ended.tail (h : Ended (t :: ts)) (ht : t.kind ≠ .eof) : Ended ts := by
  cases h with
  | last hk => exact absurd hk ht
  | cons _ h => exact h

theorem Ended.eq_last (h : Ended (t :: ts)) (ht : t.kind = .eof) : ts = [] := by
  cases h with
  | last => rfl
  | cons hk => exact absurd ht hk

/-- A token with a text is not the last one. -/
theorem Ended.kind_ne_eof (h : Ended (t :: ts)) (ht : t.text ≠ "") : t.kind ≠ .eof := by
  cases h with
  | last _ htext => exact absurd htext ht
  | cons hk => exact hk

/-- The length of the source in a part of a template. -/
def TemplatePart.size : TemplatePart → Nat
  | .text _ => 0
  | .code source _ _ => source.length

/-- A token counts for itself and for the sources in it. -/
def Token.weight (t : Token) : Nat :=
  1 + (t.parts.map TemplatePart.size).sum

/-- The weight of all tokens of a list. -/
def weight (ts : List Token) : Nat :=
  (ts.map Token.weight).sum

@[simp]
theorem weight_nil : weight [] = 0 :=
  rfl

@[simp]
theorem weight_cons : weight (t :: ts) = t.weight + weight ts :=
  rfl

theorem Token.weight_pos (t : Token) : 0 < t.weight :=
  Nat.add_pos_left Nat.one_pos _

theorem Ended.weight_pos (h : Ended ts) : 0 < weight ts := by
  cases h <;> exact Nat.add_pos_left (Token.weight_pos _) _

/-- What is left has lost the weight of the tokens that were taken. -/
theorem weight_suffix (h : us <:+ ts) : weight us + (ts.length - us.length) ≤ weight ts := by
  obtain ⟨before, rfl⟩ := h
  induction before with
  | nil => simp
  | cons t before ih =>
    have := t.weight_pos
    simp only [List.cons_append, weight_cons, List.length_cons, List.length_append] at ih ⊢
    omega


/-! ## Pieces of a text -/

theorem splitInterpolation.push_lengths {c : Char} {o : Option (List Char × List Char)} {n : Nat}
    {r : List Char × List Char}
    (ih : ∀ {q : List Char × List Char}, o = some q → q.1.length + q.2.length < n)
    (h : push c o = some r) : r.1.length + r.2.length < n + 1 := by
  cases o with
  | none => simp [push] at h
  | some q =>
    have hq := ih rfl
    simp only [push, Option.some.injEq] at h
    subst h
    simp only [List.length_cons]
    omega

/-- An interpolation and what follows it are parts of the text, and so is the brace between them. -/
theorem splitInterpolation_lengths {quote : Option Char} {depth : Nat} {cs : List Char}
    {r : List Char × List Char} (h : splitInterpolation quote depth cs = some r) :
    r.1.length + r.2.length < cs.length := by
  fun_induction splitInterpolation quote depth cs generalizing r with
  | case1 => simp at h
  | case3 => simp at h
  | case4 _ _ _ _ _ _ _ ih =>
    exact splitInterpolation.push_lengths (splitInterpolation.push_lengths ih) h
  | case8 =>
    obtain rfl := Option.some.inj h
    simp
  | case2 _ _ _ _ _ ih | case5 _ _ _ _ _ _ ih | case6 _ _ _ _ ih | case7 _ _ _ _ _ ih
  | case9 _ _ _ _ _ _ ih | case10 _ _ _ _ _ _ ih => exact splitInterpolation.push_lengths ih h

theorem sizes_consText (text : List Char) (parts : List TemplatePart) :
    ((consText text parts).map TemplatePart.size).sum = (parts.map TemplatePart.size).sum := by
  unfold consText
  split
  · rfl
  · simp [TemplatePart.size]

theorem readTemplate_sizes {line col : Nat} {text cs : List Char}
    {r : List TemplatePart × Cursor} (h : readTemplate line col text cs = .ok r) :
    (r.1.map TemplatePart.size).sum + r.2.rest.length < cs.length := by
  fun_induction readTemplate line col text cs generalizing r with
  | case1 => simp at h
  | case2 => simp at h
  | case3 _ _ _ _ _ ih => exact Nat.lt_succ_of_lt (Nat.lt_succ_of_lt (ih h))
  | case4 =>
    obtain rfl := Except.ok.inj h
    simp [sizes_consText]
  | case5 => simp at h
  | case6 _ _ _ _ _ _ _ _ _ inside after hs line' col' _ ih =>
    have hl := splitInterpolation_lengths hs
    cases hr : readTemplate line' (col' + 1) [] after with
    | error _ => simp [hr, bind, Except.bind] at h
    | ok a =>
      have ha := ih hr
      simp only [hr, bind, Except.bind, pure, Except.pure, Except.ok.injEq] at h
      subst h
      simp only [sizes_consText, List.map_cons, List.sum_cons, TemplatePart.size, String.length_ofList,
        List.length_cons] at ha hl ⊢
      omega
  | case7 _ _ _ _ _ _ _ _ _ _ ih | case8 _ _ _ _ _ _ _ _ _ _ ih => exact Nat.lt_succ_of_lt (ih h)

/-! ## Numerals -/

theorem allDigits_takeWhile (cs : List Char) : AllDigits (cs.takeWhile isDigit) :=
  fun _ hc => List.mem_takeWhile_imp hc

/-- The characters of number tokens. -/
def isLexemeChar (c : Char) : Bool :=
  isNumeralChar c || c == 'E'

theorem isLexemeChar_digit {c : Char} (h : isDigit c = true) : isLexemeChar c = true := by
  simp [isLexemeChar, isNumeralChar, h]

/-- A lexeme is taken as it stands. -/
theorem plainNumeral_lexeme {cs : List Char} (h : ∀ c ∈ cs, isLexemeChar c = true) :
    plainNumeral cs = cs := by
  have hchar : ∀ c ∈ cs, isBlank c = false ∧ plainDigit c = c := by
    intro c hc
    have := h c hc
    simp only [isLexemeChar, Bool.or_eq_true, beq_iff_eq] at this
    rcases this with hnumeral | rfl
    · exact ⟨isBlank_numeral hnumeral, plainDigit_numeral hnumeral⟩
    · exact ⟨by decide +kernel, by decide +kernel⟩
  have drop {cs : List Char} (h : ∀ c ∈ cs, isBlank c = false) : cs.dropWhile isBlank = cs := by
    cases cs with
    | nil => rfl
    | cons c cs => rw [List.dropWhile_cons, if_neg (by simp [h c (by simp)])]
  rw [plainNumeral, drop fun c hc => (hchar c hc).1,
    drop fun c hc => (hchar c (List.mem_reverse.mp hc)).1, List.reverse_reverse]
  exact (List.map_congr_left fun c hc => (hchar c hc).2).trans (List.map_id cs)

theorem splitSign_digit {c : Char} {cs : List Char} (h : isDigit c = true) :
    splitSign (c :: cs) = (false, c :: cs) := by
  unfold splitSign
  split
  · rename_i heq
    cases heq
    cases h
  · rename_i heq
    cases heq
    cases h
  · rfl

/-- The sign and the digits of an exponent. -/
theorem readSign_digits (cs : List Char) :
    ((readSign cs).1 = [] ∨ (readSign cs).1 = ['+'] ∨ (readSign cs).1 = ['-']) := by
  fun_cases readSign cs with
  | case1 c cs hc =>
    rw [Bool.or_eq_true, beq_iff_eq, beq_iff_eq] at hc
    rcases hc with rfl | rfl
    · exact .inr (.inl rfl)
    · exact .inr (.inr rfl)
  | case2 => exact .inl rfl
  | case3 => exact .inl rfl

/-- A sign in front of digits is taken off them. -/
theorem splitSign_readSign (cs : List Char) {ds : List Char} (hne : ds ≠ []) (hds : AllDigits ds) :
    ∃ negative, splitSign ((readSign cs).1 ++ ds) = (negative, ds) := by
  rcases readSign_digits cs with h | h | h
  · obtain ⟨d, ds, rfl⟩ := List.exists_cons_of_ne_nil hne
    exact ⟨false, by rw [h, List.nil_append, splitSign_digit (hds d List.mem_cons_self)]⟩
  · exact ⟨false, by rw [h]; rfl⟩
  · exact ⟨true, by rw [h]; rfl⟩

/-- An exponent at the start of a text is an exponent of a decimal. -/
theorem exponentOf?_readExponent {cs exponent rest : List Char}
    (h : readExponent cs = some (exponent, rest)) :
    (Double.exponentOf? exponent).isSome = true ∧ (∀ c ∈ exponent, isLexemeChar c = true) ∧
      ∀ c, exponent.head? = some c → c = 'e' ∨ c = 'E' := by
  cases cs with
  | nil =>
    cases h
    exact ⟨rfl, by simp⟩
  | cons c cs =>
    simp only [readExponent] at h
    split at h
    · rename_i he
      split at h
      · cases h
      · rename_i hne
        cases h
        have hds := allDigits_takeWhile (readSign cs).2
        obtain ⟨negative, hsign⟩ := splitSign_readSign cs (by simpa using hne) hds
        refine ⟨?_, ?_, ?_⟩
        · rw [List.cons_append, Double.exponentOf?, if_pos he, hsign]
          simp [hne, natOfDigits?_digits hds 0]
        · intro d hd
          rw [List.cons_append, List.mem_cons, List.mem_append] at hd
          rcases hd with rfl | hd | hd
          · rw [Bool.or_eq_true, beq_iff_eq, beq_iff_eq] at he
            rcases he with rfl | rfl <;> rfl
          · rcases readSign_digits cs with hs | hs | hs <;> rw [hs] at hd
            · cases hd
            · rw [List.mem_singleton.mp hd]
              rfl
            · rw [List.mem_singleton.mp hd]
              rfl
          · exact isLexemeChar_digit (hds d hd)
        · rintro d ⟨⟩
          rwa [Bool.or_eq_true, beq_iff_eq, beq_iff_eq] at he
    · cases h
      exact ⟨rfl, by simp⟩

/-- A fraction is nothing, or a point and digits. -/
theorem readFraction_text (cs : List Char) :
    (readFraction cs).1 = [] ∨ ∃ ds, AllDigits ds ∧ (readFraction cs).1 = '.' :: ds := by
  fun_cases readFraction cs with
  | case1 d cs _ => exact .inr ⟨_, allDigits_takeWhile (d :: cs), rfl⟩
  | case2 => exact .inl rfl
  | case3 => exact .inl rfl

/-- Digits, a fraction and an exponent, one after the other, are a decimal. -/
theorem isSome_ofUnsigned? {whole fraction exponent : List Char} (hne : whole ≠ [])
    (hwhole : AllDigits whole) (hfraction : fraction = [] ∨ ∃ ds, AllDigits ds ∧ fraction = '.' :: ds)
    (hexponent : (Double.exponentOf? exponent).isSome = true)
    (hhead : ∀ c, exponent.head? = some c → c = 'e' ∨ c = 'E') :
    (Double.ofUnsigned? false (whole ++ fraction ++ exponent)).isSome = true := by
  have hempty : whole.isEmpty = false := by simpa using hne
  have hdigit : ∀ c, exponent.head? = some c → isDigit c = false := fun c hc => by
    rcases hhead c hc with rfl | rfl <;> rfl
  obtain ⟨e, he⟩ := Option.isSome_iff_exists.mp hexponent
  rcases hfraction with rfl | ⟨ds, hds, rfl⟩
  · obtain ⟨ht, hd⟩ := takeWhile_digits hwhole hdigit
    rw [List.append_nil, Double.ofUnsigned?, ht, hd]
    cases exponent with
    | nil => simp [hempty, natOfDigits?_digits hwhole 0, he]
    | cons c cs =>
      rcases hhead c rfl with rfl | rfl <;> simp [hempty, natOfDigits?_digits hwhole 0, he]
  · obtain ⟨ht, hd⟩ := takeWhile_digits hwhole
      (show ∀ c, ('.' :: (ds ++ exponent)).head? = some c → isDigit c = false by
        rintro c ⟨⟩
        rfl)
    obtain ⟨ht', hd'⟩ := takeWhile_digits hds hdigit
    rw [List.append_assoc, List.cons_append, Double.ofUnsigned?, ht, hd]
    simp [ht', hd', hempty, natOfDigits?_digits (hwhole.append hds) 0, he]

/-- What starts with a digit is read as an unsigned decimal. -/
theorem ofText?_lexeme {c : Char} {cs : List Char} (hc : isDigit c = true)
    (h : ∀ d ∈ c :: cs, isLexemeChar d = true) :
    Double.ofText? (String.ofList (c :: cs)) = Double.ofUnsigned? false (c :: cs) := by
  have hlower : c.toLower = c := by
    have hr := isDigit_range hc
    unfold Char.toLower
    rw [dif_neg]
    rintro ⟨h, -⟩
    have h : 65 ≤ c.toNat := h
    omega
  have hword (w : String) (hw : w.toList.head?.all (!isDigit ·) = true) :
      (String.ofList ((c :: cs).map Char.toLower) == w) = false := by
    rw [beq_eq_false_iff_ne]
    rintro rfl
    simp [hlower, hc] at hw
  unfold Double.ofText?
  rw [String.toList_ofList, plainNumeral_lexeme h, splitSign_digit hc]
  simp only
  rw [hword "inf" (by decide), hword "infinity" (by decide), hword "nan" (by decide)]
  rfl

/-- A numeral at the start of a text is a decimal. -/
theorem ofText?_readNumber {c : Char} {cs lexeme rest : List Char} (hc : isDigit c = true)
    (h : readNumber (c :: cs) = some (lexeme, rest)) :
    (Double.ofText? (String.ofList lexeme)).isSome = true := by
  let fraction := (readFraction ((c :: cs).dropWhile isDigit)).1
  obtain ⟨⟨exponent, after⟩, hexponent, heq⟩ := Option.map_eq_some_iff.mp h
  obtain ⟨hlexeme, -⟩ : (c :: cs).takeWhile isDigit ++ fraction ++ exponent = lexeme ∧ after = rest :=
    Prod.mk.inj heq
  obtain ⟨hvalue, hchars, hhead⟩ := exponentOf?_readExponent hexponent
  have hfraction : fraction = [] ∨ ∃ ds, AllDigits ds ∧ fraction = '.' :: ds := readFraction_text _
  have hfchars : ∀ d ∈ fraction, isLexemeChar d = true := by
    rcases hfraction with hf | ⟨ds, hds, hf⟩
    · rw [hf]
      exact List.forall_mem_nil _
    · rw [hf]
      exact List.forall_mem_cons.mpr ⟨rfl, fun d hd => isLexemeChar_digit (hds d hd)⟩
  have hwhole := allDigits_takeWhile (c :: cs)
  rw [List.takeWhile_cons, if_pos hc] at hlexeme hwhole
  have hdecimal := isSome_ofUnsigned? (List.cons_ne_nil _ _) hwhole hfraction hvalue hhead
  rw [← hlexeme]
  rw [List.cons_append, List.cons_append] at hdecimal ⊢
  rwa [ofText?_lexeme hc]
  rw [← List.cons_append, ← List.cons_append, List.forall_mem_append, List.forall_mem_append]
  exact ⟨⟨fun d hd => isLexemeChar_digit (hwhole d hd), hfchars⟩, hchars⟩

/-! ## Reading all tokens -/

/-- A number has a value. -/
def Token.Valued (t : Token) : Prop :=
  t.kind = .number → (Double.ofText? t.text).isSome = true

/-- A token that is read is not the last one, the sources in it are parts of the text, and a number
has a value. -/
theorem step_token {c : Char} {cs : List Char} {line col : Nat} {kind : TokenKind} {text : String}
    {parts : List TemplatePart} {after : Cursor}
    (h : step c cs line col = .ok (.token kind text parts, after)) :
    kind ≠ .eof ∧ (parts.map TemplatePart.size).sum + after.rest.length ≤ cs.length ∧
      (kind = .number → (Double.ofText? text).isSome = true) := by
  have hlength := step_length h
  revert h
  fun_cases step c cs line col with
  | case5 | case7 | case9 | case11 | case14 | case1 | case2 | case3 | case4 =>
    intro h
    cases h
  | case6 _ _ _ _ _ hc _ _ hr =>
    intro h
    cases h
    exact ⟨by decide, by simpa using hlength, fun _ => ofText?_readNumber hc hr⟩
  | case8 =>
    intro h
    cases h
    exact ⟨by decide, by simpa using hlength, fun h => by cases h⟩
  | case10 _ _ _ _ _ _ _ _ _ hr =>
    intro h
    cases h
    exact ⟨by decide, Nat.le_of_lt (readTemplate_sizes hr), fun h => by cases h⟩
  | case12 =>
    intro h
    cases h
    refine ⟨?_, by simpa using hlength, ?_⟩
    · split <;> decide
    · split <;> exact fun h => by cases h
  | case13 =>
    intro h
    cases h
    exact ⟨by decide, by simpa using hlength, fun h => by cases h⟩

theorem tokensFrom_spec {cursor : Cursor} {newline space : Bool}
    (h : tokensFrom cursor newline space = .ok ts) :
    Ended ts ∧ weight ts ≤ cursor.rest.length + 1 ∧ ∀ t ∈ ts, t.Valued := by
  fun_induction tokensFrom cursor newline space generalizing ts with
  | case1 =>
    cases h
    exact ⟨.last rfl rfl, by simp [Token.weight], by simp [Token.Valued]⟩
  | case2 => cases h
  | case3 _ _ _ _ _ hr _ hs ih | case4 _ _ _ _ _ hr _ hs ih | case5 _ _ _ _ _ hr _ hs ih
  | case6 _ _ _ _ _ hr _ _ hs ih =>
    obtain ⟨hend, hweight, hvalues⟩ := ih h
    have hlength := step_length hs
    refine ⟨hend, ?_, hvalues⟩
    rw [hr, List.length_cons]
    simp only at hlength
    omega
  | case7 _ _ _ _ _ hr kind text parts after hs ih =>
    obtain ⟨hkind, hsize, hvalue⟩ := step_token hs
    cases hrest : tokensFrom after false false with
    | error e =>
      rw [hrest] at h
      cases h
    | ok us =>
      rw [hrest] at h
      cases h
      obtain ⟨hend, hweight, hvalues⟩ := ih hrest
      refine ⟨.cons hkind hend, ?_, List.forall_mem_cons.mpr ⟨hvalue, hvalues⟩⟩
      rw [hr, List.length_cons, weight_cons, Token.weight]
      simp only
      omega

variable {source : String} {line col : Nat}

/-- The last token of a text stands for its end, and no other does. -/
theorem tokenize_ended (h : tokenize source line col = .ok ts) : Ended ts :=
  (tokensFrom_spec h).1

/-- All tokens of a text, and the sources in them, are no longer than the text and its end. -/
theorem tokenize_weight (h : tokenize source line col = .ok ts) : weight ts ≤ source.length + 1 :=
  String.length_toList ▸ (tokensFrom_spec h).2.1

/-- The numbers of a text have values. -/
theorem tokenize_valued (h : tokenize source line col = .ok ts) : ∀ t ∈ ts, t.Valued :=
  (tokensFrom_spec h).2.2

end ScriptBridge.AiScript
