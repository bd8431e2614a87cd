import ScriptBridge.Proofs.TypeScript.Places

/-!
# Reading quoted text and numerals

How far escapes, strings and numerals reach, which characters are in them, and that strings and escapes
read the same in a longer text.

* `readEscape_over`, `readEscape_extend`: escapes.
* `readString_reaches`, `readString_extend`: strings.
* `skipNumber_over`: numerals.
-/

namespace ScriptBridge.TypeScript

open Cursor

/-! ## Escapes -/

/-- What can stand in an escape behind the character after the backslash. -/
def InEscape (x : Char) : Prop :=
  x ≠ '\x60' ∧ x ≠ '\\' ∧ x ≠ '$'

instance : DecidablePred InEscape :=
  fun x => inferInstanceAs (Decidable (x ≠ '\x60' ∧ x ≠ '\\' ∧ x ≠ '$'))

/-- Digits that have a value are hexadecimal. -/
theorem isSome_hexDigit {digits : List Char} {acc n : Nat} (h : natOfDigits? 16 acc digits = some n) :
    ∀ x ∈ digits, (hexDigit? x).isSome = true := by
  induction digits generalizing acc with
  | nil => exact nofun
  | cons x digits ih =>
    rw [natOfDigits?] at h
    split at h
    · rename_i d hd
      split at h
      · intro y hy
        obtain rfl | hy := List.mem_cons.mp hy
        · rw [hd]; rfl
        · exact ih h y hy
      · cases h
    · cases h

theorem inEscape_of_hexDigit {x : Char} (h : (hexDigit? x).isSome = true) : InEscape x := by
  refine ⟨?_, ?_, ?_⟩ <;> rintro rfl <;> revert h <;> decide

theorem inEscape_of_digits {digits : List Char} {n : Nat} (h : natOfDigits? 16 0 digits = some n) :
    ∀ x ∈ digits, InEscape x :=
  fun x hx => inEscape_of_hexDigit (isSome_hexDigit h x hx)

/-- Where a run of characters does not reach to the end, a character follows that fails the test. -/
theorem takeWhile_lt {f : Char → Bool} {cs : List Char}
    (h : ¬ cs.length = (cs.takeWhile f).length) :
    ∃ x after, cs = cs.takeWhile f ++ x :: after ∧ f x = false := by
  have hsplit : cs.takeWhile f ++ cs.dropWhile f = cs := List.takeWhile_append_dropWhile
  cases hd : cs.dropWhile f with
  | nil =>
    rw [hd, List.append_nil] at hsplit
    exact absurd (congrArg List.length hsplit.symm) h
  | cons x after =>
    have hx := List.head?_dropWhile_not f cs
    rw [hd] at hx hsplit
    exact ⟨x, after, hsplit.symm, by simpa using hx⟩

theorem tail_of_peek {c : Cursor} {x : Char} (h : c.peek 1 = some x) :
    c.rest.tail = x :: c.rest.drop 2 := by
  rw [peek] at h
  obtain ⟨hlen, rfl⟩ := List.getElem?_eq_some_iff.mp h
  rw [← List.drop_one, List.drop_eq_getElem_cons hlen]

/-- The digits of a unicode escape, behind the `u`. -/
theorem unicodeDigits_over {c d : Cursor} {digits : List Char} (h : unicodeDigits c = .ok (digits, d))
    (hdigits : ∀ x ∈ digits, InEscape x) : c.bump.Over InEscape d := by
  revert h
  fun_cases unicodeDigits c with
  | case1 => exact fun h => absurd h fail_ne_ok
  | case2 hbrace inside hclosed =>
    intro h
    obtain ⟨rfl, rfl⟩ := Prod.mk.inj (Except.ok.inj h)
    obtain ⟨x, after, hsplit, hx⟩ := takeWhile_lt hclosed
    have hrest : c.bump.rest = ('\x7b' :: inside ++ [x]) ++ after := by
      rw [rest_bump, tail_of_peek hbrace, hsplit]
      simp [inside]
    show c.bump.Over InEscape (c.bump.skip (inside.length + 2))
    refine over_skip fun y hy => ?_
    rw [hrest, List.take_left' (by simp), List.cons_append, List.mem_cons, List.mem_append,
      List.mem_singleton] at hy
    obtain rfl | hy | rfl := hy
    · decide
    · exact hdigits y hy
    · obtain rfl : y = '\x7d' := by simpa using hx
      decide
  | case3 =>
    intro h
    obtain ⟨rfl, rfl⟩ := Prod.mk.inj (Except.ok.inj h)
    show c.bump.Over InEscape (c.bump.skip 4)
    refine over_skip fun x hx => hdigits x ?_
    rwa [rest_bump, ← List.drop_one] at hx

theorem readEscape_over {c d : Cursor} {value : List Char} (h : readEscape c = .ok (value, d)) :
    c.rest ≠ [] ∧ c.bump.Over InEscape d := by
  revert h
  fun_cases readEscape c with
  | case1 | case4 => exact fun h => absurd h fail_ne_ok
  | case2 _ _ hr | case7 _ _ hr | case8 _ _ hr =>
    intro h
    obtain ⟨-, rfl⟩ := Prod.mk.inj (Except.ok.inj h)
    exact ⟨by simp [hr], .refl _ _⟩
  | case3 _ _ hr _ digits _ _ hvalue =>
    intro h
    obtain ⟨-, rfl⟩ := Prod.mk.inj (Except.ok.inj h)
    refine ⟨by simp [hr], ?_⟩
    show c.bump.Over InEscape (c.bump.skip 2)
    refine over_skip fun x hx => inEscape_of_digits hvalue x ?_
    rwa [rest_bump, ← List.drop_one] at hx
  | case6 _ _ hr _ _ hcr =>
    intro h
    obtain ⟨-, rfl⟩ := Prod.mk.inj (Except.ok.inj h)
    refine ⟨by simp [hr], ?_⟩
    show c.bump.Over InEscape (c.bump.skip 1)
    simp only [Bool.and_eq_true, decide_eq_true_eq] at hcr
    refine over_skip fun x hx => ?_
    rw [rest_bump, tail_of_peek hcr.2, List.take_succ_cons, List.take_zero, List.mem_singleton] at hx
    rw [hx]
    decide
  | case5 _ _ hr =>
    intro h
    obtain ⟨⟨digits, after⟩, hu, h⟩ := bind_eq_ok_iff.1 h
    simp only at h
    split at h
    · rename_i hvalue
      obtain ⟨_, _, h⟩ := bind_eq_ok_iff.1 h
      obtain ⟨-, rfl⟩ := Prod.mk.inj (Except.ok.inj h)
      exact ⟨by simp [hr], unicodeDigits_over hu (inEscape_of_digits hvalue)⟩
    · exact absurd h fail_ne_ok

theorem unicodeDigits_extend {c d : Cursor} {digits : List Char} (h : unicodeDigits c = .ok (digits, d))
    (hd : d.rest ≠ []) (hc : 1 < c.rest.length) (tail : List Char) :
    unicodeDigits (c.extend tail) = .ok (digits, d.extend tail) := by
  have hpeek : (c.extend tail).peek 1 = c.peek 1 := List.getElem?_append_left hc
  have hdrop : (c.rest ++ tail).drop 2 = c.rest.drop 2 ++ tail := List.drop_append_of_le_length hc
  rw [unicodeDigits] at h ⊢
  rw [hpeek, rest_extend, hdrop]
  by_cases hbrace : c.peek 1 = some '\x7b'
  · rw [if_pos hbrace] at h ⊢
    simp only at h ⊢
    split at h
    · exact absurd h fail_ne_ok
    · rename_i hclosed
      obtain ⟨rfl, rfl⟩ := Prod.mk.inj (Except.ok.inj h)
      have hrun : (c.rest.drop 2).takeWhile (· != '\x7d') <+: c.rest.drop 2 :=
        List.takeWhile_prefix _
      have hlt := Nat.lt_of_le_of_ne hrun.length_le (Ne.symm hclosed)
      rw [List.takeWhile_append, if_neg (Nat.ne_of_lt hlt), List.length_append, if_neg (by omega),
        skip_extend]
      rw [List.length_drop] at hlt
      omega
  · rw [if_neg hbrace] at h ⊢
    obtain ⟨rfl, rfl⟩ := Prod.mk.inj (Except.ok.inj h)
    have hlen : 5 < c.rest.length := by
      rw [rest_skip, ← List.length_pos_iff, List.length_drop] at hd
      omega
    rw [List.drop_append_of_le_length (Nat.le_of_lt hc), List.take_append_of_le_length ?_,
      skip_extend (Nat.le_of_lt hlen)]
    rw [List.length_drop]
    omega

theorem readEscape_extend {c d : Cursor} {value : List Char} (h : readEscape c = .ok (value, d))
    (hd : d.rest ≠ []) (tail : List Char) :
    readEscape (c.extend tail) = .ok (value, d.extend tail) := by
  obtain ⟨hne, word, hword, -, hskip⟩ := readEscape_over h
  have hlen : word.length + 1 < c.rest.length := by
    have hrest := congrArg List.length hword
    have hpos := List.length_pos_iff.mpr hd
    have hpos' := List.length_pos_iff.mpr hne
    rw [rest_bump, List.length_tail, List.length_append] at hrest
    omega
  have hone : 1 < c.rest.length := by omega
  have hpeek : (c.extend tail).peek 1 = c.peek 1 := List.getElem?_append_left hone
  have hbump : (c.extend tail).bump = c.bump.extend tail := bump_extend hne tail
  obtain ⟨x, cs, hr⟩ := List.exists_cons_of_ne_nil hne
  rw [readEscape] at h ⊢
  simp only [rest_extend, hr, List.cons_append, peekIs, hpeek] at h ⊢
  split at h
  · obtain ⟨rfl, rfl⟩ := Prod.mk.inj (Except.ok.inj h)
    rw [hbump]
  by_cases hx : (x == 'x') = true
  · rw [if_pos hx] at h ⊢
    simp only [List.drop_one, List.tail_cons] at h ⊢
    split at h
    · rename_i n hvalue hlength
      obtain ⟨rfl, rfl⟩ := Prod.mk.inj (Except.ok.inj h)
      have htwo : 2 ≤ cs.length := by
        rw [List.length_take] at hlength
        omega
      rw [List.take_append_of_le_length htwo, hvalue, hlength]
      have hthree : 3 ≤ c.rest.length := by
        rw [hr, List.length_cons]
        omega
      simp only [skip_extend hthree]
    · exact absurd h fail_ne_ok
  rw [if_neg hx] at h ⊢
  by_cases hu : (x == 'u') = true
  · rw [if_pos hu] at h ⊢
    obtain ⟨⟨digits, after⟩, hdigits, h⟩ := bind_eq_ok_iff.1 h
    simp only at h
    split at h
    · rename_i n y ys hvalue
      obtain ⟨w, hw, h⟩ := bind_eq_ok_iff.1 h
      obtain ⟨rfl, rfl⟩ := Prod.mk.inj (Except.ok.inj h)
      refine bind_eq_ok_iff.2 ⟨_, unicodeDigits_extend hdigits hd hone tail, ?_⟩
      simp only [hvalue]
      exact bind_eq_ok_iff.2 ⟨w, hw, rfl⟩
    · exact absurd h fail_ne_ok
  rw [if_neg hu] at h ⊢
  by_cases hcr : (x == '\x0d' && decide (c.peek 1 = some '\n')) = true
  · rw [if_pos hcr] at h ⊢
    obtain ⟨rfl, rfl⟩ := Prod.mk.inj (Except.ok.inj h)
    rw [skip_extend hone]
  rw [if_neg hcr] at h ⊢
  split at h
  · rename_i hnewline
    obtain ⟨rfl, rfl⟩ := Prod.mk.inj (Except.ok.inj h)
    rw [if_pos hnewline, hbump]
  · rename_i hnewline
    obtain ⟨rfl, rfl⟩ := Prod.mk.inj (Except.ok.inj h)
    rw [if_neg hnewline, hbump]

/-! ## Strings -/

/-- A character of quoted text, or an escape, in a longer text. -/
theorem readPlainOrEscape_extend {x : Char} {c d : Cursor} {cs value : List Char}
    (hr : c.rest = x :: cs) (h : readPlainOrEscape x c = .ok (value, d)) (hd : d.rest ≠ [])
    (tail : List Char) : readPlainOrEscape x (c.extend tail) = .ok (value, d.extend tail) := by
  have hbump : (c.extend tail).bump = c.bump.extend tail := bump_extend (by simp [hr]) tail
  rw [readPlainOrEscape] at h ⊢
  rw [hbump]
  split at h
  · rename_i hx
    rw [if_pos hx]
    exact readEscape_extend h hd tail
  · rename_i hx
    obtain ⟨rfl, rfl⟩ := Prod.mk.inj (Except.ok.inj h)
    rw [if_neg hx]

theorem readPlainOrEscape_reaches {x : Char} {c d : Cursor} {value : List Char}
    (h : readPlainOrEscape x c = .ok (value, d)) : c.Reaches d := by
  rw [readPlainOrEscape] at h
  split at h
  · exact c.reaches_bump.trans ((reaches_bump _).trans (readEscape_over h).2.reaches)
  · obtain ⟨-, rfl⟩ := Prod.mk.inj (Except.ok.inj h)
    exact c.reaches_bump

theorem stringTail_reaches {start c d : Cursor} {quote : Char} {value : List Char}
    (h : stringTail start quote c = .ok (value, d)) : c.rest ≠ [] ∧ c.Reaches d := by
  fun_induction stringTail start quote c generalizing value with
  | case1 | case2 | case4 => cases h
  | case3 c _ _ hr =>
    obtain ⟨-, rfl⟩ := Prod.mk.inj (Except.ok.inj h)
    exact ⟨by simp [hr], c.reaches_bump⟩
  | case5 c _ _ hr _ _ _ _ he ih =>
    obtain ⟨_, ha, h⟩ := bind_eq_ok_iff.1 h
    obtain ⟨-, rfl⟩ := Prod.mk.inj (Except.ok.inj h)
    exact ⟨by simp [hr], (readPlainOrEscape_reaches he).trans (ih ha).2⟩

theorem stringTail_quote {start c : Cursor} {quote x : Char} {cs : List Char} (hr : c.rest = x :: cs)
    (hnewline : ¬ (x == '\n') = true) (hquote : (x == quote) = true) :
    stringTail start quote c = .ok ([], c.bump) := by
  rw [stringTail]
  split
  · simp_all
  · rename_i y ys hy
    obtain ⟨rfl, rfl⟩ := List.cons.inj (hr.symm.trans hy)
    rw [if_neg hnewline, if_pos hquote]

theorem stringTail_char {start c after d : Cursor} {quote x : Char} {cs value more : List Char}
    (hr : c.rest = x :: cs) (hnewline : ¬ (x == '\n') = true) (hquote : ¬ (x == quote) = true)
    (he : readPlainOrEscape x c = .ok (value, after)) (hd : stringTail start quote after = .ok (more, d)) :
    stringTail start quote c = .ok (value ++ more, d) := by
  rw [stringTail]
  split
  · simp_all
  · rename_i y ys hy
    obtain ⟨rfl, rfl⟩ := List.cons.inj (hr.symm.trans hy)
    rw [if_neg hnewline, if_neg hquote]
    split
    · rename_i hfault
      rw [he] at hfault
      cases hfault
    · rename_i hread
      obtain ⟨rfl, rfl⟩ := Prod.mk.inj (Except.ok.inj (he.symm.trans hread))
      rw [hd]
      rfl

/-- A string reads the same in a longer text; where it starts matters only where it does not end. -/
theorem stringTail_extend {start c d : Cursor} {quote : Char} {value : List Char}
    (h : stringTail start quote c = .ok (value, d)) (start' : Cursor) (tail : List Char) :
    stringTail start' quote (c.extend tail) = .ok (value, d.extend tail) := by
  fun_induction stringTail start quote c generalizing value with
  | case1 | case2 | case4 => cases h
  | case3 c x cs hr hnewline hquote =>
    obtain ⟨rfl, rfl⟩ := Prod.mk.inj (Except.ok.inj h)
    have hlonger : (c.extend tail).rest = x :: (cs ++ tail) := by rw [rest_extend, hr, List.cons_append]
    rw [stringTail_quote hlonger hnewline hquote, bump_extend (by simp [hr])]
  | case5 c x cs hr hnewline hquote value after he ih =>
    obtain ⟨_, ha, h⟩ := bind_eq_ok_iff.1 h
    obtain ⟨rfl, rfl⟩ := Prod.mk.inj (Except.ok.inj h)
    have hlonger : (c.extend tail).rest = x :: (cs ++ tail) := by rw [rest_extend, hr, List.cons_append]
    have hread := readPlainOrEscape_extend hr he (stringTail_reaches ha).1 tail
    exact stringTail_char hlonger hnewline hquote hread (ih ha)

theorem readString_reaches {quote : Char} {c d : Cursor} {value : List Char}
    (h : readString quote c = .ok (value, d)) : c.Reaches d :=
  c.reaches_bump.trans (stringTail_reaches h).2

theorem readString_extend {quote : Char} {c d : Cursor} {value : List Char} (hc : c.rest ≠ [])
    (h : readString quote c = .ok (value, d)) (tail : List Char) :
    readString quote (c.extend tail) = .ok (value, d.extend tail) := by
  rw [readString, bump_extend hc]
  exact stringTail_extend h _ tail

/-! ## Characters that are passed over one by one -/

/-- The characters that are blanks, or at which a comment, a quotation or braces can begin or end. -/
def markChars : List Char :=
  [' ', '\t', '\r', '\n', '\ufeff', '/', '"', '\'', '\x60', '\x7b', '\x7d']

/-- A character that is passed over on its own, wherever it stands. -/
def IsPlain (x : Char) : Prop :=
  x ∉ markChars

instance : DecidablePred IsPlain :=
  fun x => inferInstanceAs (Decidable (x ∉ markChars))

theorem isPlain_of_test {f : Char → Bool} (hf : markChars.any f = false) {x : Char}
    (h : f x = true) : IsPlain x :=
  fun hx => absurd h (List.any_eq_false.mp hf x hx)

theorem isPlain_of_digit {x : Char} (h : isDigitOrSeparator x = true) : IsPlain x :=
  isPlain_of_test (by decide) h

theorem isPlain_of_hex {x : Char} (h : isHexOrSeparator x = true) : IsPlain x :=
  isPlain_of_test (by decide) h

theorem letterTable_byteOrderMark : letterTable.contains '\ufeff' = false := by
  rw [CharSet.contains, ← Array.any_toList]
  decide +kernel

theorem isPlain_of_namePart {x : Char} (h : isNamePart x = true) : IsPlain x := by
  refine isPlain_of_test ?_ h
  -- Only the byte order mark is looked up in the table of letters.
  simp only [markChars, List.any_cons, isNamePart, isNameStart, isLetter, letterTable_byteOrderMark]
  decide

/-! ## Numerals -/

section
variable {c d : Cursor}

/-- A character that is looked at and taken. -/
theorem over_bump_of_peekIs {f : Char → Bool} (h : c.peekIs 0 f = true)
    (hf : markChars.any f = false) : c.Over IsPlain c.bump := by
  match hr : c.rest with
  | [] => simp [peekIs, peek, hr] at h
  | x :: cs => exact over_bump hr (isPlain_of_test hf (by simpa [peekIs, peek, hr] using h))

theorem over_bump_of_peek {x : Char} (h : c.peek 0 = some x) (hx : IsPlain x) :
    c.Over IsPlain c.bump := by
  match hr : c.rest with
  | [] => simp [peek, hr] at h
  | y :: cs =>
    obtain rfl : y = x := by simpa [peek, hr] using h
    exact over_bump hr hx

theorem skipFraction_over (c : Cursor) : c.Over IsPlain (skipFraction c) := by
  fun_cases skipFraction c with
  | case1 h =>
    exact (over_bump_of_peek h (by decide)).trans ((over_skipWhile _).mono fun _ => isPlain_of_digit)
  | case2 | case4 => exact .refl _ _
  | case3 h => exact over_bump_of_peek h (by decide)

theorem skipSign_over (c : Cursor) : c.Over IsPlain (skipSign c) := by
  unfold skipSign
  split
  · rename_i h
    exact over_bump_of_peekIs h (by decide)
  · exact .refl _ _

theorem skipExponent_over (h : skipExponent c = .ok d) : c.Over IsPlain d := by
  revert h
  fun_cases skipExponent c with
  | case1 hmark =>
    intro h
    obtain rfl := Except.ok.inj h
    refine (over_bump_of_peekIs hmark (by decide)).trans ((skipSign_over _).trans ?_)
    exact (over_skipWhile _).mono fun _ => isPlain_of_test (by decide)
  | case2 => exact fun h => absurd h fail_ne_ok
  | case3 => exact fun h => Except.ok.inj h ▸ .refl _ _

theorem skipNumeral_over (h : skipNumeral c = .ok d) : c.Over IsPlain d := by
  unfold skipNumeral at h
  split at h
  · rename_i hbase
    obtain rfl := Except.ok.inj h
    obtain ⟨hzero, hmark⟩ := Bool.and_eq_true_iff.mp hbase
    have hnext : c.bump.peekIs 0 (['x', 'X', 'b', 'B', 'o', 'O'].contains ·) = true := by
      simpa only [peekIs, peek, rest_bump, List.getElem?_tail] using hmark
    refine (over_bump_of_peek (of_decide_eq_true hzero) (by decide)).trans ?_
    refine (over_bump_of_peekIs hnext (by decide)).trans ?_
    exact (over_skipWhile _).mono fun _ => isPlain_of_hex
  · have hdigits : c.Over IsPlain (c.skipWhile isDigitOrSeparator) :=
      (over_skipWhile _).mono fun _ => isPlain_of_digit
    exact hdigits.trans ((skipFraction_over _).trans (skipExponent_over h))

theorem skipNumber_over (h : skipNumber c = .ok d) : c.Over IsPlain d := by
  obtain ⟨after, ha, h⟩ := bind_eq_ok_iff.1 h
  split at h
  · exact absurd h fail_ne_ok
  · obtain rfl := Except.ok.inj h
    exact skipNumeral_over ha

end

end ScriptBridge.TypeScript
