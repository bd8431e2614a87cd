import ScriptBridge.TypeScript.Token.Cursor

/-!
# Blanks, comments, numerals and strings in a TypeScript text

The pieces of a text that are read without looking into templates. Each reader comes with a lemma
that says how far it moves on.

* `skipTrivia` passes over blanks and comments.
* `readEscape` gives what a backslash and the characters after it stand for.
* `skipNumber` and `readString` find the ends of numerals and strings.
-/

namespace ScriptBridge.TypeScript

/-! ## Blanks and comments -/

/-- The number of characters of a block comment after its opening, its closing included. -/
def commentLength : List Char → Option Nat
  | [] => none
  | '*' :: '/' :: _ => some 2
  | _ :: cs => (commentLength cs).map (· + 1)

/-- The blanks between tokens. -/
def isSpacing (c : Char) : Bool :=
  c == ' ' || c == '\t' || c == '\r' || c == '\n' || c == '\ufeff'

/-- The length of the comment or the run of blanks at a cursor, `0` if there is none. -/
def triviaLength (c : Cursor) : Except LexError Nat :=
  match c.rest with
  | '/' :: '/' :: cs => .ok ((cs.takeWhile (· != '\n')).length + 2)
  | '/' :: '*' :: cs =>
    match commentLength cs with
    | some n => .ok (n + 2)
    | none => c.fail .unterminatedComment
  | cs => .ok (cs.takeWhile isSpacing).length

/-- Passes over blanks and comments and tells whether a line ended among them. -/
def skipTrivia (c : Cursor) : Except LexError (Bool × Cursor) := do
  let n ← triviaLength c
  if _h : n = 0 ∨ c.rest = [] then return (false, c)
  else
    let (newline, done) ← skipTrivia (c.skip n)
    return ((c.rest.take n).contains '\n' || newline, done)
termination_by c.rest.length
decreasing_by exact Cursor.length_skip_lt (fun e => _h (.inl e)) (fun e => _h (.inr e))

/-- Blanks and comments take nothing that follows them. -/
theorem skipTrivia_length {c : Cursor} {r : Bool × Cursor} (h : skipTrivia c = .ok r) :
    r.2.rest.length ≤ c.rest.length := by
  fun_induction skipTrivia c generalizing r with
  | case1 c ih =>
    obtain ⟨n, _, h⟩ := bind_eq_ok_iff.1 h
    split at h
    · obtain rfl := Except.ok.inj h
      exact Nat.le_refl _
    · next hn =>
      obtain ⟨_, ha, h⟩ := bind_eq_ok_iff.1 h
      have hl := Nat.le_trans (ih n hn ha) (c.length_skip_le n)
      obtain rfl := Except.ok.inj h
      exact hl

/-! ## Escapes -/

/-- The characters that a letter after a backslash can stand for. -/
def letterEscape? : Char → Option Char
  | 'n' => some '\n'
  | 'r' => some '\r'
  | 't' => some '\t'
  | 'b' => some '\x08'
  | 'f' => some '\x0c'
  | 'v' => some '\x0b'
  | '0' => some '\x00'
  | _ => none

/-- The character with the given code point. -/
def codePoint (n : Nat) : Except LexError (List Char) :=
  if n ≤ 0x10ffff then .ok [Char.ofNat n] else .error (.noSuchCodePoint n)

/-- The digits of a unicode escape and the cursor behind it; the cursor given is on the `u`. -/
def unicodeDigits (c : Cursor) : Except LexError (List Char × Cursor) :=
  if c.peek 1 = some '\x7b' then
    let inside := (c.rest.drop 2).takeWhile (· != '\x7d')
    if (c.rest.drop 2).length = inside.length then c.fail .invalidUnicodeEscape
    else .ok (inside, c.skip (inside.length + 3))
  else .ok ((c.rest.drop 1).take 4, c.skip 5)

/-- The value of an escape; the cursor given is behind the backslash. -/
def readEscape (c : Cursor) : Except LexError (List Char × Cursor) :=
  match c.rest with
  | [] => c.fail .unfinishedEscape
  | x :: _ =>
    match letterEscape? x, x == '0' && c.peekIs 1 isDigit with
    | some y, false => .ok ([y], c.bump)
    | _, _ =>
      if x == 'x' then
        let digits := (c.rest.drop 1).take 2
        match natOfDigits? 16 0 digits, digits.length with
        | some n, 2 => .ok ([Char.ofNat n], c.skip 3)
        | _, _ => c.fail .invalidHexEscape
      else if x == 'u' then do
        let (digits, after) ← unicodeDigits c
        match natOfDigits? 16 0 digits, digits with
        | some n, _ :: _ => return (← codePoint n, after)
        | _, _ => after.fail .invalidUnicodeEscape
      else if x == '\r' && c.peek 1 = some '\n' then .ok ([], c.skip 2)
      else if x == '\n' then .ok ([], c.bump)
      else .ok ([x], c.bump)

/-- The value of the character `x` at a cursor in quoted text, or of the escape that it begins. -/
def readPlainOrEscape (x : Char) (c : Cursor) : Except LexError (List Char × Cursor) :=
  if x == '\\' then readEscape c.bump else .ok ([x], c.bump)

/-- The digits of an escape take nothing that follows them. -/
theorem unicodeDigits_length {c : Cursor} {r : List Char × Cursor} (h : unicodeDigits c = .ok r) :
    r.2.rest.length ≤ c.rest.length := by
  revert h
  fun_cases unicodeDigits c with
  | case1 => exact fun h => absurd h Cursor.fail_ne_ok
  | case2 | case3 => exact fun h => Except.ok.inj h ▸ c.length_skip_le _

/-- An escape takes nothing that follows it. -/
theorem readEscape_length {c : Cursor} {r : List Char × Cursor} (h : readEscape c = .ok r) :
    r.2.rest.length ≤ c.rest.length := by
  revert h
  fun_cases readEscape c with
  | case1 | case4 => exact fun h => absurd h Cursor.fail_ne_ok
  | case2 | case7 | case8 => exact fun h => Except.ok.inj h ▸ c.length_bump_le
  | case3 | case6 => exact fun h => Except.ok.inj h ▸ c.length_skip_le _
  | case5 =>
    intro h
    obtain ⟨⟨digits, after⟩, hu, h⟩ := bind_eq_ok_iff.1 h
    have hl := unicodeDigits_length hu
    simp only at h
    split at h
    · obtain ⟨_, _, h⟩ := bind_eq_ok_iff.1 h
      obtain rfl := Except.ok.inj h
      exact hl
    · exact absurd h Cursor.fail_ne_ok

/-- A character of quoted text takes at least itself. -/
theorem readPlainOrEscape_length {x : Char} {c : Cursor} {cs : List Char} {r : List Char × Cursor}
    (hr : c.rest = x :: cs) (h : readPlainOrEscape x c = .ok r) :
    r.2.rest.length < c.rest.length := by
  have hb : c.bump.rest.length < c.rest.length := Cursor.length_bump_lt (by simp [hr])
  unfold readPlainOrEscape at h
  split at h
  · exact Nat.lt_of_le_of_lt (readEscape_length h) hb
  · obtain rfl := Except.ok.inj h
    exact hb

/-! ## Numerals and strings -/

/-- A digit or a separator. -/
def isDigitOrSeparator (c : Char) : Bool :=
  isDigit c || c == '_'

/-- A hexadecimal digit or a separator. -/
def isHexOrSeparator (c : Char) : Bool :=
  (hexDigit? c).isSome || c == '_'

/-- The cursor behind the fraction of a decimal numeral. A point before a name is an access. -/
def skipFraction (c : Cursor) : Cursor :=
  if c.peek 0 = some '.' then
    if c.peekIs 1 isDigit then c.bump.skipWhile isDigitOrSeparator
    else if c.peekIs 1 isNameStart then c
    else c.bump
  else c

/-- The cursor behind a sign, if there is one. -/
def skipSign (c : Cursor) : Cursor :=
  if c.peekIs 0 (fun x => x == '+' || x == '-') then c.bump else c

/-- The cursor behind the exponent of a decimal numeral. -/
def skipExponent (c : Cursor) : Except LexError Cursor :=
  if c.peekIs 0 (fun x => x == 'e' || x == 'E') then
    let digits := skipSign c.bump
    if digits.peekIs 0 isDigit then .ok (digits.skipWhile isDigit) else digits.fail .invalidExponent
  else .ok c

/-- The cursor behind a numeral, whatever follows it. -/
def skipNumeral (c : Cursor) : Except LexError Cursor :=
  if c.peek 0 = some '0' && c.peekIs 1 (['x', 'X', 'b', 'B', 'o', 'O'].contains ·) then
    .ok ((c.skip 2).skipWhile isHexOrSeparator)
  else skipExponent (skipFraction (c.skipWhile isDigitOrSeparator))

/-- The cursor behind a numeral, which is not followed by the mark of a big integer. -/
def skipNumber (c : Cursor) : Except LexError Cursor := do
  let after ← skipNumeral c
  if after.peek 0 = some 'n' then after.fail .bigint else return after

/-- A fraction takes nothing that follows it. -/
theorem skipFraction_length (c : Cursor) : (skipFraction c).rest.length ≤ c.rest.length := by
  fun_cases skipFraction c with
  | case1 => exact Nat.le_trans (Cursor.length_skipWhile_le _ _) c.length_bump_le
  | case2 | case4 => exact Nat.le_refl _
  | case3 => exact c.length_bump_le

/-- A point and a digit are a fraction. -/
theorem skipFraction_length_lt {c : Cursor} (h0 : c.peek 0 = some '.')
    (h1 : c.peekIs 1 isDigit = true) : (skipFraction c).rest.length < c.rest.length := by
  simp only [skipFraction, h0, h1, if_true]
  exact Nat.lt_of_le_of_lt (Cursor.length_skipWhile_le _ _)
    (Cursor.length_bump_lt (Cursor.rest_ne_nil h1))

/-- A sign takes nothing that follows it. -/
theorem skipSign_length (c : Cursor) : (skipSign c).rest.length ≤ c.rest.length := by
  unfold skipSign
  split
  · exact c.length_bump_le
  · exact Nat.le_refl _

/-- An exponent takes nothing that follows it. -/
theorem skipExponent_length {c d : Cursor} (h : skipExponent c = .ok d) :
    d.rest.length ≤ c.rest.length := by
  revert h
  fun_cases skipExponent c with
  | case1 =>
    intro h
    obtain rfl := Except.ok.inj h
    exact Nat.le_trans (Cursor.length_skipWhile_le _ _)
      (Nat.le_trans (skipSign_length _) c.length_bump_le)
  | case2 => exact fun h => absurd h Cursor.fail_ne_ok
  | case3 => exact fun h => Except.ok.inj h ▸ Nat.le_refl _

/-- A numeral takes at least one character. -/
theorem skipNumeral_length {c d : Cursor}
    (hc : c.peekIs 0 isDigit = true ∨ c.peek 0 = some '.' ∧ c.peekIs 1 isDigit = true)
    (h : skipNumeral c = .ok d) : d.rest.length < c.rest.length := by
  unfold skipNumeral at h
  split at h
  · obtain rfl := Except.ok.inj h
    have hr : c.rest ≠ [] := hc.elim Cursor.rest_ne_nil fun hc => Cursor.rest_ne_nil hc.2
    exact Nat.lt_of_le_of_lt (Cursor.length_skipWhile_le _ _) (Cursor.length_skip_lt nofun hr)
  · refine Nat.lt_of_le_of_lt (skipExponent_length h) ?_
    cases hc with
    | inl hc =>
      refine Nat.lt_of_le_of_lt (skipFraction_length _) (Cursor.length_skipWhile_lt ?_)
      exact Cursor.peekIs_mono (fun _ hx => by simp [isDigitOrSeparator, hx]) hc
    | inr hc =>
      rw [Cursor.skipWhile_eq_self (by simp [Cursor.peekIs, hc.1]; decide)]
      exact skipFraction_length_lt hc.1 hc.2

/-- A numeral takes at least one character, also if a test follows. -/
theorem skipNumber_length {c d : Cursor}
    (hc : c.peekIs 0 isDigit = true ∨ c.peek 0 = some '.' ∧ c.peekIs 1 isDigit = true)
    (h : skipNumber c = .ok d) : d.rest.length < c.rest.length := by
  obtain ⟨after, ha, h⟩ := bind_eq_ok_iff.1 h
  split at h
  · exact absurd h Cursor.fail_ne_ok
  · obtain rfl := Except.ok.inj h
    exact skipNumeral_length hc ha

/-- The value of a string up to its closing quote; `start` is the opening one. -/
def stringTail (start : Cursor) (quote : Char) (c : Cursor) : Except LexError (List Char × Cursor) :=
  match _hr : c.rest with
  | [] => start.fail .unterminatedString
  | x :: _ =>
    if x == '\n' then start.fail .unterminatedString
    else if x == quote then .ok ([], c.bump)
    else
      match _he : readPlainOrEscape x c with
      | .error e => .error e
      | .ok (value, after) => do
        let (more, done) ← stringTail start quote after
        return (value ++ more, done)
termination_by c.rest.length
decreasing_by exact readPlainOrEscape_length _hr _he

/-- The value of a string; the cursor given is on its opening quote. -/
def readString (quote : Char) (c : Cursor) : Except LexError (List Char × Cursor) :=
  stringTail c quote c.bump

/-- A string takes at least its closing quote. -/
theorem stringTail_length {start c : Cursor} {quote : Char} {r : List Char × Cursor}
    (h : stringTail start quote c = .ok r) : r.2.rest.length < c.rest.length := by
  fun_induction stringTail start quote c generalizing r with
  | case1 | case2 | case4 => exact nomatch h
  | case3 c _ _ hr =>
    obtain rfl := Except.ok.inj h
    exact Cursor.length_bump_lt (by simp [hr])
  | case5 _ _ _ hr _ _ _ _ he ih =>
    obtain ⟨_, ha, h⟩ := bind_eq_ok_iff.1 h
    have hl := Nat.lt_trans (ih ha) (readPlainOrEscape_length hr he)
    obtain rfl := Except.ok.inj h
    exact hl

/-- A string takes at least its quotes. -/
theorem readString_length {quote : Char} {c : Cursor} {r : List Char × Cursor}
    (h : readString quote c = .ok r) : r.2.rest.length < c.rest.length :=
  Nat.lt_of_lt_of_le (stringTail_length h) c.length_bump_le

end ScriptBridge.TypeScript
