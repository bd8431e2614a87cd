import ScriptBridge.Number.Reading

/-!
# AiScript tokens

`tokenize` splits AiScript text into tokens; the last one stands for the end of the text. A template
is one token: its parts are texts and the unread sources of its interpolations, each with the place
where it starts.

* `step` reads one token, blank or comment; `step_length` says that it goes forward.
* `splitInterpolation` finds the brace that closes an interpolation, over nested braces and quotes.
-/

namespace ScriptBridge.AiScript

/-- The classes of tokens. Reserved words are operators. -/
inductive TokenKind where
  | number
  | string
  | template
  | ident
  | op
  | eof
deriving DecidableEq, Repr

/-- A piece of a template token. -/
inductive TemplatePart where
  | text (value : String)
  | code (source : String) (line col : Nat)
deriving DecidableEq, Repr

/-- A token. A string's `text` is its value, that of the other tokens is as written. -/
structure Token where
  kind : TokenKind
  text : String
  line : Nat
  col : Nat
  newlineBefore : Bool := false
  spaceBefore : Bool := false
  parts : List TemplatePart := []
deriving DecidableEq, Repr

/-- Why a text has no tokens. -/
inductive LexCause where
  | unterminatedComment
  | invalidExponent
  | unterminatedString
  | unterminatedTemplate
  | unterminatedInterpolation
  | unexpectedCharacter (c : Char)
deriving DecidableEq, Repr

/-- The wording of a cause. -/
def LexCause.message : LexCause → String
  | unterminatedComment => "unterminated comment"
  | invalidExponent => "invalid number exponent"
  | unterminatedString => "unterminated string literal"
  | unterminatedTemplate => "unterminated template literal"
  | unterminatedInterpolation => "unterminated template interpolation"
  | unexpectedCharacter c => "unexpected character '" ++ c.toString ++ "'"

/-- A failure to tokenize, with its place. -/
structure LexError where
  cause : LexCause
  line : Nat
  col : Nat
deriving DecidableEq, Repr

/-- The reserved words. -/
def keywords : List String :=
  ["break", "case", "continue", "default", "each", "elif", "else", "eval", "false", "if", "let",
    "loop", "match", "null", "return", "true", "var"]

/-- The operators of two characters. -/
def doubleOperators : List (Char × Char) :=
  [('=', '>'), ('&', '&'), ('|', '|'), ('<', '='), ('>', '='), ('=', '='), ('!', '='), ('+', '='),
    ('-', '=')]

/-- The operators of one character. -/
def singleOperators : List Char :=
  ['+', '-', '*', '/', '%', '^', '!', '<', '>', '=', '(', ')', '[', ']', '\x7b', '\x7d', ',', ':',
    ';', '.', '?', '@']

/-- What may begin an identifier. -/
def isNameStart (c : Char) : Bool :=
  c.isAlpha || c == '_' || c == '$'

/-- What may go on an identifier. -/
def isNamePart (c : Char) : Bool :=
  isNameStart c || isDigit c

/-- What a backslash and a character stand for in a string. -/
def unescape : Char → Char
  | 'n' => '\n'
  | 'r' => '\r'
  | 't' => '\t'
  | c => c

/-! ## Reading one token -/

/-- The unread text and the place where it starts. -/
structure Cursor where
  rest : List Char
  line : Nat
  col : Nat
deriving DecidableEq, Repr

/-- What is left after a run of characters is not longer. -/
theorem length_dropWhile_le {α : Type} (p : α → Bool) (l : List α) :
    (l.dropWhile p).length ≤ l.length :=
  (List.dropWhile_suffix p).length_le

/-- The place after a text that starts at the given place. -/
def advancePlace : List Char → Nat × Nat → Nat × Nat
  | [], p => p
  | c :: cs, (line, col) => advancePlace cs (if c == '\n' then (line + 1, 1) else (line, col + 1))

/-- Reads the rest of a block comment: where it ends, and whether it spans lines. -/
def closeComment (newline : Bool) (line col : Nat) : List Char → Option (Cursor × Bool)
  | [] => none
  | '*' :: '/' :: cs => some (⟨cs, line, col + 2⟩, newline)
  | c :: cs =>
    if c == '\n' then closeComment true (line + 1) 1 cs else closeComment newline line (col + 1) cs

/-- Reads a fraction, if a digit follows the point. -/
def readFraction : List Char → List Char × List Char
  | '.' :: d :: cs =>
    if isDigit d then ('.' :: (d :: cs).takeWhile isDigit, (d :: cs).dropWhile isDigit)
    else ([], '.' :: d :: cs)
  | cs => ([], cs)

/-- Reads the sign of an exponent. -/
def readSign : List Char → List Char × List Char
  | c :: cs => if c == '+' || c == '-' then ([c], cs) else ([], c :: cs)
  | [] => ([], [])

/-- Reads an exponent; one without digits cannot be read. -/
def readExponent : List Char → Option (List Char × List Char)
  | c :: cs =>
    if c == 'e' || c == 'E' then
      let (sign, after) := readSign cs
      let digits := after.takeWhile isDigit
      if digits.isEmpty then none else some (c :: sign ++ digits, after.dropWhile isDigit)
    else some ([], c :: cs)
  | [] => some ([], [])

/-- Reads a numeral: digits, a fraction and an exponent. -/
def readNumber (cs : List Char) : Option (List Char × List Char) :=
  let (fraction, after) := readFraction (cs.dropWhile isDigit)
  (readExponent after).map fun (exponent, rest) =>
    (cs.takeWhile isDigit ++ fraction ++ exponent, rest)

/-- Reads a string after its opening quote: its value and what follows its closing quote. -/
def readString (quote : Char) (line col : Nat) : List Char → Option (List Char × Cursor)
  | [] => none
  | '\\' :: [] => none
  | '\\' :: c :: cs =>
    (readString quote line (col + 2) cs).map fun (value, after) => (unescape c :: value, after)
  | c :: cs =>
    if c == quote then some ([], ⟨cs, line, col + 1⟩)
    else if c == '\n' then
      (readString quote (line + 1) 1 cs).map fun (value, after) => (c :: value, after)
    else (readString quote line (col + 1) cs).map fun (value, after) => (c :: value, after)

/-- Splits a text at the brace that closes an interpolation. `quote` is the quotation being passed
over, if any, and `depth` the number of open braces. -/
def splitInterpolation (quote : Option Char) (depth : Nat) :
    List Char → Option (List Char × List Char)
  | [] => none
  | c :: cs =>
    match quote with
    | some q =>
      if c == q then push c (splitInterpolation none depth cs)
      else if c == '\\' then
        match cs with
        | [] => none
        | d :: ds => push c (push d (splitInterpolation quote depth ds))
      else push c (splitInterpolation quote depth cs)
    | none =>
      if c == '"' || c == '\'' || c == '\x60' then push c (splitInterpolation (some c) depth cs)
      else if c == '\x7b' then push c (splitInterpolation none (depth + 1) cs)
      else if c == '\x7d' then
        match depth with
        | 0 => some ([], cs)
        | d + 1 => push c (splitInterpolation none d cs)
      else push c (splitInterpolation none depth cs)
where
  push (c : Char) : Option (List Char × List Char) → Option (List Char × List Char)
    | some (inside, after) => some (c :: inside, after)
    | none => none

/-- A character more does not lengthen what follows. -/
theorem splitInterpolation.push_length {c : Char} {o : Option (List Char × List Char)} {n : Nat}
    {r : List Char × List Char} (ih : ∀ {q : List Char × List Char}, o = some q → q.2.length < n)
    (h : push c o = some r) : r.2.length < n + 1 := by
  cases o with
  | none => simp [push] at h
  | some q =>
    have hq := ih rfl
    simp only [push, Option.some.injEq] at h
    subst h
    exact Nat.lt_succ_of_lt hq

/-- What follows an interpolation is shorter than the text from its start on. -/
theorem splitInterpolation_length {quote : Option Char} {depth : Nat} {cs : List Char}
    {r : List Char × List Char} (h : splitInterpolation quote depth cs = some r) :
    r.2.length < cs.length := by
  fun_induction splitInterpolation quote depth cs generalizing r with
  | case1 => simp at h
  | case3 => simp at h
  | case4 _ _ _ _ _ _ _ ih =>
    exact splitInterpolation.push_length (splitInterpolation.push_length ih) h
  | case8 =>
    obtain rfl := Option.some.inj h
    exact Nat.lt_succ_self _
  | case2 _ _ _ _ _ ih | case5 _ _ _ _ _ _ ih | case6 _ _ _ _ ih | case7 _ _ _ _ _ ih
  | case9 _ _ _ _ _ _ ih | case10 _ _ _ _ _ _ ih => exact splitInterpolation.push_length ih h

/-- Puts a finished text in front of the parts that follow it, unless it is empty. -/
def consText (text : List Char) (parts : List TemplatePart) : List TemplatePart :=
  if text.isEmpty then parts else .text (String.ofList text.reverse) :: parts

/-- Reads a template after its opening mark. `text` is the current text part, last character first. -/
def readTemplate (line col : Nat) (text : List Char) (cs : List Char) :
    Except LexCause (List TemplatePart × Cursor) :=
  match cs with
  | [] => .error .unterminatedTemplate
  | '\\' :: [] => .error .unterminatedTemplate
  | '\\' :: c :: rest => readTemplate line (col + 2) (c :: text) rest
  | c :: rest =>
    if c == '\x60' then .ok (consText text [], ⟨rest, line, col + 1⟩)
    else if c == '\x7b' then
      match _h : splitInterpolation none 0 rest with
      | none => .error .unterminatedInterpolation
      | some (inside, after) =>
        let (line', col') := advancePlace inside (line, col + 1)
        do
          let (parts, done) ← readTemplate line' (col' + 1) [] after
          pure (consText text (.code (String.ofList inside) line (col + 1) :: parts), done)
    else if c == '\n' then readTemplate (line + 1) 1 (c :: text) rest
    else readTemplate line (col + 1) (c :: text) rest
termination_by cs.length
decreasing_by
  all_goals simp only [List.length_cons]
  all_goals try omega
  have := splitInterpolation_length _h
  simp only at this
  omega

/-- Reads the further segments of a namespaced identifier. -/
def readSegments (cs : List Char) : List Char × List Char :=
  match cs with
  | ':' :: c :: rest =>
    if isNameStart c then
      let (more, after) := readSegments (rest.dropWhile isNamePart)
      (':' :: c :: rest.takeWhile isNamePart ++ more, after)
    else ([], cs)
  | _ => ([], cs)
termination_by cs.length
decreasing_by
  have := length_dropWhile_le isNamePart rest
  simp only [List.length_cons]
  omega

/-- Reads an identifier; a reserved word takes no further segments. -/
def readName (cs : List Char) : List Char × List Char :=
  let word := cs.takeWhile isNamePart
  let rest := cs.dropWhile isNamePart
  if keywords.contains (String.ofList word) then (word, rest)
  else
    let (more, after) := readSegments rest
    (word ++ more, after)

/-- The operator at the start of a text. -/
def readOperator : List Char → Option (List Char × List Char)
  | [] => none
  | c :: cs =>
    let single := if singleOperators.contains c then some ([c], cs) else none
    match cs with
    | d :: ds => if doubleOperators.contains (c, d) then some ([c, d], ds) else single
    | [] => single

/-- What stands at the start of a text. -/
inductive Lexeme where
  | newline
  | blank
  | lineComment
  | blockComment (newline : Bool)
  | token (kind : TokenKind) (text : String) (parts : List TemplatePart)

/-- Reads what stands at the cursor, which is the character `c` before `cs`. -/
def step (c : Char) (cs : List Char) (line col : Nat) : Except LexError (Lexeme × Cursor) :=
  let fail (cause : LexCause) : Except LexError (Lexeme × Cursor) := .error ⟨cause, line, col⟩
  let plain (kind : TokenKind) (lexeme rest : List Char) : Except LexError (Lexeme × Cursor) :=
    .ok (.token kind (String.ofList lexeme) [], ⟨rest, line, col + lexeme.length⟩)
  if c == '\n' then .ok (.newline, ⟨cs, line + 1, 1⟩)
  else if c == ' ' || c == '\t' || c == '\r' then .ok (.blank, ⟨cs, line, col + 1⟩)
  else if c == '/' && cs.head? == some '/' then
    -- The column does not move: a line end or the end of the text follows.
    .ok (.lineComment, ⟨cs.dropWhile (· != '\n'), line, col⟩)
  else if c == '/' && cs.head? == some '*' then
    match closeComment false line (col + 2) cs.tail with
    | some (after, newline) => .ok (.blockComment newline, after)
    | none => fail .unterminatedComment
  else if isDigit c then
    match readNumber (c :: cs) with
    | some (lexeme, rest) => plain .number lexeme rest
    | none => fail .invalidExponent
  else if c == '"' || c == '\'' then
    match readString c line (col + 1) cs with
    | some (value, after) => .ok (.token .string (String.ofList value) [], after)
    | none => fail .unterminatedString
  else if c == '\x60' then
    match readTemplate line (col + 1) [] cs with
    | .ok (parts, after) => .ok (.token .template "\x60" parts, after)
    | .error cause => fail cause
  else if isNameStart c then
    let (word, rest) := readName (c :: cs)
    plain (if keywords.contains (String.ofList word) then .op else .ident) word rest
  else
    match readOperator (c :: cs) with
    | some (lexeme, rest) => plain .op lexeme rest
    | none => fail (.unexpectedCharacter c)

/-! ## Progress

Every reader gives back less text than it was given, so reading tokens comes to an end. -/

/-- The end of a comment lies behind its start. -/
theorem closeComment_length {newline : Bool} {line col : Nat} {cs : List Char} {r : Cursor × Bool}
    (h : closeComment newline line col cs = some r) : r.1.rest.length < cs.length := by
  fun_induction closeComment newline line col cs with
  | case1 => simp at h
  | case2 =>
    obtain rfl := Option.some.inj h
    simp only [List.length_cons]
    omega
  | case3 _ _ _ _ _ _ _ ih | case4 _ _ _ _ _ _ _ ih => exact Nat.lt_succ_of_lt (ih h)

/-- A fraction takes nothing that follows it. -/
theorem readFraction_length (cs : List Char) : (readFraction cs).2.length ≤ cs.length := by
  fun_cases readFraction cs with
  | case1 d cs _ =>
    have := length_dropWhile_le isDigit (d :: cs)
    simp only [List.length_cons] at this ⊢
    omega
  | case2 => exact Nat.le_refl _
  | case3 => exact Nat.le_refl _

/-- A sign takes nothing that follows it. -/
theorem readSign_length (cs : List Char) : (readSign cs).2.length ≤ cs.length := by
  fun_cases readSign cs <;> simp

/-- An exponent takes nothing that follows it. -/
theorem readExponent_length {cs : List Char} {r : List Char × List Char}
    (h : readExponent cs = some r) : r.2.length ≤ cs.length := by
  cases cs with
  | nil =>
    obtain rfl := Option.some.inj h
    exact Nat.le_refl _
  | cons c cs =>
    have hs := readSign_length cs
    have hd := length_dropWhile_le isDigit (readSign cs).2
    simp only [readExponent] at h
    split at h
    · split at h
      · simp at h
      · obtain rfl := Option.some.inj h
        simp only [List.length_cons]
        omega
    · obtain rfl := Option.some.inj h
      exact Nat.le_refl _

/-- A numeral takes at least its first digit. -/
theorem readNumber_length {c : Char} {cs : List Char} {r : List Char × List Char}
    (hc : isDigit c = true) (h : readNumber (c :: cs) = some r) : r.2.length ≤ cs.length := by
  have hw := length_dropWhile_le isDigit cs
  have hf := readFraction_length (cs.dropWhile isDigit)
  simp only [readNumber, List.dropWhile_cons, hc, if_true, Option.map_eq_some_iff] at h
  obtain ⟨e, he, rfl⟩ := h
  have := readExponent_length he
  simp only
  omega

/-- A string takes at least its closing quote. -/
theorem readString_length {quote : Char} {line col : Nat} {cs : List Char}
    {r : List Char × Cursor} (h : readString quote line col cs = some r) :
    r.2.rest.length < cs.length := by
  fun_induction readString quote line col cs generalizing r with
  | case1 => simp at h
  | case2 => simp at h
  | case3 _ _ _ _ ih =>
    obtain ⟨_, ha, he⟩ := Option.map_eq_some_iff.1 h
    have hl := ih ha
    subst he
    exact Nat.lt_succ_of_lt (Nat.lt_succ_of_lt hl)
  | case4 =>
    obtain rfl := Option.some.inj h
    exact Nat.lt_succ_self _
  | case5 _ _ _ _ _ _ _ _ ih | case6 _ _ _ _ _ _ _ _ ih =>
    obtain ⟨_, ha, he⟩ := Option.map_eq_some_iff.1 h
    have hl := ih ha
    subst he
    exact Nat.lt_succ_of_lt hl

/-- A template takes at least its closing mark. -/
theorem readTemplate_length {line col : Nat} {text cs : List Char}
    {r : List TemplatePart × Cursor} (h : readTemplate line col text cs = .ok r) :
    r.2.rest.length < cs.length := by
  fun_induction readTemplate line col text cs generalizing r with
  | case1 => simp at h
  | case2 => simp at h
  | case3 _ _ _ _ _ ih => exact Nat.lt_succ_of_lt (Nat.lt_succ_of_lt (ih h))
  | case4 =>
    obtain rfl := Except.ok.inj h
    exact Nat.lt_succ_self _
  | case5 => simp at h
  | case6 _ _ _ _ _ _ _ _ _ _ after hs line' col' _ ih =>
    have hl := splitInterpolation_length hs
    match hr : readTemplate line' (col' + 1) [] after with
    | .error _ => simp [hr, bind, Except.bind] at h
    | .ok a =>
      have ha := ih hr
      simp only [hr, bind, Except.bind, pure, Except.pure, Except.ok.injEq] at h
      subst h
      exact Nat.lt_succ_of_lt (Nat.lt_trans ha hl)
  | case7 _ _ _ _ _ _ _ _ _ _ ih | case8 _ _ _ _ _ _ _ _ _ _ ih => exact Nat.lt_succ_of_lt (ih h)

/-- Further segments take nothing that follows them. -/
theorem readSegments_length (cs : List Char) : (readSegments cs).2.length ≤ cs.length := by
  fun_induction readSegments cs with
  | case1 c rest _ more after h ih =>
    have := length_dropWhile_le isNamePart rest
    simp only [h, List.length_cons] at ih ⊢
    omega
  | case2 => exact Nat.le_refl _
  | case3 => exact Nat.le_refl _

/-- An identifier takes at least its first character. -/
theorem readName_length {c : Char} {cs : List Char} (hc : isNamePart c = true) :
    (readName (c :: cs)).2.length ≤ cs.length := by
  have hw := length_dropWhile_le isNamePart cs
  have hs := readSegments_length (cs.dropWhile isNamePart)
  simp only [readName, List.dropWhile_cons, hc, if_true]
  split
  · exact hw
  · exact Nat.le_trans hs hw

/-- An operator takes at least its first character. -/
theorem readOperator_length {c : Char} {cs : List Char} {r : List Char × List Char}
    (h : readOperator (c :: cs) = some r) : r.2.length ≤ cs.length := by
  simp only [readOperator] at h
  cases cs with
  | nil =>
    simp only [Option.ite_none_right_eq_some, Option.some.injEq] at h
    obtain ⟨_, rfl⟩ := h
    exact Nat.le_refl _
  | cons d ds =>
    simp only at h
    split at h
    · obtain rfl := Option.some.inj h
      exact Nat.le_succ _
    · simp only [Option.ite_none_right_eq_some, Option.some.injEq] at h
      obtain ⟨_, rfl⟩ := h
      exact Nat.le_refl _

/-- A step takes at least the first character. -/
theorem step_length {c : Char} {cs : List Char} {line col : Nat} {r : Lexeme × Cursor}
    (h : step c cs line col = .ok r) : r.2.rest.length ≤ cs.length := by
  revert h
  fun_cases step c cs line col with
  | case5 | case7 | case9 | case11 | case14 => exact nofun
  | case1 | case2 => exact fun h => Except.ok.inj h ▸ Nat.le_refl _
  | case3 => exact fun h => Except.ok.inj h ▸ length_dropWhile_le _ cs
  | case4 _ _ _ _ _ _ hr =>
    exact fun h => Except.ok.inj h ▸
      Nat.le_trans (Nat.le_of_lt (closeComment_length hr)) (List.length_tail ▸ Nat.sub_le _ 1)
  | case6 _ _ _ _ _ hc _ _ hr => exact fun h => Except.ok.inj h ▸ readNumber_length hc hr
  | case8 _ _ _ _ _ _ _ _ hr => exact fun h => Except.ok.inj h ▸ Nat.le_of_lt (readString_length hr)
  | case10 _ _ _ _ _ _ _ _ _ hr =>
    exact fun h => Except.ok.inj h ▸ Nat.le_of_lt (readTemplate_length hr)
  | case12 _ _ _ _ _ _ _ _ hc _ _ hr =>
    have hl : (readName (c :: cs)).2.length ≤ cs.length :=
      readName_length (by simp [isNamePart, hc])
    rw [hr] at hl
    exact fun h => Except.ok.inj h ▸ hl
  | case13 _ _ _ _ _ _ _ _ _ _ _ hr => exact fun h => Except.ok.inj h ▸ readOperator_length hr

/-! ## Reading all tokens -/

/-- The tokens from the cursor on; `newline` and `space` tell what stood since the last token. -/
def tokensFrom (cursor : Cursor) (newline space : Bool) : Except LexError (List Token) :=
  match _hr : cursor.rest with
  | [] => .ok [{ kind := .eof, text := "", line := cursor.line, col := cursor.col,
                 newlineBefore := newline }]
  | c :: cs =>
    match _hs : step c cs cursor.line cursor.col with
    | .error e => .error e
    | .ok (.newline, after) => tokensFrom after true true
    | .ok (.blank, after) => tokensFrom after newline true
    | .ok (.lineComment, after) => tokensFrom after newline space
    | .ok (.blockComment nl, after) => tokensFrom after (newline || nl) true
    | .ok (.token kind text parts, after) => do
      let rest ← tokensFrom after false false
      pure ({ kind, text, line := cursor.line, col := cursor.col, newlineBefore := newline,
              spaceBefore := space, parts } :: rest)
termination_by cursor.rest.length
decreasing_by
  all_goals
    rw [_hr]
    exact Nat.lt_succ_of_le (step_length _hs)

/-- The tokens of a text that starts at the given place. -/
def tokenize (source : String) (line col : Nat) : Except LexError (List Token) :=
  tokensFrom ⟨source.toList, line, col⟩ false false

end ScriptBridge.AiScript
