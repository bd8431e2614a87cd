import ScriptBridge.TypeScript.Token.Literal

/-!
# Reading TypeScript tokens

`tokenize` splits a text into tokens, the last of which stands for its end.

A template substitution is read twice: first `substitutionEnd` looks for the brace that closes it,
passing over strings, comments and nested templates, then the text up to there is tokenized on its
own. A nested template is read by a reader for one level less, so all of this ends.

* `TemplateReader` is a reader for templates with the proof that it moves on.
* `tokensWith`, `substitutionEnd`, `templateTail`: the loops, over a reader for nested templates.
* `readTemplate` ties them together; `tokenize` starts them.
-/

namespace ScriptBridge.TypeScript

/-- The cooked text of a template and its substitutions, each with the text after it. -/
structure Template where
  head : String
  pieces : List (List Token × String)

/-- A reader for templates, started on the opening mark. -/
structure TemplateReader where
  read : Cursor → Except LexError (Template × Cursor)
  forward : ∀ {c r}, read c = .ok r → r.2.rest.length < c.rest.length

/-! ## One token -/

/-- The operator at a cursor; an optional access is not read before a digit. -/
def operatorAt (c : Cursor) : Option String :=
  match longOperators.find? (fun op => op.toList.isPrefixOf c.rest) with
  | some op => some (if op == "?." && c.peekIs 2 isDigit then "?" else op)
  | none =>
    match c.rest with
    | x :: _ => if singleOperators.contains x then some x.toString else none
    | [] => none

/-- Reads the token at a cursor, which is on the character `x`. -/
def tokenWith (inner : TemplateReader) (x : Char) (c : Cursor) : Except LexError (Token × Cursor) := do
  if isDigit x || (x == '.' && c.peekIs 1 isDigit) then
    let after ← skipNumber c
    return ({ kind := .number, text := c.upTo after, span := c.spanTo after }, after)
  else if x == '"' || x == '\'' then
    let (value, after) ← readString x c
    return ({ kind := .string, text := String.ofList value, span := c.spanTo after }, after)
  else if x == '\x60' then
    let (template, after) ← inner.read c
    return ({ kind := .template, text := c.upTo after, span := c.spanTo after,
              head := template.head, pieces := template.pieces }, after)
  else if isNameStart x then
    let after := c.skipWhile isNamePart
    return ({ kind := .ident, text := c.upTo after, span := c.spanTo after }, after)
  else
    match operatorAt c with
    | some op =>
      let after := c.skip op.length
      return ({ kind := .op, text := op, span := c.spanTo after }, after)
    | none => c.fail (.unexpectedCharacter x)

/-- An operator has a character. -/
theorem operatorAt_length {c : Cursor} {op : String} (h : operatorAt c = some op) :
    op.length ≠ 0 := by
  revert h
  fun_cases operatorAt c with
  | case1 op' hf =>
    have hm : ∀ op ∈ longOperators, op.length ≠ 0 := by decide
    intro h
    obtain rfl := Option.some.inj h
    split
    · decide
    · exact hm _ (List.mem_of_find?_eq_some hf)
  | case2 => exact fun h => Option.some.inj h ▸ by simp
  | case3 | case4 => exact nofun

/-- A token takes at least one character. -/
theorem tokenWith_length {inner : TemplateReader} {x : Char} {c : Cursor} {cs : List Char}
    {r : Token × Cursor} (hr : c.rest = x :: cs) (h : tokenWith inner x c = .ok r) :
    r.2.rest.length < c.rest.length := by
  revert h
  fun_cases tokenWith inner x c with
  | case1 hn =>
    intro h
    obtain ⟨_, ha, h⟩ := bind_eq_ok_iff.1 h
    obtain rfl := Except.ok.inj h
    refine skipNumber_length ?_ ha
    simpa [Cursor.peekIs, Cursor.peek, hr] using hn
  | case2 =>
    intro h
    obtain ⟨_, ha, h⟩ := bind_eq_ok_iff.1 h
    obtain rfl := Except.ok.inj h
    exact readString_length ha
  | case3 =>
    intro h
    obtain ⟨_, ha, h⟩ := bind_eq_ok_iff.1 h
    obtain rfl := Except.ok.inj h
    exact inner.forward ha
  | case4 _ _ _ hx =>
    intro h
    obtain rfl := Except.ok.inj h
    refine Cursor.length_skipWhile_lt ?_
    simp [Cursor.peekIs, Cursor.peek, hr, isNamePart, hx]
  | case5 _ _ _ _ _ ho =>
    intro h
    obtain rfl := Except.ok.inj h
    exact Cursor.length_skip_lt (operatorAt_length ho) (by simp [hr])
  | case6 => exact fun h => absurd h Cursor.fail_ne_ok

/-! ## All tokens -/

/-- The tokens from a cursor to the end of its text. -/
def tokensWith (inner : TemplateReader) (c : Cursor) : Except LexError (List Token × Cursor) :=
  match _ht : skipTrivia c with
  | .error e => .error e
  | .ok (newline, start) =>
    match _hr : start.rest with
    | [] =>
      .ok ([{ kind := .eof, text := "", span := start.spanTo start, newlineBefore := newline }], start)
    | x :: _ =>
      match _hk : tokenWith inner x start with
      | .error e => .error e
      | .ok (token, after) => do
        let (rest, done) ← tokensWith inner after
        return ({ token with newlineBefore := newline } :: rest, done)
termination_by c.rest.length
decreasing_by exact Nat.lt_of_lt_of_le (tokenWith_length _hr _hk) (skipTrivia_length _ht)

/-! ## Templates -/

/-- The cursor behind what stands at a cursor in a substitution, which is the character `x`. -/
def passOver (inner : TemplateReader) (x : Char) (c : Cursor) : Except LexError Cursor :=
  if x == '"' || x == '\'' then Prod.snd <$> readString x c
  else if x == '\x60' then Prod.snd <$> inner.read c
  else .ok c.bump

/-- At least one character is passed over. -/
theorem passOver_length {inner : TemplateReader} {x : Char} {c d : Cursor} {cs : List Char}
    (hr : c.rest = x :: cs) (h : passOver inner x c = .ok d) : d.rest.length < c.rest.length := by
  unfold passOver at h
  split at h
  · obtain ⟨_, ha, rfl⟩ := map_eq_ok_iff.1 h
    exact readString_length ha
  · split at h
    · obtain ⟨_, ha, rfl⟩ := map_eq_ok_iff.1 h
      exact inner.forward ha
    · obtain rfl := Except.ok.inj h
      exact Cursor.length_bump_lt (by simp [hr])

/-- The offset of the brace that closes a substitution which starts at `start`; `depth` braces are
open at the cursor. -/
def substitutionEnd (inner : TemplateReader) (start : Cursor) (depth : Nat) (c : Cursor) :
    Except LexError Nat :=
  match _ht : skipTrivia c with
  | .error e => .error e
  | .ok (_, here) =>
    match _hr : here.rest with
    | [] => start.fail .unterminatedSubstitution
    | x :: _ =>
      if x == '\x7d' && depth = 0 then .ok here.offset
      else
        match _hp : passOver inner x here with
        | .error e => .error e
        | .ok after =>
          substitutionEnd inner start
            (if x == '\x7b' then depth + 1 else if x == '\x7d' then depth - 1 else depth) after
termination_by c.rest.length
decreasing_by exact Nat.lt_of_lt_of_le (passOver_length _hr _hp) (skipTrivia_length _ht)

/-- Reads a substitution, from behind its opening brace to behind its closing one. -/
def readSubstitution (inner : TemplateReader) (c : Cursor) : Except LexError (List Token × Cursor) := do
  let close ← substitutionEnd inner c 0 c
  let (tokens, done) ← tokensWith inner { c with rest := c.rest.take (close - c.offset) }
  let atBrace : Cursor := { done with rest := c.rest.drop (close - c.offset) }
  return (tokens, atBrace.bump)

/-- A substitution takes nothing that follows it. -/
theorem readSubstitution_length {inner : TemplateReader} {c : Cursor} {r : List Token × Cursor}
    (h : readSubstitution inner c = .ok r) : r.2.rest.length ≤ c.rest.length := by
  obtain ⟨_, _, h⟩ := bind_eq_ok_iff.1 h
  obtain ⟨_, _, h⟩ := bind_eq_ok_iff.1 h
  obtain rfl := Except.ok.inj h
  refine Nat.le_trans (Cursor.length_bump_le _) ?_
  simp only [List.length_drop]
  exact Nat.sub_le _ _

/-- The text of a template up to its closing mark, and its substitutions; `start` is the opening
mark. -/
def templateTail (inner : TemplateReader) (start c : Cursor) :
    Except LexError (List Char × List (List Token × String) × Cursor) :=
  match _hr : c.rest with
  | [] => start.fail .unterminatedTemplate
  | x :: _ =>
    if x == '\x60' then .ok ([], [], c.bump)
    else if x == '$' && c.peek 1 = some '\x7b' then
      match _hs : readSubstitution inner (c.skip 2) with
      | .error e => .error e
      | .ok (tokens, after) => do
        let (text, pieces, last) ← templateTail inner start after
        return ([], (tokens, String.ofList text) :: pieces, last)
    else
      match _he : readPlainOrEscape x c with
      | .error e => .error e
      | .ok (value, after) => do
        let (text, pieces, last) ← templateTail inner start after
        return (value ++ text, pieces, last)
termination_by c.rest.length
decreasing_by
  · exact Nat.lt_of_le_of_lt (readSubstitution_length _hs) (Cursor.length_skip_lt nofun (by simp [_hr]))
  · exact readPlainOrEscape_length _hr _he

/-- A template takes at least its closing mark. -/
theorem templateTail_length {inner : TemplateReader} {start c : Cursor}
    {r : List Char × List (List Token × String) × Cursor}
    (h : templateTail inner start c = .ok r) : r.2.2.rest.length < c.rest.length := by
  fun_induction templateTail inner start c generalizing r with
  | case1 | case3 | case5 => exact nomatch h
  | case2 _ _ _ hr =>
    obtain rfl := Except.ok.inj h
    exact Cursor.length_bump_lt (by simp [hr])
  | case4 c _ _ hr _ _ _ _ hs ih =>
    obtain ⟨_, ha, h⟩ := bind_eq_ok_iff.1 h
    have hl := Nat.lt_of_lt_of_le (ih ha)
      (Nat.le_trans (readSubstitution_length hs) (c.length_skip_le 2))
    obtain rfl := Except.ok.inj h
    exact hl
  | case6 _ _ _ hr _ _ _ _ he ih =>
    obtain ⟨_, ha, h⟩ := bind_eq_ok_iff.1 h
    have hl := Nat.lt_trans (ih ha) (readPlainOrEscape_length hr he)
    obtain rfl := Except.ok.inj h
    exact hl

/-- Reads a template in which nested ones are read by `inner`. -/
def templateWith (inner : TemplateReader) (c : Cursor) : Except LexError (Template × Cursor) := do
  let (text, pieces, after) ← templateTail inner c c.bump
  return (⟨String.ofList text, pieces⟩, after)

/-- A template takes at least its marks. -/
theorem templateWith_length {inner : TemplateReader} {c : Cursor} {r : Template × Cursor}
    (h : templateWith inner c = .ok r) : r.2.rest.length < c.rest.length := by
  obtain ⟨_, ha, h⟩ := bind_eq_ok_iff.1 h
  have hl := Nat.lt_of_lt_of_le (templateTail_length ha) c.length_bump_le
  obtain rfl := Except.ok.inj h
  exact hl

/-- Reads a template with up to `n` levels of templates in it. -/
def readTemplate : Nat → TemplateReader
  | 0 => ⟨fun _ => .error .outOfFuel, nofun⟩
  | n + 1 => ⟨fun c => templateWith (readTemplate n) c, templateWith_length⟩

/-- The tokens of a text. -/
def tokenize (source : String) : Except LexError (List Token) := do
  let (tokens, _) ← tokensWith (readTemplate (source.length + 1)) ⟨source.toList, 0, 1, 1⟩
  return tokens

end ScriptBridge.TypeScript
