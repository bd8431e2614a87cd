import ScriptBridge.Proofs.TypeScript.Scanning

/-!
# Tokens tile the text

The tokens of a text cover it with exact places, and so do the tokens of every substitution in it. The
tokens of a substitution are read from the text up to the brace that was found first. Reading them and
looking for the brace go through that text together: after each token, the braces that are open are those
of the tokens so far.

* `Taken`, `taken_of_tokenWith`: how a token is read.
* `substitutionEnd_taken`: the search passes over one token.
* `tiled_of_tokensWith`: tokens, with what is behind their text.
* `tokenize_tiled`: all tokens of a text.
-/

namespace ScriptBridge.TypeScript

open Cursor

variable {inner : TemplateReader}

/-! ## Operators -/

/-- No character of an operator but the first means anything to the search, and a brace is alone. -/
def isTidy : List Char → Bool
  | [] => false
  | x :: word => word.all (fun y => decide (IsPlain y)) && (word.isEmpty || !searchMarks.contains x)

theorem tidy_longOperators : ∀ op ∈ longOperators, isTidy op.toList = true := by
  decide +kernel

theorem operatorAt_begins {c : Cursor} {op : String} (h : operatorAt c = some op) :
    op.toList <+: c.rest ∧ isTidy op.toList = true := by
  revert h
  fun_cases operatorAt c with
  | case1 op' hf =>
    have hmem := List.mem_of_find?_eq_some hf
    have hbegins := List.find?_some hf
    rw [List.isPrefixOf_iff_prefix] at hbegins
    intro h
    obtain rfl := Option.some.inj h
    split
    · rename_i hoptional
      obtain ⟨hop, -⟩ := Bool.and_eq_true_iff.mp hoptional
      rw [beq_iff_eq.mp hop] at hbegins
      exact ⟨(show ['?'] <+: ['?', '.'] by decide).trans hbegins, by decide⟩
    · exact ⟨hbegins, tidy_longOperators op' hmem⟩
  | case2 _ x cs hr =>
    intro h
    obtain rfl := Option.some.inj h
    rw [hr]
    simp [isTidy]
  | case3 | case4 =>
    intro h
    cases h

/-! ## One token -/

/-- How a token is read from one cursor to another, where the first is on the character `x`. -/
inductive Taken (inner : TemplateReader) (x : Char) (c d : Cursor) (t : Token) : Prop
  | plain {word : List Char} (kind : t.kind = .number ∨ t.kind = .ident ∨ t.kind = .op)
      (text : t.text.toList = x :: word) (rest : c.rest = x :: (word ++ d.rest))
      (stop : d = c.skip (word.length + 1)) (hx : x ∉ searchMarks) (hword : ∀ y ∈ word, IsPlain y)
      (pieces : t.pieces = [])
  | brace (kind : t.kind = .op) (text : t.text.toList = [x]) (stop : d = c.bump)
      (hx : x = '\x7b' ∨ x = '\x7d') (pieces : t.pieces = [])
  | string {value : List Char} (kind : t.kind = .string) (hx : x = '"' ∨ x = '\'')
      (read : readString x c = .ok (value, d)) (pieces : t.pieces = [])
  | template {template : Template} (kind : t.kind = .template) (text : t.text = c.upTo d)
      (hx : x = '\x60') (read : inner.read c = .ok (template, d)) (pieces : t.pieces = template.pieces)

/-- The text of a token is that between its ends. -/
theorem toList_upTo {c : Cursor} {word rest : List Char} (hr : c.rest = word ++ rest) :
    (c.upTo (c.skip word.length)).toList = word := by
  rw [upTo, offset_skip (length_le hr), Nat.add_sub_cancel_left, hr, List.take_left, String.toList_ofList]

/-- Plain characters are the text of a token. -/
theorem taken_of_over {x : Char} {c d : Cursor} {cs : List Char} {t : Token} (hr : c.rest = x :: cs)
    (hd : c.Over IsPlain d) (hlen : d.rest.length < c.rest.length)
    (kind : t.kind = .number ∨ t.kind = .ident) (text : t.text = c.upTo d) (pieces : t.pieces = []) :
    Taken inner x c d t := by
  obtain ⟨whole, hrest, hplain, rfl⟩ := hd
  cases whole with
  | nil => exact absurd hlen (Nat.lt_irrefl _)
  | cons y word =>
    obtain rfl : x = y := (List.cons.inj (hr.symm.trans hrest)).1
    have hx : x ∉ searchMarks := fun hmem =>
      hplain x List.mem_cons_self ((show searchMarks ⊆ markChars by decide) hmem)
    exact .plain (kind.imp_right .inl) (text ▸ toList_upTo hrest) hrest rfl hx
      (fun z hz => hplain z (List.mem_cons_of_mem x hz)) pieces

theorem taken_of_operatorAt {x : Char} {c : Cursor} {cs : List Char} {op : String} {t : Token}
    (hr : c.rest = x :: cs) (hquote : x ≠ '"' ∧ x ≠ '\'') (hmark : x ≠ '\x60')
    (hop : operatorAt c = some op) (kind : t.kind = .op) (text : t.text = op) (pieces : t.pieces = []) :
    Taken inner x c (c.skip op.length) t := by
  obtain ⟨⟨rest, hrest⟩, htidy⟩ := operatorAt_begins hop
  rw [← String.length_toList]
  rw [← text] at hrest htidy ⊢
  cases hword : t.text.toList with
  | nil =>
    rw [hword] at htidy
    cases htidy
  | cons y word =>
    rw [hword, List.cons_append] at hrest
    obtain rfl : y = x := (List.cons.inj (hrest.trans hr)).1
    rw [hword, isTidy, Bool.and_eq_true, List.all_eq_true, Bool.or_eq_true] at htidy
    obtain ⟨hplain, halone⟩ := htidy
    have htaken (hy : y ∉ searchMarks) : Taken inner y c (c.skip (y :: word).length) t := by
      have hskip : (c.skip (y :: word).length).rest = rest := by
        rw [rest_skip, ← hrest]
        exact List.drop_left
      refine .plain (.inr (.inr kind)) hword ?_ rfl hy (fun z hz => of_decide_eq_true (hplain z hz)) pieces
      rw [hskip, hrest]
    by_cases hy : y ∈ searchMarks
    · have hnil : word = [] := by
        obtain hempty | hmarks := halone
        · exact List.isEmpty_iff.mp hempty
        · simp [hy] at hmarks
      subst hnil
      refine .brace kind hword rfl ?_ pieces
      simpa [searchMarks, hquote, hmark] using hy
    · exact htaken hy

theorem taken_of_tokenWith {x : Char} {c d : Cursor} {cs : List Char} {t : Token} (hr : c.rest = x :: cs)
    (h : tokenWith inner x c = .ok (t, d)) : t.span = c.spanTo d ∧ Taken inner x c d t := by
  have hlen : d.rest.length < c.rest.length := tokenWith_length hr h
  revert h
  fun_cases tokenWith inner x c with
  | case1 =>
    intro h
    obtain ⟨_, ha, h⟩ := bind_eq_ok_iff.1 h
    obtain ⟨rfl, rfl⟩ := Prod.mk.inj (Except.ok.inj h)
    exact ⟨rfl, taken_of_over hr (skipNumber_over ha) hlen (.inl rfl) rfl rfl⟩
  | case2 _ hquote =>
    intro h
    obtain ⟨_, ha, h⟩ := bind_eq_ok_iff.1 h
    obtain ⟨rfl, rfl⟩ := Prod.mk.inj (Except.ok.inj h)
    exact ⟨rfl, .string rfl (by simpa using hquote) ha rfl⟩
  | case3 _ _ hmark =>
    intro h
    obtain ⟨_, ha, h⟩ := bind_eq_ok_iff.1 h
    obtain ⟨rfl, rfl⟩ := Prod.mk.inj (Except.ok.inj h)
    exact ⟨rfl, .template rfl rfl (beq_iff_eq.mp hmark) ha rfl⟩
  | case4 =>
    intro h
    obtain ⟨rfl, rfl⟩ := Prod.mk.inj (Except.ok.inj h)
    have hover := (over_skipWhile (c := c) isNamePart).mono fun _ => isPlain_of_namePart
    exact ⟨rfl, taken_of_over hr hover hlen (.inr rfl) rfl rfl⟩
  | case5 _ hquote hmark _ op hop =>
    intro h
    obtain ⟨rfl, rfl⟩ := Prod.mk.inj (Except.ok.inj h)
    exact ⟨rfl, taken_of_operatorAt hr (by simpa using hquote) (by simpa using hmark) hop rfl rfl rfl⟩
  | case6 => exact fun h => absurd h fail_ne_ok

theorem Taken.withNewline {x : Char} {c d : Cursor} {t : Token} (h : Taken inner x c d t)
    (newline : Bool) : Taken inner x c d { t with newlineBefore := newline } := by
  cases h with
  | plain kind text rest stop hx hword pieces => exact .plain kind text rest stop hx hword pieces
  | brace kind text stop hx pieces => exact .brace kind text stop hx pieces
  | string kind hx read pieces => exact .string kind hx read pieces
  | template kind text hx read pieces => exact .template kind text hx read pieces

/-- What a token says of the text from which it is read. -/
theorem Taken.lexeme {source tail : List Char} {x : Char} {c d : Cursor} {cs : List Char} {t : Token}
    (h : Taken inner x c d t) (hat : c.At source tail) (hr : c.rest = x :: cs) (hd : c.Reaches d)
    (htemplate : ∀ template, inner.read c = .ok (template, d) →
      TemplateTiled source (c.offset + 1) d.offset template.pieces) :
    Lexeme source c.offset d.offset t := by
  cases h with
  | @plain word kind text rest stop _ _ pieces =>
    subst stop
    exact .plain kind (text.trans (hat.slice rest).symm) pieces
  | brace kind text stop _ pieces =>
    subst stop
    have hslice : slice source c.offset (c.skip [x].length).offset = [x] := hat.slice hr
    exact .plain (.inr (.inr kind)) (text.trans hslice.symm) pieces
  | string kind _ _ pieces => exact .string kind pieces
  | template kind text hx read pieces =>
    obtain ⟨word, hrest, -, rfl⟩ := hd
    refine .template kind ?_ (hx ▸ hat.head hr) (pieces ▸ htemplate _ read)
    rw [text, toList_upTo hrest, hat.slice hrest]

/-! ## Braces -/

theorem braceDepth_cons {t : Token} {depth : Nat} {rest : List Token}
    (h : t.kind = .op → t.text ≠ "\x7b" ∧ t.text ≠ "\x7d") :
    braceDepth depth (t :: rest) = braceDepth depth rest := by
  rw [braceDepth.eq_def]
  by_cases kind : t.kind = .op
  · simp [kind, h kind]
  · simp [kind]

theorem braceDepth_open {t : Token} {depth : Nat} {rest : List Token} (kind : t.kind = .op)
    (text : t.text = "\x7b") : braceDepth depth (t :: rest) = braceDepth (depth + 1) rest := by
  rw [braceDepth.eq_def]
  simp [kind, text]

theorem braceDepth_close {t : Token} {depth : Nat} {rest : List Token} (kind : t.kind = .op)
    (text : t.text = "\x7d") : braceDepth (depth + 1) (t :: rest) = braceDepth depth rest := by
  rw [braceDepth]
  simp [kind, text]

/-- The search passes over a token, and counts the braces that its reader gives. -/
theorem substitutionEnd_taken (hi : inner.Steady) {start c d : Cursor} {x : Char} {cs more : List Char}
    {t : Token} {depth : Nat} (h : Taken inner x c d t) (hr : c.rest = x :: cs)
    (hstarts : Starts c.rest)
    (hend : substitutionEnd inner start depth (c.extend ('\x7d' :: more)) =
      .ok (c.offset + c.rest.length)) :
    ∃ depth', substitutionEnd inner start depth' (d.extend ('\x7d' :: more)) =
        .ok (c.offset + c.rest.length) ∧
      ∀ rest, braceDepth depth (t :: rest) = braceDepth depth' rest := by
  have hne : c.rest ≠ [] := by simp [hr]
  have hlonger : (c.extend ('\x7d' :: more)).rest = x :: (cs ++ '\x7d' :: more) := by
    rw [rest_extend, hr, List.cons_append]
  have hstarts' : Starts (c.extend ('\x7d' :: more)).rest := hstarts.append hne more
  have hbehind (hpass : passOver inner x c = .ok d) (hx : x = '\x7d' → depth ≠ 0) :
      substitutionEnd inner start depth (c.extend ('\x7d' :: more)) =
        substitutionEnd inner start (depthBehind x depth) (d.extend ('\x7d' :: more)) :=
    substitutionEnd_step hlonger hstarts' hx (passOver_extend hi hne hpass more)
  cases h with
  | @plain word kind text rest stop hx hword pieces =>
    have hlen : word.length + 1 ≤ c.rest.length := by
      rw [rest, List.length_cons, List.length_append]
      omega
    have hrun : (c.extend ('\x7d' :: more)).rest = x :: (word ++ (d.rest ++ '\x7d' :: more)) := by
      rw [rest_extend, rest, List.cons_append, List.append_assoc]
    rw [substitutionEnd_run hrun hstarts' hx hword, skip_extend hlen, ← stop] at hend
    refine ⟨depth, hend, fun _ => braceDepth_cons fun _ => ⟨?_, ?_⟩⟩ <;>
    · intro hbrace
      rw [hbrace] at text
      obtain rfl := (List.cons.inj text).1
      exact hx (by decide)
  | brace kind text stop hx pieces =>
    have hpass : passOver inner x c = .ok d := by
      obtain rfl | rfl := hx <;> rw [stop] <;> rfl
    have hstep := hbehind hpass
    obtain rfl | rfl := hx
    · exact ⟨depth + 1, (hstep fun h => absurd h (by decide)).symm.trans hend,
        fun _ => braceDepth_open kind (String.toList_inj.mp text)⟩
    · cases depth with
      | zero =>
        rw [substitutionEnd_close hlonger hstarts', offset_extend] at hend
        have hoffset := Except.ok.inj hend
        rw [hr, List.length_cons] at hoffset
        omega
      | succ depth =>
        exact ⟨depth, (hstep fun _ => depth.succ_ne_zero).symm.trans hend, fun _ =>
          braceDepth_close kind (String.toList_inj.mp text)⟩
  | string kind hx read pieces =>
    have hpass : passOver inner x c = .ok d := by
      have hquote : (x == '"' || x == '\'') = true := by simpa using hx
      exact (if_pos hquote).trans (map_eq_ok_iff.2 ⟨_, read, rfl⟩)
    refine ⟨depth, ?_, fun _ => braceDepth_cons fun hop => by rw [kind] at hop; cases hop⟩
    obtain rfl | rfl := hx <;>
    exact (hbehind hpass fun h => absurd h (by decide)).symm.trans hend
  | template kind text hx read pieces =>
    have hpass : passOver inner x c = .ok d := by
      subst hx
      exact map_eq_ok_iff.2 ⟨_, read, rfl⟩
    refine ⟨depth, ?_, fun _ => braceDepth_cons fun hop => by rw [kind] at hop; cases hop⟩
    subst hx
    exact (hbehind hpass fun h => absurd h (by decide)).symm.trans hend

/-! ## All tokens -/

/-- What is behind the text of a cursor where `depth` braces are open: nothing, or the brace that the
search from the cursor finds. -/
inductive Closes (inner : TemplateReader) (tail : List Char) (depth : Nat) (c : Cursor) : Prop
  | nothing (h : tail = [])
  | brace {more : List Char} {start : Cursor} (h : tail = '\x7d' :: more)
      (found : substitutionEnd inner start depth (c.extend tail) = .ok (c.offset + c.rest.length))

variable {source tail : List Char} {depth : Nat}

/-- Blanks and comments between tokens are the same in the whole text. -/
theorem Closes.of_skipTrivia (hi : inner.Steady) {c d : Cursor} {newline : Bool}
    (h : Closes inner tail depth c) (hskip : skipTrivia c = .ok (newline, d)) :
    skipTrivia (c.extend tail) = .ok (newline, d.extend tail) ∧ Closes inner tail depth d := by
  cases h with
  | nothing h =>
    subst h
    rw [extend_nil, extend_nil]
    exact ⟨hskip, .nothing rfl⟩
  | brace h found =>
    obtain ⟨newline', e, hlonger, hoffset, hfound⟩ := skipTrivia_of_substitutionEnd hi found
    obtain ⟨d', rfl, hshort⟩ := skipTrivia_of_extend hlonger hoffset
    obtain ⟨rfl, rfl⟩ := Prod.mk.inj (Except.ok.inj (hskip.symm.trans hshort))
    rw [← (skipped_of_skipTrivia hskip).1.offset] at hfound
    exact ⟨hlonger, .brace h hfound⟩

theorem starts_brace (more : List Char) : Starts ('\x7d' :: more) := by
  have hslash (y : Char) (hp : ['/', y] <+: '\x7d' :: more) : False :=
    absurd (List.cons_prefix_cons.mp hp).1 (by decide)
  refine ⟨fun x hx => ?_, hslash '/', hslash '*'⟩
  obtain rfl := Option.some.inj hx
  decide

/-- At the end of the text all braces are closed. -/
theorem Closes.depth_eq_zero (hi : inner.Steady) {c : Cursor} (h : Closes inner tail depth c)
    (hc : c.rest = []) (htail : tail ≠ []) : depth = 0 := by
  cases h with
  | nothing h => exact absurd h htail
  | @brace more start h found =>
    subst h
    have hr : (c.extend ('\x7d' :: more)).rest = '\x7d' :: more := by rw [rest_extend, hc]; rfl
    have hstarts : Starts (c.extend ('\x7d' :: more)).rest := by
      rw [hr]
      exact starts_brace more
    cases depth with
    | zero => rfl
    | succ depth =>
      -- A brace that closes another one is passed over, and the search goes on behind it.
      rw [substitutionEnd_step hr hstarts (fun _ => depth.succ_ne_zero) rfl] at found
      obtain ⟨e, cs, hreach, hoffset, -⟩ := substitutionEnd_reaches hi found
      have hle := hreach.offset_le
      rw [hoffset, offset_bump (by simp), offset_extend, hc, List.length_nil] at hle
      omega

theorem Closes.taken (hi : inner.Steady) {c d : Cursor} {x : Char} {cs : List Char} {t : Token}
    (h : Closes inner tail depth c) (ht : Taken inner x c d t) (hr : c.rest = x :: cs)
    (hstarts : Starts c.rest) (hd : c.Reaches d) :
    ∃ depth', Closes inner tail depth' d ∧
      (tail ≠ [] → ∀ rest, braceDepth depth (t :: rest) = braceDepth depth' rest) := by
  cases h with
  | nothing h => exact ⟨depth, .nothing h, fun htail => absurd h htail⟩
  | brace h found =>
    subst h
    obtain ⟨depth', hfound, hdepth⟩ := substitutionEnd_taken hi ht hr hstarts found
    rw [← hd.offset] at hfound
    exact ⟨depth', .brace rfl hfound, fun _ => hdepth⟩

/-- What is between two tokens. -/
theorem gap_of_skipTrivia {c d : Cursor} {newline : Bool} (hat : c.At source tail)
    (h : skipTrivia c = .ok (newline, d))
    (hlonger : skipTrivia (c.extend tail) = .ok (newline, d.extend tail)) :
    Gap (source.drop c.offset) (source.drop d.offset) ∧
      newline = (slice source c.offset d.offset).contains '\n' := by
  obtain ⟨hreach, -⟩ := skipped_of_skipTrivia h
  obtain ⟨hgap, gap, hword, rfl⟩ := (skipped_of_skipTrivia hlonger).2.gap
  rw [rest_extend, rest_extend] at hgap hword
  rw [hat.text, (hat.over hreach).text]
  refine ⟨hgap, ?_⟩
  obtain ⟨word, hrest, -, rfl⟩ := hreach
  rw [hrest, List.append_assoc] at hword
  rw [hat.slice hrest, List.append_cancel_right hword]

/-- Tokens tile the text of a cursor, and the braces they open are those they close. -/
theorem tiled_of_tokensWith (hi : inner.Steady)
    (htemplate : ∀ {c d : Cursor} {t : Template}, c.At source tail → inner.read c = .ok (t, d) →
      TemplateTiled source (c.offset + 1) d.offset t.pieces)
    {c d : Cursor} {tokens : List Token} (hat : c.At source tail) (hclose : Closes inner tail depth c)
    (h : tokensWith inner c = .ok (tokens, d)) :
    Tiled source c.offset (c.offset + c.rest.length) tokens ∧
      (tail ≠ [] → braceDepth depth tokens = some 0) := by
  -- By the recursion of the reader: where each token ends, the search of `Closes` goes on from there.
  fun_induction tokensWith inner c generalizing tokens depth with
  | case1 | case3 => cases h
  | case2 c newline start hskip hr =>
    obtain ⟨rfl, rfl⟩ := Prod.mk.inj (Except.ok.inj h)
    obtain ⟨hlonger, hclose⟩ := hclose.of_skipTrivia hi hskip
    obtain ⟨hgap, hnewline⟩ := gap_of_skipTrivia hat hskip hlonger
    have hreach := (skipped_of_skipTrivia hskip).1
    have hstart := hat.over hreach
    have hstop : start.offset = c.offset + c.rest.length := by
      rw [← hreach.offset, hr, List.length_nil, Nat.add_zero]
    rw [← hstop]
    refine ⟨.eof hreach.offset_le hstart.bound hgap hnewline (hstart.spanTo hstart) rfl rfl, ?_⟩
    intro htail
    rw [hclose.depth_eq_zero hi hr htail]
    rfl
  | case4 c newline start hskip x cs hr token after htoken ih =>
    obtain ⟨⟨rest, done⟩, ha, h⟩ := bind_eq_ok_iff.1 h
    obtain ⟨rfl, rfl⟩ := Prod.mk.inj (Except.ok.inj h)
    obtain ⟨hlonger, hclose⟩ := hclose.of_skipTrivia hi hskip
    obtain ⟨hgap, hnewline⟩ := gap_of_skipTrivia hat hskip hlonger
    obtain ⟨hreach, hskipped⟩ := skipped_of_skipTrivia hskip
    have hstart := hat.over hreach
    have hmove := tokenWith_reaches hi htoken
    have hafter := hstart.over hmove
    have hlt : start.offset < after.offset := by
      have hshorter : after.rest.length < start.rest.length := tokenWith_length hr htoken
      have hoffset := hmove.offset
      omega
    obtain ⟨hspan, htoken⟩ := taken_of_tokenWith hr htoken
    have htaken := htoken.withNewline newline
    obtain ⟨depth', hclose', hdepth⟩ := hclose.taken hi htaken hr hskipped.starts hmove
    obtain ⟨htiled, hbraces⟩ := ih hafter hclose' ha
    rw [hmove.offset, hreach.offset] at htiled
    refine ⟨.token hreach.offset_le hlt hafter.bound hgap hnewline ?_ ?_ htiled, fun htail => ?_⟩
    · exact hspan.trans (hstart.spanTo hafter)
    · exact htaken.lexeme hstart hr hmove fun template hread => htemplate hstart hread
    · rw [hdepth htail]
      exact hbraces htail

/-! ## Templates -/

/-- A reader of templates that gives what is in them. -/
structure TemplateReader.Tiling (inner : TemplateReader) : Prop extends inner.Steady where
  tiled : ∀ {source tail : List Char} {c d : Cursor} {t : Template}, c.At source tail →
    (tail = [] ∨ ∃ more, tail = '\x7d' :: more) → inner.read c = .ok (t, d) →
    TemplateTiled source (c.offset + 1) d.offset t.pieces

/-- The characters of an escape behind the first two are plain characters of the template. -/
theorem TemplateTiled.chars {c d : Cursor} {stop : Nat} {pieces : List (List Token × String)}
    (hat : c.At source tail) (hd : c.Over InEscape d) (h : TemplateTiled source d.offset stop pieces) :
    TemplateTiled source c.offset stop pieces := by
  obtain ⟨word, hrest, hword, rfl⟩ := hd
  induction word generalizing c with
  | nil => exact h
  | cons x word ih =>
    obtain ⟨hmark, hback, hdollar⟩ := hword x List.mem_cons_self
    have hr : c.bump.rest = word ++ (c.bump.skip word.length).rest := by
      rw [rest_bump, hrest]
      rfl
    have hmore := ih hat.bump (fun y hy => hword y (List.mem_cons_of_mem x hy)) h hr
    rw [offset_bump (by rw [hrest]; exact List.cons_ne_nil _ _)] at hmore
    exact .char (hat.head hrest) ⟨hmark, hback⟩ (fun h => absurd h hdollar) hmore

/-- The tokens of a substitution tile it, and its braces match. -/
theorem SubstitutionAt.tiled (hi : inner.Tiling) {c d : Cursor} {n : Nat} {tokens : List Token}
    (h : SubstitutionAt inner c n tokens d) (hat : c.At source tail)
    (htail : tail = [] ∨ ∃ more, tail = '\x7d' :: more) :
    Tiled source c.offset (c.offset + n) tokens ∧ braceDepth 0 tokens = some 0 ∧
      source[c.offset + n]? = some '\x7d' ∧ d.offset = c.offset + n + 1 := by
  obtain ⟨⟨cs, hbrace⟩, hclose, htokens, rfl⟩ := h
  have hcut := hat.cut n
  have hlen : (c.cut n).rest.length = n := length_cut hbrace
  rw [hbrace] at hcut
  have hfound : substitutionEnd inner c 0 ((c.cut n).extend ('\x7d' :: cs ++ tail)) =
      .ok ((c.cut n).offset + (c.cut n).rest.length) := by
    rw [← hbrace, extend_append, extend_cut, hlen]
    -- In a template that is inside of another one, the search has not seen what is behind the text.
    obtain rfl | ⟨more, rfl⟩ := htail
    · rw [extend_nil]
      exact hclose
    · exact substitutionEnd_extend hi.toSteady hclose c more
  obtain ⟨htiled, hdepth⟩ := tiled_of_tokensWith hi.toSteady
    (fun hat hread => hi.tiled hat (.inr ⟨_, rfl⟩) hread) hcut
    (.brace rfl hfound) htokens
  rw [hlen] at htiled
  have hn : n < c.rest.length := lt_of_drop hbrace
  refine ⟨htiled, hdepth (List.cons_ne_nil _ _), ?_, offset_skip hn⟩
  rw [hat.getElem? hn, ← List.head?_drop, hbrace]
  rfl

theorem templateTail_tiled (hi : inner.Tiling) {start c d : Cursor} {text : List Char}
    {pieces : List (List Token × String)} (hat : c.At source tail)
    (htail : tail = [] ∨ ∃ more, tail = '\x7d' :: more)
    (h : templateTail inner start c = .ok (text, pieces, d)) :
    TemplateTiled source c.offset d.offset pieces := by
  fun_induction templateTail inner start c generalizing text pieces with
  | case1 | case3 | case5 => cases h
  | case2 c x cs hr hmark =>
    obtain ⟨rfl, rfl, rfl⟩ := h
    rw [offset_bump (by simp [hr])]
    exact .close (beq_iff_eq.mp hmark ▸ hat.head hr)
  | case4 c x cs hr hmark hopen tokens after hs ih =>
    obtain ⟨⟨_, _, _⟩, ha, h⟩ := bind_eq_ok_iff.1 h
    obtain ⟨rfl, rfl, rfl⟩ := h
    obtain ⟨n, hn⟩ := substitutionAt_of_readSubstitution hi.toSteady hs
    have hat2 := hat.skip 2
    obtain ⟨hdollar, hbrace⟩ := Bool.and_eq_true_iff.mp hopen
    have hpeek : c.rest[1]? = some '\x7b' := of_decide_eq_true hbrace
    have hlen : 1 < c.rest.length := (List.getElem?_eq_some_iff.mp hpeek).1
    obtain ⟨htiled, hbalanced, hclosing, hstop⟩ := hn.tiled hi hat2 htail
    have hrest := ih (hn.stop ▸ hat2.skip _) ha
    rw [hstop] at hrest
    rw [offset_skip hlen] at htiled hclosing hrest
    have hopening : source[c.offset + 1]? = some '\x7b' := (hat.getElem? hlen).trans hpeek
    exact .substitution (beq_iff_eq.mp hdollar ▸ hat.head hr) hopening htiled hbalanced hclosing hrest
  | case6 c x cs hr hmark hopen value after he ih =>
    obtain ⟨⟨_, _, _⟩, ha, h⟩ := bind_eq_ok_iff.1 h
    obtain ⟨rfl, rfl, rfl⟩ := h
    have hafter := (templateTail_reaches hi.toSteady ha).1
    have hrest := ih (hat.over (readPlainOrEscape_reaches he)) ha
    rw [readPlainOrEscape] at he
    split at he
    · rename_i hback
      obtain ⟨hne, hover⟩ := readEscape_over he
      have hescape := TemplateTiled.chars hat.bump.bump hover hrest
      rw [offset_bump hne, offset_bump (by simp [hr])] at hescape
      exact .escape (beq_iff_eq.mp hback ▸ hat.head hr) hescape
    · rename_i hback
      obtain ⟨rfl, rfl⟩ := Prod.mk.inj (Except.ok.inj he)
      have hlen : 1 < c.rest.length := by
        have hpos := List.length_pos_iff.mpr hafter
        rw [rest_bump, List.length_tail] at hpos
        omega
      rw [offset_bump (by simp [hr])] at hrest
      refine .char (hat.head hr) ⟨by simpa using hmark, by simpa using hback⟩ (fun hdollar => ?_) hrest
      -- With a brace behind the dollar sign a substitution would have been read.
      rw [hat.getElem? hlen]
      intro hbrace
      refine hopen ?_
      simp [hdollar, peek, hbrace]

theorem tiling_readTemplate (n : Nat) : (readTemplate n).Tiling := by
  induction n with
  | zero => exact { steady_readTemplate 0 with tiled := nofun }
  | succ n ih =>
    refine { steady_readTemplate (n + 1) with tiled := fun {source tail c d t} hat htail h => ?_ }
    obtain ⟨⟨text, pieces, after⟩, ha, h⟩ := bind_eq_ok_iff.1 h
    obtain ⟨rfl, rfl⟩ := h
    have hc : c.rest ≠ [] := by
      intro hnil
      refine (templateTail_reaches ih.toSteady ha).1 ?_
      rw [rest_bump, hnil, List.tail_nil]
    rw [← offset_bump hc]
    exact templateTail_tiled ih hat.bump htail ha

/-- The tokens of a text tile it. -/
theorem tiled_of_tokenize {source : String} {tokens : List Token} (h : tokenize source = .ok tokens) :
    Tiled source.toList 0 source.length tokens := by
  obtain ⟨⟨tokens, done⟩, ha, h⟩ := bind_eq_ok_iff.1 h
  obtain rfl := Except.ok.inj h
  have hi := tiling_readTemplate (source.length + 1)
  have hat : Cursor.At source.toList [] ⟨source.toList, 0, 1, 1⟩ :=
    ⟨by simp, by simp, by simp [lineAt], by simp [colAt]⟩
  have hclose : Closes (readTemplate (source.length + 1)) [] 0 ⟨source.toList, 0, 1, 1⟩ := .nothing rfl
  have htiled := (tiled_of_tokensWith hi.toSteady (fun hat hread => hi.tiled hat (.inl rfl) hread) hat
    hclose ha).1
  rwa [Nat.zero_add, String.length_toList] at htiled

/-- The tokens of a text tile it, with those of all substitutions in it, and their ranges increase. -/
theorem tokenize_tiled (source : String) (tokens : List Token) (h : tokenize source = .ok tokens) :
    Tiled source.toList 0 source.length tokens ∧
      tokens.Pairwise fun t u => t.span.stop ≤ u.span.start :=
  ⟨tiled_of_tokenize h, (tiled_of_tokenize h).pairwise⟩

/-- A template in a template, with braces and a comment between them. -/
def nestedTemplates : String :=
  "x = \x60a$\x7b f(\x7b b: \x60$\x7bc\x7d\x60 \x7d) /* \x7d */ \x7d\x60;\ny"

theorem tokenize_tiled_nested :
    ∃ tokens, tokenize nestedTemplates = .ok tokens ∧
      tokens.map (fun t => t.pieces.length) = [0, 0, 1, 0, 0, 0] ∧
      Tiled nestedTemplates.toList 0 nestedTemplates.length tokens := by
  have hread : succeedsWith (tokenize nestedTemplates)
      (fun tokens => tokens.map (fun t => t.pieces.length) == [0, 0, 1, 0, 0, 0]) = true := by
    decide +kernel
  obtain ⟨tokens, htokens, hpieces⟩ := succeedsWith_iff.mp hread
  exact ⟨tokens, htokens, beq_iff_eq.mp hpieces, (tokenize_tiled _ tokens htokens).1⟩

end ScriptBridge.TypeScript
