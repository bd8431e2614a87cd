import ScriptBridge.Proofs.TypeScript.Blanks
import ScriptBridge.Proofs.TypeScript.Quoted

/-!
# Looking for the end of a substitution

How far tokens and templates reach, and that the reader of templates and the search for the brace that
closes a substitution find the same in a text that goes on with a brace behind the one they read.

* `TemplateReader.Steady`: a reader of templates that does so.
* `substitutionEnd_eq`: one step of the search.
* `substitutionEnd_run`, `substitutionEnd_extend`: plain characters, and a longer text.
* `steady_readTemplate`: templates with any number of levels in them.
-/

namespace ScriptBridge.TypeScript

open Cursor

/-- A reader of templates that reads the same if a brace follows the text. -/
structure TemplateReader.Steady (inner : TemplateReader) : Prop where
  reaches : ∀ {c d : Cursor} {t : Template}, inner.read c = .ok (t, d) → c.Reaches d
  extend : ∀ {c d : Cursor} {t : Template}, inner.read c = .ok (t, d) → ∀ more,
    inner.read (c.extend ('\x7d' :: more)) = .ok (t, d.extend ('\x7d' :: more))

variable {inner : TemplateReader}

/-! ## The search -/

/-- The braces that are open behind a character that is passed over. -/
def depthBehind (x : Char) (depth : Nat) : Nat :=
  if x == '\x7b' then depth + 1 else if x == '\x7d' then depth - 1 else depth

theorem substitutionEnd_eq {start c d : Cursor} {depth : Nat} {newline : Bool}
    (h : skipTrivia c = .ok (newline, d)) :
    substitutionEnd inner start depth c =
      match d.rest with
      | [] => start.fail .unterminatedSubstitution
      | x :: _ =>
        if x == '\x7d' && depth = 0 then .ok d.offset
        else passOver inner x d >>= substitutionEnd inner start (depthBehind x depth) := by
  rw [substitutionEnd]
  split
  · rename_i hfault
    rw [h] at hfault
    cases hfault
  · rename_i hskip
    obtain ⟨rfl, rfl⟩ := Prod.mk.inj (Except.ok.inj (h.symm.trans hskip))
    split
    · rename_i hr
      rw [hr]
    · rename_i x cs hr
      rw [hr]
      refine ite_congr rfl (fun _ => rfl) fun _ => ?_
      split
      · rename_i hfault
        rw [hfault]
        rfl
      · rename_i hpass
        rw [hpass]
        rfl

/-- The search may start behind blanks and comments. -/
theorem substitutionEnd_skip {start c d : Cursor} {depth : Nat} {newline : Bool}
    (h : skipTrivia c = .ok (newline, d)) :
    substitutionEnd inner start depth c = substitutionEnd inner start depth d := by
  rw [substitutionEnd_eq h, substitutionEnd_eq (skipTrivia_of_starts (skipped_of_skipTrivia h).2.starts)]

/-- The search passes over what begins with a character, unless that closes the substitution. -/
theorem substitutionEnd_step {start c d : Cursor} {depth : Nat} {x : Char} {cs : List Char}
    (hr : c.rest = x :: cs) (hstarts : Starts c.rest) (hx : x = '\x7d' → depth ≠ 0)
    (hd : passOver inner x c = .ok d) :
    substitutionEnd inner start depth c = substitutionEnd inner start (depthBehind x depth) d := by
  have hopen : ¬ (x == '\x7d' && depth = 0) = true := by simpa using hx
  rw [substitutionEnd_eq (skipTrivia_of_starts hstarts), hr]
  refine (if_neg hopen).trans ?_
  rw [hd]
  rfl

/-- The search ends at a brace that closes what no brace opened. -/
theorem substitutionEnd_close {start c : Cursor} {cs : List Char} (hr : c.rest = '\x7d' :: cs)
    (hstarts : Starts c.rest) : substitutionEnd inner start 0 c = .ok c.offset := by
  rw [substitutionEnd_eq (skipTrivia_of_starts hstarts), hr]
  rfl

theorem passOver_reaches (hi : inner.Steady) {x : Char} {c d : Cursor} (h : passOver inner x c = .ok d) :
    c.Reaches d := by
  unfold passOver at h
  split at h
  · obtain ⟨_, ha, rfl⟩ := map_eq_ok_iff.1 h
    exact readString_reaches ha
  · split at h
    · obtain ⟨_, ha, rfl⟩ := map_eq_ok_iff.1 h
      exact hi.reaches ha
    · obtain rfl := Except.ok.inj h
      exact c.reaches_bump

theorem passOver_extend (hi : inner.Steady) {x : Char} {c d : Cursor} (hc : c.rest ≠ [])
    (h : passOver inner x c = .ok d) (more : List Char) :
    passOver inner x (c.extend ('\x7d' :: more)) = .ok (d.extend ('\x7d' :: more)) := by
  unfold passOver at h ⊢
  split at h
  · rename_i hx
    obtain ⟨_, ha, rfl⟩ := map_eq_ok_iff.1 h
    rw [if_pos hx]
    exact map_eq_ok_iff.2 ⟨_, readString_extend hc ha _, rfl⟩
  · rename_i hx
    rw [if_neg hx]
    split at h
    · rename_i hmark
      obtain ⟨_, ha, rfl⟩ := map_eq_ok_iff.1 h
      rw [if_pos hmark]
      exact map_eq_ok_iff.2 ⟨_, hi.extend ha _, rfl⟩
    · rename_i hmark
      obtain rfl := Except.ok.inj h
      rw [if_neg hmark, bump_extend hc]

/-- The search ends at a brace. -/
theorem substitutionEnd_reaches (hi : inner.Steady) {start c : Cursor} {depth close : Nat}
    (h : substitutionEnd inner start depth c = .ok close) :
    ∃ d cs, c.Reaches d ∧ d.offset = close ∧ d.rest = '\x7d' :: cs := by
  fun_induction substitutionEnd inner start depth c with
  | case1 | case2 | case4 => cases h
  | case3 depth c _ here hskip x cs hr hclose =>
    obtain rfl := Except.ok.inj h
    obtain ⟨hx, -⟩ := Bool.and_eq_true_iff.mp hclose
    exact ⟨here, cs, (skipped_of_skipTrivia hskip).1, rfl, by rw [hr, beq_iff_eq.mp hx]⟩
  | case5 depth c _ here hskip x cs hr hclose after hpass ih =>
    obtain ⟨d, cs, hreach, hoffset, hd⟩ := ih h
    exact ⟨d, cs, (skipped_of_skipTrivia hskip).1.trans ((passOver_reaches hi hpass).trans hreach),
      hoffset, hd⟩

/-- The search passes over blanks and comments before the brace that it finds. -/
theorem skipTrivia_of_substitutionEnd (hi : inner.Steady) {start c : Cursor} {depth close : Nat}
    (h : substitutionEnd inner start depth c = .ok close) :
    ∃ newline d, skipTrivia c = .ok (newline, d) ∧ d.offset ≤ close ∧
      substitutionEnd inner start depth d = .ok close := by
  cases hskip : skipTrivia c with
  | error fault =>
    rw [substitutionEnd] at h
    split at h
    · cases h
    · rename_i hok
      rw [hskip] at hok
      cases hok
  | ok r =>
    obtain ⟨newline, d⟩ := r
    rw [substitutionEnd_skip hskip] at h
    obtain ⟨e, cs, hreach, rfl, -⟩ := substitutionEnd_reaches hi h
    exact ⟨newline, d, rfl, hreach.offset_le, h⟩

/-- The search finds the same brace where the text goes on with another one. -/
theorem substitutionEnd_extend (hi : inner.Steady) {start c : Cursor} {depth close : Nat}
    (h : substitutionEnd inner start depth c = .ok close) (start' : Cursor) (more : List Char) :
    substitutionEnd inner start' depth (c.extend ('\x7d' :: more)) = .ok close := by
  fun_induction substitutionEnd inner start depth c with
  | case1 | case2 | case4 => cases h
  | case3 depth c _ here hskip x cs hr hclose =>
    have hne : here.rest ≠ [] := by simp [hr]
    rw [substitutionEnd_eq (skipTrivia_extend hskip hne more), rest_extend, hr]
    exact (if_pos hclose).trans h
  | case5 depth c _ here hskip x cs hr hclose after hpass ih =>
    have hne : here.rest ≠ [] := by simp [hr]
    rw [substitutionEnd_eq (skipTrivia_extend hskip hne more), rest_extend, hr]
    exact (if_neg hclose).trans (bind_eq_ok_iff.2 ⟨_, passOver_extend hi hne hpass more, ih h⟩)

/-! ## Plain characters -/

theorem starts_of_isPlain {x : Char} (h : IsPlain x) (cs : List Char) : Starts (x :: cs) := by
  have hslash (y : Char) (hp : ['/', y] <+: x :: cs) : False :=
    h ((List.cons_prefix_cons.mp hp).1 ▸ by decide)
  refine ⟨fun y hy => ?_, hslash '/', hslash '*'⟩
  obtain rfl : x = y := Option.some.inj hy
  refine Bool.eq_false_iff.mpr fun hspacing => ?_
  simp only [isSpacing, Bool.or_eq_true, beq_iff_eq] at hspacing
  obtain (((rfl | rfl) | rfl) | rfl) | rfl := hspacing <;> exact h (by decide)

/-- The characters at which the search does something of its own. -/
def searchMarks : List Char :=
  ['"', '\'', '\x60', '\x7b', '\x7d']

theorem substitutionEnd_char {start c : Cursor} {depth : Nat} {x : Char} {cs : List Char}
    (hr : c.rest = x :: cs) (hstarts : Starts c.rest) (hx : x ∉ searchMarks) :
    substitutionEnd inner start depth c = substitutionEnd inner start depth c.bump := by
  simp only [searchMarks, List.mem_cons, List.not_mem_nil, or_false, not_or] at hx
  obtain ⟨hdouble, hsingle, hback, hopen, hclose⟩ := hx
  have hdepth : depthBehind x depth = depth := by
    simp [depthBehind, hopen, hclose]
  rw [substitutionEnd_step hr hstarts (fun h => absurd h hclose) (d := c.bump), hdepth]
  simp [passOver, hdouble, hsingle, hback]

/-- Characters of a token are passed over one by one. -/
theorem substitutionEnd_run {start c : Cursor} {depth : Nat} {x : Char} {word rest : List Char}
    (hr : c.rest = x :: (word ++ rest)) (hstarts : Starts c.rest) (hx : x ∉ searchMarks)
    (hword : ∀ y ∈ word, IsPlain y) :
    substitutionEnd inner start depth c =
      substitutionEnd inner start depth (c.skip (word.length + 1)) := by
  induction word generalizing c x with
  | nil => exact substitutionEnd_char hr hstarts hx
  | cons y word ih =>
    have hy := hword y List.mem_cons_self
    have hbump : c.bump.rest = y :: (word ++ rest) := by rw [rest_bump, hr]; rfl
    have hmark : y ∉ searchMarks := fun hmem =>
      hy ((show searchMarks ⊆ markChars by decide) hmem)
    rw [substitutionEnd_char hr hstarts hx, List.length_cons, skip]
    exact ih hbump (hbump ▸ starts_of_isPlain hy _) hmark fun z hz => hword z (List.mem_cons_of_mem y hz)

/-! ## How far tokens reach -/

theorem tokenWith_reaches (hi : inner.Steady) {x : Char} {c d : Cursor} {t : Token}
    (h : tokenWith inner x c = .ok (t, d)) : c.Reaches d := by
  revert h
  fun_cases tokenWith inner x c with
  | case1 =>
    intro h
    obtain ⟨_, ha, h⟩ := bind_eq_ok_iff.1 h
    obtain ⟨-, rfl⟩ := Prod.mk.inj (Except.ok.inj h)
    exact (skipNumber_over ha).reaches
  | case2 =>
    intro h
    obtain ⟨_, ha, h⟩ := bind_eq_ok_iff.1 h
    obtain ⟨-, rfl⟩ := Prod.mk.inj (Except.ok.inj h)
    exact readString_reaches ha
  | case3 =>
    intro h
    obtain ⟨_, ha, h⟩ := bind_eq_ok_iff.1 h
    obtain ⟨-, rfl⟩ := Prod.mk.inj (Except.ok.inj h)
    exact hi.reaches ha
  | case4 =>
    intro h
    obtain ⟨-, rfl⟩ := Prod.mk.inj (Except.ok.inj h)
    exact (over_skipWhile _).reaches
  | case5 =>
    intro h
    obtain ⟨-, rfl⟩ := Prod.mk.inj (Except.ok.inj h)
    exact c.reaches_skip _
  | case6 => exact fun h => absurd h fail_ne_ok

/-- Tokens are read to the end of the text. -/
theorem tokensWith_reaches (hi : inner.Steady) {c d : Cursor} {tokens : List Token}
    (h : tokensWith inner c = .ok (tokens, d)) : c.Reaches d ∧ d.rest = [] := by
  fun_induction tokensWith inner c generalizing tokens with
  | case1 | case3 => cases h
  | case2 c _ start hskip hr =>
    obtain ⟨-, rfl⟩ := Prod.mk.inj (Except.ok.inj h)
    exact ⟨(skipped_of_skipTrivia hskip).1, hr⟩
  | case4 c _ start hskip x cs hr token after htoken ih =>
    obtain ⟨⟨_, _⟩, ha, h⟩ := bind_eq_ok_iff.1 h
    obtain ⟨-, rfl⟩ := Prod.mk.inj (Except.ok.inj h)
    obtain ⟨hreach, hend⟩ := ih ha
    exact ⟨(skipped_of_skipTrivia hskip).1.trans ((tokenWith_reaches hi htoken).trans hreach), hend⟩

/-! ## Substitutions -/

/-- A cursor of which only some characters are to be read. -/
def Cursor.cut (c : Cursor) (n : Nat) : Cursor :=
  { c with rest := c.rest.take n }

theorem Cursor.extend_cut (c : Cursor) (n : Nat) : (c.cut n).extend (c.rest.drop n) = c := by
  cases c
  simp [cut, extend]

theorem Cursor.At.cut {source tail : List Char} {c : Cursor} (h : c.At source tail) (n : Nat) :
    (c.cut n).At source (c.rest.drop n ++ tail) where
  text := by
    rw [Cursor.cut, ← List.append_assoc, List.take_append_drop]
    exact h.text
  stop := by
    have hstop := h.stop
    simp only [Cursor.cut, List.length_take, List.length_append, List.length_drop]
    omega
  line := h.line
  col := h.col

/-- What a substitution is: the tokens up to the brace that closes it. -/
structure SubstitutionAt (inner : TemplateReader) (c : Cursor) (n : Nat) (tokens : List Token)
    (d : Cursor) : Prop where
  brace : ∃ cs, c.rest.drop n = '\x7d' :: cs
  close : substitutionEnd inner c 0 c = .ok (c.offset + n)
  tokens : tokensWith inner (c.cut n) = .ok (tokens, (c.cut n).skip n)
  stop : d = c.skip (n + 1)

theorem length_cut {c : Cursor} {n : Nat} {x : Char} {cs : List Char}
    (h : c.rest.drop n = x :: cs) : (c.cut n).rest.length = n :=
  List.length_take_of_le (Nat.le_of_lt (lt_of_drop h))

/-- Behind the tokens of a substitution the text goes on as it was. -/
theorem skip_cut {c : Cursor} {n : Nat} (h : (c.cut n).rest.length = n) :
    { (c.cut n).skip n with rest := c.rest.drop n } = c.skip n := by
  have hnil : ((c.cut n).skip n).rest = [] := by
    rw [rest_skip]
    exact List.drop_eq_nil_of_le (Nat.le_of_eq h)
  calc { (c.cut n).skip n with rest := c.rest.drop n }
      = ((c.cut n).skip n).extend (c.rest.drop n) := by rw [Cursor.extend, hnil, List.nil_append]
    _ = ((c.cut n).extend (c.rest.drop n)).skip n := (skip_extend (Nat.le_of_eq h.symm) _).symm
    _ = c.skip n := by rw [extend_cut]

theorem substitutionAt_of_readSubstitution (hi : inner.Steady) {c d : Cursor} {tokens : List Token}
    (h : readSubstitution inner c = .ok (tokens, d)) : ∃ n, SubstitutionAt inner c n tokens d := by
  obtain ⟨close, hclose, h⟩ := bind_eq_ok_iff.1 h
  obtain ⟨⟨ts, done⟩, htokens, h⟩ := bind_eq_ok_iff.1 h
  obtain ⟨rfl, rfl⟩ := Prod.mk.inj (Except.ok.inj h)
  obtain ⟨e, cs, ⟨word, hrest, -, rfl⟩, rfl, hbrace⟩ := substitutionEnd_reaches hi hclose
  have hsub : c.offset + word.length - c.offset = word.length := Nat.add_sub_cancel_left ..
  rw [rest_skip] at hbrace
  rw [offset_skip (length_le hrest)] at hclose htokens ⊢
  rw [hsub] at htokens ⊢
  obtain ⟨hreach, hend⟩ := tokensWith_reaches hi htokens
  -- The tokens are read to the end of the cut text, so they end where the brace is.
  obtain rfl : done = (c.cut word.length).skip word.length := by
    rw [hreach.eq_skip hend]
    exact congrArg (Cursor.skip · _) (length_cut hbrace)
  refine ⟨word.length, ⟨cs, hbrace⟩, hclose, htokens, ?_⟩
  simp only [skip_cut (length_cut hbrace)]
  rw [← skip_add]
  rfl

theorem readSubstitution_of_substitutionAt {c d : Cursor} {n : Nat} {tokens : List Token}
    (h : SubstitutionAt inner c n tokens d) : readSubstitution inner c = .ok (tokens, d) := by
  obtain ⟨⟨cs, hbrace⟩, hclose, htokens, rfl⟩ := h
  refine bind_eq_ok_iff.2 ⟨_, hclose, ?_⟩
  rw [Nat.add_sub_cancel_left]
  refine bind_eq_ok_iff.2 ⟨_, htokens, ?_⟩
  simp only [skip_cut (length_cut hbrace)]
  rw [← skip_add]
  rfl

theorem SubstitutionAt.extend (hi : inner.Steady) {c d : Cursor} {n : Nat} {tokens : List Token}
    (h : SubstitutionAt inner c n tokens d) (more : List Char) :
    SubstitutionAt inner (c.extend ('\x7d' :: more)) n tokens (d.extend ('\x7d' :: more)) := by
  obtain ⟨⟨cs, hbrace⟩, hclose, htokens, rfl⟩ := h
  have hlen : n < c.rest.length := lt_of_drop hbrace
  have hcut : (c.extend ('\x7d' :: more)).cut n = c.cut n := by
    rw [Cursor.cut, Cursor.cut, rest_extend, List.take_append_of_le_length (Nat.le_of_lt hlen)]
    rfl
  refine ⟨⟨cs ++ '\x7d' :: more, ?_⟩, substitutionEnd_extend hi hclose _ more, ?_, ?_⟩
  · rw [rest_extend, List.drop_append_of_le_length (Nat.le_of_lt hlen), hbrace, List.cons_append]
  · rw [hcut]
    exact htokens
  · rw [skip_extend hlen]

theorem readSubstitution_extend (hi : inner.Steady) {c d : Cursor} {tokens : List Token}
    (h : readSubstitution inner c = .ok (tokens, d)) (more : List Char) :
    readSubstitution inner (c.extend ('\x7d' :: more)) = .ok (tokens, d.extend ('\x7d' :: more)) := by
  obtain ⟨n, hn⟩ := substitutionAt_of_readSubstitution hi h
  exact readSubstitution_of_substitutionAt (hn.extend hi more)

/-! ## Templates -/

theorem templateTail_eq {start c : Cursor} {x : Char} {cs : List Char} (hr : c.rest = x :: cs) :
    templateTail inner start c =
      if x == '\x60' then .ok ([], [], c.bump)
      else if x == '$' && c.peek 1 = some '\x7b' then do
        let (tokens, after) ← readSubstitution inner (c.skip 2)
        let (text, pieces, last) ← templateTail inner start after
        return ([], (tokens, String.ofList text) :: pieces, last)
      else do
        let (value, after) ← readPlainOrEscape x c
        let (text, pieces, last) ← templateTail inner start after
        return (value ++ text, pieces, last) := by
  rw [templateTail]
  split
  · rename_i hnil
    rw [hr] at hnil
    cases hnil
  · rename_i y ys hy
    obtain ⟨rfl, rfl⟩ := List.cons.inj (hr.symm.trans hy)
    refine ite_congr rfl (fun _ => rfl) fun _ => ite_congr rfl (fun _ => ?_) fun _ => ?_
    · split <;> rename_i hread <;> rw [hread] <;> rfl
    · split <;> rename_i hread <;> rw [hread] <;> rfl

theorem templateTail_reaches (hi : inner.Steady) {start c d : Cursor} {text : List Char}
    {pieces : List (List Token × String)} (h : templateTail inner start c = .ok (text, pieces, d)) :
    c.rest ≠ [] ∧ c.Reaches d := by
  fun_induction templateTail inner start c generalizing text pieces with
  | case1 | case3 | case5 => cases h
  | case2 c x cs hr =>
    obtain ⟨-, -, rfl⟩ := h
    exact ⟨by simp [hr], c.reaches_bump⟩
  | case4 c x cs hr _ _ tokens after hs ih =>
    obtain ⟨⟨_, _, _⟩, ha, h⟩ := bind_eq_ok_iff.1 h
    obtain ⟨-, -, rfl⟩ := h
    obtain ⟨n, hn⟩ := substitutionAt_of_readSubstitution hi hs
    obtain rfl := hn.stop
    exact ⟨by simp [hr], (c.reaches_skip 2).trans ((reaches_skip _ _).trans (ih ha).2)⟩
  | case6 c x cs hr _ _ value after he ih =>
    obtain ⟨⟨_, _, _⟩, ha, h⟩ := bind_eq_ok_iff.1 h
    obtain ⟨-, -, rfl⟩ := h
    exact ⟨by simp [hr], (readPlainOrEscape_reaches he).trans (ih ha).2⟩

theorem templateTail_extend (hi : inner.Steady) {start c d : Cursor} {text : List Char}
    {pieces : List (List Token × String)} (h : templateTail inner start c = .ok (text, pieces, d))
    (start' : Cursor) (more : List Char) :
    templateTail inner start' (c.extend ('\x7d' :: more)) =
      .ok (text, pieces, d.extend ('\x7d' :: more)) := by
  have hlonger {c : Cursor} {x : Char} {cs : List Char} (hr : c.rest = x :: cs) :
      (c.extend ('\x7d' :: more)).rest = x :: (cs ++ '\x7d' :: more) := by
    rw [rest_extend, hr, List.cons_append]
  have hpeek {c : Cursor} (hlen : 1 < c.rest.length) : (c.extend ('\x7d' :: more)).peek 1 = c.peek 1 :=
    List.getElem?_append_left hlen
  fun_induction templateTail inner start c generalizing text pieces with
  | case1 | case3 | case5 => cases h
  | case2 c x cs hr hmark =>
    obtain ⟨rfl, rfl, rfl⟩ := h
    rw [templateTail_eq (hlonger hr), if_pos hmark, bump_extend (by simp [hr])]
  | case4 c x cs hr hmark hopen tokens after hs ih =>
    obtain ⟨⟨_, _, _⟩, ha, h⟩ := bind_eq_ok_iff.1 h
    obtain ⟨rfl, rfl, rfl⟩ := h
    have hlen : 1 < c.rest.length := by
      obtain ⟨-, hbrace⟩ := Bool.and_eq_true_iff.mp hopen
      exact (List.getElem?_eq_some_iff.mp (of_decide_eq_true hbrace)).1
    rw [templateTail_eq (hlonger hr), if_neg hmark, hpeek hlen, if_pos hopen, skip_extend hlen]
    refine bind_eq_ok_iff.2 ⟨_, readSubstitution_extend hi hs more, ?_⟩
    exact bind_eq_ok_iff.2 ⟨_, ih ha, rfl⟩
  | case6 c x cs hr hmark hopen value after he ih =>
    obtain ⟨⟨_, _, _⟩, ha, h⟩ := bind_eq_ok_iff.1 h
    obtain ⟨rfl, rfl, rfl⟩ := h
    have hafter := (templateTail_reaches hi ha).1
    have hlen : 1 < c.rest.length :=
      Nat.lt_of_le_of_lt (List.length_pos_iff.mpr hafter) (readPlainOrEscape_length hr he)
    rw [templateTail_eq (hlonger hr), if_neg hmark, hpeek hlen, if_neg hopen]
    refine bind_eq_ok_iff.2 ⟨_, readPlainOrEscape_extend hr he hafter _, ?_⟩
    exact bind_eq_ok_iff.2 ⟨_, ih ha, rfl⟩

/-- Templates with any number of levels of templates in them are read the same in a longer text. -/
theorem steady_readTemplate (n : Nat) : (readTemplate n).Steady := by
  induction n with
  | zero => exact ⟨nofun, nofun⟩
  | succ n ih =>
    constructor
    · intro c d t h
      obtain ⟨⟨text, pieces, after⟩, ha, h⟩ := bind_eq_ok_iff.1 h
      obtain ⟨rfl, rfl⟩ := h
      exact c.reaches_bump.trans (templateTail_reaches ih ha).2
    · intro c d t h more
      obtain ⟨⟨text, pieces, after⟩, ha, h⟩ := bind_eq_ok_iff.1 h
      obtain ⟨rfl, rfl⟩ := h
      have hc : c.rest ≠ [] := by
        intro hnil
        refine (templateTail_reaches ih ha).1 ?_
        rw [rest_bump, hnil, List.tail_nil]
      refine bind_eq_ok_iff.2 ⟨(text, pieces, d.extend ('\x7d' :: more)), ?_, rfl⟩
      rw [bump_extend hc]
      exact templateTail_extend ih ha _ more

end ScriptBridge.TypeScript
