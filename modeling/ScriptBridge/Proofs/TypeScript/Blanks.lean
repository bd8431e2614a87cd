import ScriptBridge.Proofs.TypeScript.Places

/-!
# Passing over blanks and comments

`Skipped` says without cursors what `skipTrivia` does: one comment or run of blanks after the other, up to
a place where none begins. From there it is seen that the same is passed over where the text is longer
behind that place, and where it is shorter but reaches as far as that place.

* `Trivia`, `Starts`: a comment or a run of blanks, and a place where none begins.
* `skipped_of_skipTrivia`, `skipTrivia_of_skipped`: what is passed over.
* `Skipped.gap`: it is a gap, and tells whether a line ends in it.
* `skipTrivia_extend`, `skipTrivia_of_extend`: texts that are longer and shorter.
-/

namespace ScriptBridge.TypeScript

open Cursor

/-! ## One comment or run of blanks -/

/-- A comment or a run of blanks, and the text behind it. -/
inductive Trivia : List Char → List Char → Prop
  | line {body rest : List Char} (hbody : '\n' ∉ body) (hend : ∀ x, rest.head? = some x → x = '\n') :
      Trivia ('/' :: '/' :: body) rest
  | block {body rest : List Char} (hbody : ¬ ['*', '/'] <:+: body ++ ['*']) :
      Trivia ('/' :: '*' :: (body ++ ['*', '/'])) rest
  | blanks {word rest : List Char} (hne : word ≠ []) (hword : ∀ x ∈ word, isSpacing x = true)
      (hend : ∀ x, rest.head? = some x → isSpacing x = false) : Trivia word rest

/-- Neither a comment nor a run of blanks begins here. -/
structure Starts (cs : List Char) : Prop where
  blank : ∀ x, cs.head? = some x → isSpacing x = false
  line : ¬ ['/', '/'] <+: cs
  block : ¬ ['/', '*'] <+: cs

/-- Of the text behind it, only where it begins matters. -/
theorem Trivia.of_head {word rest rest' : List Char} (h : Trivia word rest)
    (hhead : ∀ x, rest'.head? = some x → rest.head? = some x) : Trivia word rest' := by
  cases h with
  | line hbody hend => exact .line hbody fun x hx => hend x (hhead x hx)
  | block hbody => exact .block hbody
  | blanks hne hword hend => exact .blanks hne hword fun x hx => hend x (hhead x hx)

theorem Trivia.ne_nil {word rest : List Char} (h : Trivia word rest) : word ≠ [] := by
  cases h with
  | line => exact List.cons_ne_nil _ _
  | block => exact List.cons_ne_nil _ _
  | blanks hne => exact hne

/-- The end of a block comment is the first mark that closes it. -/
theorem commentLength_eq_some {cs : List Char} {n : Nat} (h : commentLength cs = some n) :
    ∃ body after, cs = body ++ '*' :: '/' :: after ∧ n = body.length + 2 ∧
      ¬ ['*', '/'] <:+: body ++ ['*'] := by
  fun_induction commentLength cs generalizing n with
  | case1 => cases h
  | case2 after =>
    cases h
    exact ⟨[], after, rfl, rfl, by decide⟩
  | case3 x cs hmark ih =>
    obtain ⟨m, hm, rfl⟩ := Option.map_eq_some_iff.mp h
    obtain ⟨body, after, rfl, rfl, hbody⟩ := ih hm
    refine ⟨x :: body, after, rfl, rfl, fun hinside => ?_⟩
    obtain hbegins | hinside := List.infix_cons_iff.mp hinside
    · obtain ⟨rfl, hslash⟩ := List.cons_prefix_cons.mp hbegins
      obtain ⟨more, hmore⟩ := hslash
      cases body with
      | nil => cases hmore
      | cons y body =>
        obtain rfl : '/' = y := (List.cons.inj hmore).1
        exact hmark _ rfl rfl
    · exact hbody hinside

theorem commentLength_append {body : List Char} (h : ¬ ['*', '/'] <:+: body ++ ['*'])
    (after : List Char) : commentLength (body ++ '*' :: '/' :: after) = some (body.length + 2) := by
  induction body with
  | nil => rfl
  | cons x body ih =>
    have hrest : ¬ ['*', '/'] <:+: body ++ ['*'] := fun hinside =>
      h (List.infix_cons_iff.mpr (.inr hinside))
    rw [List.cons_append, commentLength, ih hrest]
    · rfl
    · rintro more rfl hmore
      refine h (List.infix_cons_iff.mpr (.inl (List.cons_prefix_cons.mpr ⟨rfl, ?_⟩)))
      cases body with
      | nil => cases hmore
      | cons y body =>
        obtain rfl : y = '/' := (List.cons.inj hmore).1
        exact ⟨_, rfl⟩

/-- What follows a run of characters that satisfy a test. -/
theorem head_dropWhile {f : Char → Bool} {cs : List Char} (x : Char)
    (h : (cs.dropWhile f).head? = some x) : f x = false := by
  have hx := List.head?_dropWhile_not f cs
  rw [h] at hx
  simpa using hx

theorem triviaLength_eq_ok {c : Cursor} {n : Nat} (h : triviaLength c = .ok n) :
    (n = 0 ∧ Starts c.rest) ∨
      ∃ word rest, c.rest = word ++ rest ∧ n = word.length ∧ Trivia word rest := by
  revert h
  fun_cases triviaLength c with
  | case1 cs hr =>
    intro h
    cases h
    refine .inr ⟨'/' :: '/' :: cs.takeWhile (· != '\n'), cs.dropWhile (· != '\n'), ?_, rfl, .line ?_ ?_⟩
    · rw [hr, List.cons_append, List.cons_append, List.takeWhile_append_dropWhile]
    · intro hmem
      simpa using List.all_eq_true.mp List.all_takeWhile _ hmem
    · intro x hx
      simpa using head_dropWhile x hx
  | case2 cs hr m hm =>
    intro h
    cases h
    obtain ⟨body, after, rfl, rfl, hbody⟩ := commentLength_eq_some hm
    refine .inr ⟨'/' :: '*' :: (body ++ ['*', '/']), after, ?_, ?_, .block hbody⟩
    · rw [hr]
      simp
    · simp
  | case3 => exact fun h => absurd h fail_ne_ok
  | case4 hline hblock =>
    intro h
    cases h
    by_cases hword : c.rest.takeWhile isSpacing = []
    · refine .inl ⟨by rw [hword]; rfl, ⟨fun x hx => ?_, ?_, ?_⟩⟩
      · have hdrop : c.rest.takeWhile isSpacing ++ c.rest.dropWhile isSpacing = c.rest :=
          List.takeWhile_append_dropWhile
        rw [hword, List.nil_append] at hdrop
        exact head_dropWhile x (hdrop.symm ▸ hx)
      · rintro ⟨cs, hcs⟩
        exact hline cs hcs.symm
      · rintro ⟨cs, hcs⟩
        exact hblock cs hcs.symm
    · refine .inr ⟨_, c.rest.dropWhile isSpacing, List.takeWhile_append_dropWhile.symm, rfl, ?_⟩
      exact .blanks hword (fun x hx => List.all_eq_true.mp List.all_takeWhile x hx) head_dropWhile

/-- A run of characters that satisfy a test, with one behind it that does not. -/
theorem takeWhile_run {f : Char → Bool} {word rest : List Char} (hword : ∀ x ∈ word, f x = true)
    (hend : ∀ x, rest.head? = some x → f x = false) : (word ++ rest).takeWhile f = word := by
  have hrest : rest.takeWhile f = [] := by
    cases rest with
    | nil => rfl
    | cons x rest => rw [List.takeWhile_cons, hend x rfl, if_neg Bool.false_ne_true]
  rw [List.takeWhile_append_of_pos hword, hrest, List.append_nil]

theorem triviaLength_of_starts {c : Cursor} (h : Starts c.rest) : triviaLength c = .ok 0 := by
  fun_cases triviaLength c with
  | case1 cs hr => exact absurd ⟨cs, hr.symm⟩ h.line
  | case2 cs hr => exact absurd ⟨cs, hr.symm⟩ h.block
  | case3 cs hr => exact absurd ⟨cs, hr.symm⟩ h.block
  | case4 =>
    have hrun : ([] ++ c.rest).takeWhile isSpacing = [] := takeWhile_run nofun h.blank
    rw [← List.nil_append c.rest, hrun]
    rfl

theorem triviaLength_of_trivia {c : Cursor} {word rest : List Char} (hr : c.rest = word ++ rest)
    (h : Trivia word rest) : triviaLength c = .ok word.length := by
  cases h with
  | @line body _ hbody hend =>
    have hrun : (body ++ rest).takeWhile (· != '\n') = body := by
      refine takeWhile_run (fun x hx => ?_) fun x hx => by simp [hend x hx]
      exact bne_iff_ne.mpr fun hnewline => hbody (hnewline ▸ hx)
    rw [triviaLength, hr]
    simp [hrun]
  | @block body _ hbody =>
    rw [triviaLength, hr]
    simp [commentLength_append hbody]
  | blanks hne hword hend =>
    have hslash (cs : List Char) : c.rest ≠ '/' :: cs := by
      intro hcs
      cases word with
      | nil => exact hne rfl
      | cons x word =>
        obtain rfl : x = '/' := (List.cons.inj (hr.symm.trans hcs)).1
        exact absurd (hword '/' List.mem_cons_self) (by decide)
    fun_cases triviaLength c with
    | case1 cs hcs => exact absurd hcs (hslash _)
    | case2 cs hcs => exact absurd hcs (hslash _)
    | case3 cs hcs => exact absurd hcs (hslash _)
    | case4 => rw [hr, takeWhile_run hword hend]

/-! ## All comments and blanks -/

/-- The text at one place goes on with that at another one behind comments and blanks, among which a line
ends or not. -/
inductive Skipped : List Char → Bool → List Char → Prop
  | stop {cs : List Char} (h : Starts cs) : Skipped cs false cs
  | pass {word cs rest : List Char} {newline : Bool} (h : Trivia word cs)
      (more : Skipped cs newline rest) :
      Skipped (word ++ cs) (word.contains '\n' || newline) rest

theorem skipped_of_skipTrivia {c d : Cursor} {newline : Bool} (h : skipTrivia c = .ok (newline, d)) :
    c.Reaches d ∧ Skipped c.rest newline d.rest := by
  fun_induction skipTrivia c generalizing newline with
  | case1 c ih =>
    obtain ⟨n, hn, h⟩ := bind_eq_ok_iff.1 h
    obtain ⟨rfl, hstarts⟩ | ⟨word, rest, hr, rfl, htrivia⟩ := triviaLength_eq_ok hn
    · rw [dif_pos (.inl rfl)] at h
      cases h
      exact ⟨.refl _ _, .stop hstarts⟩
    · have hsome : ¬ (word.length = 0 ∨ c.rest = []) := by
        rw [hr, List.length_eq_zero_iff, List.append_eq_nil_iff]
        exact fun h => htrivia.ne_nil (h.elim id And.left)
      rw [dif_neg hsome] at h
      obtain ⟨⟨more, done⟩, hmore, h⟩ := bind_eq_ok_iff.1 h
      cases h
      obtain ⟨hover, hskipped⟩ := ih _ hsome hmore
      rw [rest_skip, hr, List.drop_left] at hskipped
      refine ⟨(c.reaches_skip _).trans hover, ?_⟩
      rw [hr, List.take_left]
      exact .pass htrivia hskipped

/-- A run of blanks is a gap. -/
theorem Gap.blanks {word cs rest : List Char} (hword : ∀ x ∈ word, isSpacing x = true)
    (h : Gap cs rest) : Gap (word ++ cs) rest := by
  induction word with
  | nil => exact h
  | cons x word ih =>
    exact .blank (hword x List.mem_cons_self) (ih fun y hy => hword y (List.mem_cons_of_mem x hy))

theorem Trivia.gap {word cs rest : List Char} (h : Trivia word cs) (hgap : Gap cs rest) :
    Gap (word ++ cs) rest := by
  cases h with
  | line hbody hend =>
    refine .line hbody ?_ hgap
    cases cs with
    | nil => exact .inl rfl
    | cons x cs => exact .inr (congrArg some (hend x rfl))
  | @block body _ hbody =>
    show Gap ('/' :: '*' :: ((body ++ ['*', '/']) ++ cs)) rest
    rw [List.append_assoc]
    exact .block hbody hgap
  | blanks _ hword => exact .blanks hword hgap

/-- What is passed over is a gap, and tells whether a line ends in it. -/
theorem Skipped.gap {cs rest : List Char} {newline : Bool} (h : Skipped cs newline rest) :
    Gap cs rest ∧ ∃ word, cs = word ++ rest ∧ newline = word.contains '\n' := by
  induction h with
  | stop => exact ⟨.done _, [], rfl, rfl⟩
  | @pass word cs rest newline h _ ih =>
    obtain ⟨hgap, gap, rfl, rfl⟩ := ih
    refine ⟨h.gap hgap, word ++ gap, (List.append_assoc ..).symm, ?_⟩
    simp

theorem Skipped.starts {cs rest : List Char} {newline : Bool} (h : Skipped cs newline rest) :
    Starts rest := by
  induction h with
  | stop h => exact h
  | pass _ _ ih => exact ih

theorem skipTrivia_of_starts {c : Cursor} (h : Starts c.rest) : skipTrivia c = .ok (false, c) := by
  rw [skipTrivia]
  exact bind_eq_ok_iff.2 ⟨0, triviaLength_of_starts h, dif_pos (.inl rfl)⟩

theorem skipTrivia_of_skipped {c d : Cursor} {newline : Bool} (hd : c.Reaches d)
    (h : Skipped c.rest newline d.rest) : skipTrivia c = .ok (newline, d) := by
  generalize hcs : c.rest = cs at h
  generalize hrest : d.rest = rest at h
  induction h generalizing c with
  | stop h =>
    obtain ⟨word, hword, -, rfl⟩ := hd
    obtain rfl : word = [] := List.append_left_eq_self.mp (hword.symm.trans (hcs.trans hrest.symm))
    exact skipTrivia_of_starts (hcs ▸ h)
  | @pass word cs rest newline h more ih =>
    obtain ⟨-, gap, rfl, -⟩ := more.gap
    have hskip : (c.skip word.length).rest = gap ++ rest := by rw [rest_skip, hcs, List.drop_left]
    have hover : (c.skip word.length).Reaches d := by
      obtain ⟨whole, hwhole, -, rfl⟩ := hd
      refine ⟨gap, hrest ▸ hskip, fun _ _ => trivial, ?_⟩
      rw [hcs, hrest, ← List.append_assoc] at hwhole
      rw [skip_add, ← List.append_cancel_right hwhole, List.length_append]
    have hsome : ¬ (word.length = 0 ∨ c.rest = []) := by
      rw [hcs, List.length_eq_zero_iff, List.append_eq_nil_iff]
      exact fun hnil => h.ne_nil (hnil.elim id And.left)
    rw [skipTrivia]
    refine bind_eq_ok_iff.2 ⟨_, triviaLength_of_trivia hcs h, (dif_neg hsome).trans ?_⟩
    rw [ih hover hskip hrest, hcs, List.take_left]
    rfl

/-! ## Longer and shorter texts -/

theorem Starts.append {cs : List Char} (h : Starts cs) (hcs : cs ≠ []) (more : List Char) :
    Starts (cs ++ '\x7d' :: more) := by
  have hshort {y : Char} (hy : y ≠ '\x7d') (hp : ['/', y] <+: cs ++ '\x7d' :: more) :
      ['/', y] <+: cs := by
    match cs, hcs with
    | [x], _ => exact absurd (List.cons_prefix_cons.mp (List.cons_prefix_cons.mp hp).2).1 hy
    | x :: z :: cs, _ =>
      obtain ⟨hx, hp⟩ := List.cons_prefix_cons.mp hp
      obtain ⟨hz, -⟩ := List.cons_prefix_cons.mp hp
      exact ⟨cs, by rw [hx, hz]; rfl⟩
  refine ⟨fun x hx => h.blank x ?_, fun hp => h.line (hshort (by decide) hp),
    fun hp => h.block (hshort (by decide) hp)⟩
  cases cs with
  | nil => exact absurd rfl hcs
  | cons => exact hx

theorem Starts.of_append {cs tail : List Char} (h : Starts (cs ++ tail)) : Starts cs where
  blank x hx := h.blank x (by rw [List.head?_append, hx]; rfl)
  line hp := h.line (hp.trans (List.prefix_append ..))
  block hp := h.block (hp.trans (List.prefix_append ..))

/-- The text is longer, and the first text ends before a brace. -/
theorem Skipped.append {cs rest : List Char} {newline : Bool} (h : Skipped cs newline rest)
    (hrest : rest ≠ []) (more : List Char) :
    Skipped (cs ++ '\x7d' :: more) newline (rest ++ '\x7d' :: more) := by
  induction h with
  | stop h => exact .stop (h.append hrest more)
  | @pass word cs rest newline h hmore ih =>
    obtain ⟨-, gap, rfl, -⟩ := hmore.gap
    rw [List.append_assoc]
    refine .pass (h.of_head fun x hx => ?_) (ih hrest)
    cases hhead : (gap ++ rest).head? with
    | none => exact absurd (List.head?_eq_none_iff.mp hhead) (by simp [hrest])
    | some y => rwa [List.head?_append, hhead] at hx

/-- The text is shorter. -/
theorem Skipped.of_append {cs rest tail : List Char} {newline : Bool}
    (h : Skipped (cs ++ tail) newline (rest ++ tail)) : Skipped cs newline rest := by
  generalize hx : cs ++ tail = xs at h
  generalize hy : rest ++ tail = ys at h
  induction h generalizing cs with
  | stop h =>
    obtain rfl := List.append_cancel_right (hx.trans hy.symm)
    exact .stop (hx ▸ h).of_append
  | @pass word ds ys newline h hmore ih =>
    obtain ⟨-, gap, rfl, -⟩ := hmore.gap
    subst hy
    obtain rfl : cs = word ++ (gap ++ rest) := by
      refine List.append_cancel_right (hx.trans ?_)
      simp
    refine .pass (h.of_head fun x hx => ?_) (ih (List.append_assoc ..) rfl)
    rw [← List.append_assoc, List.head?_append, hx]
    rfl

theorem skipTrivia_extend {c d : Cursor} {newline : Bool} (h : skipTrivia c = .ok (newline, d))
    (hd : d.rest ≠ []) (more : List Char) :
    skipTrivia (c.extend ('\x7d' :: more)) = .ok (newline, d.extend ('\x7d' :: more)) := by
  obtain ⟨hover, hskipped⟩ := skipped_of_skipTrivia h
  exact skipTrivia_of_skipped (hover.extend _) (hskipped.append hd more)

theorem skipTrivia_of_extend {c e : Cursor} {tail : List Char} {newline : Bool}
    (h : skipTrivia (c.extend tail) = .ok (newline, e)) (he : e.offset ≤ c.offset + c.rest.length) :
    ∃ d, e = d.extend tail ∧ skipTrivia c = .ok (newline, d) := by
  obtain ⟨hover, hskipped⟩ := skipped_of_skipTrivia h
  obtain ⟨d, rfl, hd⟩ := hover.of_extend he
  exact ⟨d, rfl, skipTrivia_of_skipped hd hskipped.of_append⟩

end ScriptBridge.TypeScript
