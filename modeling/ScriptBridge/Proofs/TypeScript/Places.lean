import ScriptBridge.Proofs.TypeScript.Tiling

/-!
# Cursors in a text

Cursors move on over characters, stand at places of a text, and can be given more text behind their own.

* `Cursor.Over`: one cursor is another one moved on over characters that satisfy a test.
* `Cursor.At`: a cursor stands in a text, with more text behind its own.
* `Cursor.extend`: a cursor with more text.
-/

namespace ScriptBridge.TypeScript.Cursor

/-! ## Skipping -/

@[simp] theorem rest_bump (c : Cursor) : c.bump.rest = c.rest.tail := by
  unfold bump
  split <;> simp_all

@[simp] theorem rest_skip (n : Nat) (c : Cursor) : (c.skip n).rest = c.rest.drop n := by
  induction n generalizing c with
  | zero => rfl
  | succ n ih => rw [skip, ih, rest_bump, List.drop_tail]

theorem skip_add (m n : Nat) (c : Cursor) : (c.skip m).skip n = c.skip (m + n) := by
  induction m generalizing c with
  | zero => rw [Nat.zero_add, skip]
  | succ m ih => rw [Nat.add_right_comm, skip, skip, ih]

/-- Nothing is skipped at the end. -/
theorem skip_of_nil {c : Cursor} (h : c.rest = []) (n : Nat) : c.skip n = c := by
  induction n with
  | zero => rfl
  | succ n ih =>
    have hb : c.bump = c := by
      unfold bump
      rw [h]
    rw [skip, hb, ih]

theorem offset_bump {c : Cursor} (h : c.rest ≠ []) : c.bump.offset = c.offset + 1 := by
  unfold bump
  split <;> simp_all

theorem line_bump {c : Cursor} {x : Char} {cs : List Char} (h : c.rest = x :: cs) :
    c.bump.line = if x = '\n' then c.line + 1 else c.line := by
  unfold bump
  split <;> grind

theorem col_bump {c : Cursor} {x : Char} {cs : List Char} (h : c.rest = x :: cs) :
    c.bump.col = if x = '\n' then 1 else c.col + 1 := by
  unfold bump
  split <;> grind

theorem offset_skip {n : Nat} {c : Cursor} (h : n ≤ c.rest.length) : (c.skip n).offset = c.offset + n := by
  induction n generalizing c with
  | zero => rfl
  | succ n ih =>
    have hne : c.rest ≠ [] := List.ne_nil_of_length_pos (Nat.lt_of_lt_of_le n.succ_pos h)
    have hlen : n ≤ c.bump.rest.length := by
      rw [rest_bump, List.length_tail]
      exact Nat.le_sub_one_of_lt h
    rw [skip, ih hlen, offset_bump hne, Nat.add_right_comm, Nat.add_assoc]

/-- What the text begins with is no longer than it. -/
theorem length_le {c : Cursor} {word rest : List Char} (h : c.rest = word ++ rest) :
    word.length ≤ c.rest.length := by
  rw [h, List.length_append]
  exact Nat.le_add_right _ _

/-- There are more characters than those behind which another one stands. -/
theorem lt_of_drop {c : Cursor} {n : Nat} {x : Char} {cs : List Char} (h : c.rest.drop n = x :: cs) :
    n < c.rest.length := by
  have hlength := congrArg List.length h
  rw [List.length_drop, List.length_cons] at hlength
  omega

/-! ## Moving on -/

/-- A cursor is another one moved on over characters that satisfy a test. -/
def Over (p : Char → Prop) (c d : Cursor) : Prop :=
  ∃ word : List Char, c.rest = word ++ d.rest ∧ (∀ x ∈ word, p x) ∧ d = c.skip word.length

variable {p q : Char → Prop} {c d e : Cursor}

theorem Over.refl (p : Char → Prop) (c : Cursor) : c.Over p c :=
  ⟨[], rfl, nofun, rfl⟩

theorem Over.trans (h : c.Over p d) (h' : d.Over p e) : c.Over p e := by
  obtain ⟨word, hrest, hword, rfl⟩ := h
  obtain ⟨more, hmore, hp, rfl⟩ := h'
  refine ⟨word ++ more, ?_, ?_, ?_⟩
  · rw [hrest, hmore, List.append_assoc]
  · exact fun x hx => (List.mem_append.mp hx).elim (hword x) (hp x)
  · rw [skip_add, List.length_append]

theorem Over.mono (h : c.Over p d) (hpq : ∀ x, p x → q x) : c.Over q d := by
  obtain ⟨word, hrest, hword, hd⟩ := h
  exact ⟨word, hrest, fun x hx => hpq x (hword x hx), hd⟩

/-- Skipping as many characters as there are or fewer. -/
theorem over_skip {n : Nat} (h : ∀ x ∈ c.rest.take n, p x) : c.Over p (c.skip n) := by
  refine ⟨c.rest.take n, ?_, h, ?_⟩
  · rw [rest_skip, List.take_append_drop]
  · obtain hn | hn := Nat.le_total n c.rest.length
    · rw [List.length_take_of_le hn]
    · rw [List.take_of_length_le hn, ← Nat.add_sub_cancel' hn, ← skip_add]
      exact skip_of_nil (by rw [rest_skip, List.drop_length]) _

theorem over_bump {x : Char} {cs : List Char} (hr : c.rest = x :: cs) (hx : p x) : c.Over p c.bump :=
  over_skip (n := 1) (by simpa [hr] using hx)

theorem over_skipWhile (f : Char → Bool) : c.Over (f · = true) (c.skipWhile f) := by
  refine over_skip fun x hx => ?_
  have hrun : c.rest.takeWhile f <+: c.rest := List.takeWhile_prefix f
  rw [← List.prefix_iff_eq_take.mp hrun] at hx
  exact List.all_eq_true.mp List.all_takeWhile x hx

/-- A cursor is another one moved on over any characters. -/
abbrev Reaches (c d : Cursor) : Prop :=
  c.Over (fun _ => True) d

theorem reaches_skip (c : Cursor) (n : Nat) : c.Reaches (c.skip n) :=
  over_skip fun _ _ => trivial

theorem reaches_bump (c : Cursor) : c.Reaches c.bump :=
  c.reaches_skip 1

theorem Over.reaches (h : c.Over p d) : c.Reaches d :=
  h.mono fun _ _ => trivial

theorem Over.offset (h : c.Over p d) : d.offset + d.rest.length = c.offset + c.rest.length := by
  obtain ⟨word, hrest, -, rfl⟩ := h
  rw [offset_skip (length_le hrest), Nat.add_assoc, ← List.length_append, ← hrest]

theorem Over.offset_le (h : c.Over p d) : c.offset ≤ d.offset := by
  have hoffset := h.offset
  obtain ⟨word, hrest, -, -⟩ := h
  rw [hrest, List.length_append] at hoffset
  omega

theorem Over.eq_skip (h : c.Over p d) (hd : d.rest = []) : d = c.skip c.rest.length := by
  obtain ⟨word, hrest, -, rfl⟩ := h
  rw [hd, List.append_nil] at hrest
  rw [hrest]

/-! ## More text -/

/-- A cursor with more text behind its own. -/
def extend (c : Cursor) (tail : List Char) : Cursor :=
  { c with rest := c.rest ++ tail }

@[simp] theorem rest_extend (c : Cursor) (tail : List Char) : (c.extend tail).rest = c.rest ++ tail :=
  rfl

@[simp] theorem offset_extend (c : Cursor) (tail : List Char) : (c.extend tail).offset = c.offset :=
  rfl

@[simp] theorem extend_nil (c : Cursor) : c.extend [] = c := by
  cases c
  simp [extend]

theorem extend_append (c : Cursor) (tail tail' : List Char) :
    c.extend (tail ++ tail') = (c.extend tail).extend tail' := by
  simp only [extend, List.append_assoc]

theorem bump_extend (h : c.rest ≠ []) (tail : List Char) : (c.extend tail).bump = c.bump.extend tail := by
  obtain ⟨rest, offset, line, col⟩ := c
  match rest, h with
  | x :: cs, _ =>
    simp only [bump, extend, List.cons_append]
    split <;> simp_all

theorem skip_extend {n : Nat} (h : n ≤ c.rest.length) (tail : List Char) :
    (c.extend tail).skip n = (c.skip n).extend tail := by
  induction n generalizing c with
  | zero => rfl
  | succ n ih =>
    have hne : c.rest ≠ [] := List.ne_nil_of_length_pos (Nat.lt_of_lt_of_le n.succ_pos h)
    rw [skip, skip, bump_extend hne]
    refine ih ?_
    rw [rest_bump, List.length_tail]
    exact Nat.le_sub_one_of_lt h

theorem Over.extend (h : c.Over p d) (tail : List Char) : (c.extend tail).Over p (d.extend tail) := by
  obtain ⟨word, hrest, hword, rfl⟩ := h
  refine ⟨word, ?_, hword, (skip_extend (length_le hrest) tail).symm⟩
  rw [rest_extend, rest_extend, ← List.append_assoc, ← hrest]

/-- Where a cursor with more text does not move on into that text, the one without it moves as far. -/
theorem Over.of_extend {tail : List Char} (h : (c.extend tail).Over p e)
    (he : e.offset ≤ c.offset + c.rest.length) : ∃ d, e = d.extend tail ∧ c.Over p d := by
  have hoffset := h.offset
  obtain ⟨word, hrest, hword, rfl⟩ := h
  have hlen := congrArg List.length hrest
  rw [rest_extend, List.length_append, List.length_append] at hlen
  rw [rest_extend, List.length_append, offset_extend] at hoffset
  have hword_le : word.length ≤ c.rest.length := by omega
  have hbegins : word = c.rest.take word.length := by
    have htake := congrArg (List.take word.length) hrest
    rw [rest_extend, List.take_append_of_le_length hword_le, List.take_left] at htake
    exact htake.symm
  refine ⟨c.skip word.length, skip_extend hword_le tail, ?_⟩
  exact over_skip fun x hx => hword x (hbegins ▸ hx)

/-! ## Places -/

/-- A cursor stands in a text, with more text behind its own. -/
structure At (source tail : List Char) (c : Cursor) : Prop where
  text : source.drop c.offset = c.rest ++ tail
  stop : c.offset + c.rest.length + tail.length = source.length
  line : c.line = lineAt source c.offset
  col : c.col = colAt source c.offset

variable {source tail : List Char}

/-- One character further in a text. -/
theorem take_of_drop {source : List Char} {i : Nat} {x : Char} {cs : List Char}
    (h : source.drop i = x :: cs) : source.take (i + 1) = source.take i ++ [x] := by
  have hx : source[i]? = some x := by rw [← List.head?_drop, h, List.head?_cons]
  rw [List.take_add_one, hx, Option.toList_some]

theorem At.bump (h : c.At source tail) : c.bump.At source tail := by
  match hr : c.rest with
  | [] =>
    have hb : c.bump = c := skip_of_nil hr 1
    rwa [hb]
  | x :: cs =>
    have hne : c.rest ≠ [] := by simp [hr]
    have htext : source.drop c.offset = x :: (cs ++ tail) := by rw [h.text, hr, List.cons_append]
    have htake := take_of_drop htext
    refine ⟨?_, ?_, ?_, ?_⟩
    · rw [offset_bump hne, ← List.tail_drop, htext, rest_bump, hr, List.tail_cons, List.tail_cons]
    · have hstop := h.stop
      rw [hr, List.length_cons] at hstop
      rw [offset_bump hne, rest_bump, hr, List.tail_cons, ← hstop]
      omega
    · rw [offset_bump hne, line_bump hr, h.line, lineAt, lineAt, htake, List.count_append]
      by_cases hx : x = '\n'
      · rw [if_pos hx, hx, List.count_singleton_self, Nat.add_right_comm]
      · have hcount : [x].count '\n' = 0 := List.count_eq_zero.mpr (by simpa using Ne.symm hx)
        rw [if_neg hx, hcount, Nat.add_zero]
    · rw [offset_bump hne, col_bump hr, h.col, colAt, colAt, htake, List.reverse_append,
        List.reverse_singleton, List.singleton_append, List.takeWhile_cons]
      by_cases hx : x = '\n'
      · simp [hx]
      · simp [hx]

theorem At.bound (h : c.At source tail) : c.offset ≤ source.length := by
  have hstop := h.stop
  omega

theorem At.skip (h : c.At source tail) (n : Nat) : (c.skip n).At source tail := by
  induction n generalizing c with
  | zero => exact h
  | succ n ih => exact ih h.bump

theorem At.over (h : c.At source tail) (hd : c.Over p d) : d.At source tail := by
  obtain ⟨word, -, -, rfl⟩ := hd
  exact h.skip _

/-- The region between two cursors in a text. -/
theorem At.spanTo (h : c.At source tail) (hd : d.At source tail) :
    c.spanTo d = regionOf source c.offset d.offset := by
  have hspan {line line' : Nat} [IsLine line] [IsLine line'] (hl : line = line') (i j col l k : Nat) :
      Span.mk i j line col l k = ⟨i, j, line', col, l, k⟩ := by
    subst hl
    rfl
  rw [Cursor.spanTo, regionOf, h.col, hd.line, hd.col]
  exact hspan h.line _ _ _ _ _

/-- The text between two cursors in a text. -/
theorem At.slice (h : c.At source tail) {word rest : List Char} (hr : c.rest = word ++ rest) :
    slice source c.offset (c.skip word.length).offset = word := by
  rw [TypeScript.slice, h.text, offset_skip (length_le hr), Nat.add_sub_cancel_left, hr, List.append_assoc,
    List.take_left]

/-- The characters from a cursor on are those from its place on. -/
theorem At.getElem? (h : c.At source tail) {n : Nat} (hn : n < c.rest.length) :
    source[c.offset + n]? = c.rest[n]? := by
  rw [← List.getElem?_drop, h.text, List.getElem?_append_left hn]

theorem At.head (h : c.At source tail) {x : Char} {cs : List Char} (hr : c.rest = x :: cs) :
    source[c.offset]? = some x := by
  rw [← Nat.add_zero c.offset, h.getElem? (by simp [hr]), hr, List.getElem?_cons_zero]

end ScriptBridge.TypeScript.Cursor
