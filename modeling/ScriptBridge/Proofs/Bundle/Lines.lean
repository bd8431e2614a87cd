import ScriptBridge.Proofs.Bundle.Combined

/-!
# The lines of a combined text

Whatever the order of the modules, each statement has one piece of the text and one entry of the map.
No two pieces start on the same line, so a map takes the entries one by one, and the entry that a line
is looked up as is that of the piece which has all of the line. Lines are counted from one, and no line
before the first is looked up as anything.

* `addAll_entriesFrom`: a map never refuses the entry of a piece.
* `isIn_of_lineAt`: the piece that has the places of a line.
* `combineInOrder_lines`: the pieces, the entries and the lines of a combined text.
-/

namespace ScriptBridge

namespace SourceMap

/-- The entry of the statement that a line belongs to, which may be a line before the first. -/
def lookupAt? (m : SourceMap) (line : Int) : Option MapEntry :=
  (m.entries.toList.takeWhile fun e => (e.bundledLine : Int) < line).getLast?

theorem lookupAt?_natCast (m : SourceMap) (line : Nat) : m.lookupAt? line = m.lookup? line := by
  simp only [lookupAt?, lookup?, Int.ofNat_lt]

/-- No line before the first belongs to an entry. -/
theorem lookupAt?_of_nonpos (m : SourceMap) {line : Int} (h : line ≤ 0) : m.lookupAt? line = none := by
  unfold lookupAt?
  cases m.entries.toList with
  | nil => rfl
  | cons e rest =>
    rw [List.takeWhile_cons_of_neg (by simp only [decide_eq_true_eq]; omega)]
    rfl

end SourceMap

namespace Bundle

open Binding TypeScript Conversion

/-! ## Entries -/

theorem heights_take_succ {pieces : List Piece} {k : Nat} {p : Piece} (h : pieces[k]? = some p) :
    heights (pieces.take (k + 1)) = heights (pieces.take k) + p.height := by
  simp [heights, List.take_add_one, h]

theorem getElem?_entriesFrom (line : Nat) (pieces : List Piece) (k : Nat) :
    (entriesFrom line pieces)[k]? =
      pieces[k]?.map fun p => p.entry (line + heights (pieces.take k)) := by
  induction pieces generalizing line k with
  | nil => rfl
  | cons p rest ih =>
    cases k with
    | zero => rfl
    | succ k =>
      simp only [entriesFrom, List.getElem?_cons_succ, List.take_succ_cons, ih, heights,
        List.map_cons, List.sum_cons, Nat.add_assoc]

@[simp] theorem length_entriesFrom (line : Nat) (pieces : List Piece) :
    (entriesFrom line pieces).length = pieces.length := by
  induction pieces generalizing line with
  | nil => rfl
  | cons p rest ih => rw [entriesFrom, List.length_cons, ih, List.length_cons]

/-- No two pieces start on the same line. -/
theorem entriesFrom_increasing (line : Nat) (pieces : List Piece) :
    (entriesFrom line pieces).Pairwise fun e later => e.bundledLine < later.bundledLine := by
  induction pieces generalizing line with
  | nil => exact .nil
  | cons p rest ih =>
    refine .cons (fun later h => ?_) (ih _)
    exact Nat.lt_of_lt_of_le (Nat.lt_add_of_pos_right (Nat.succ_pos _)) (bundledLine_entriesFrom h).1

/-- A map that has nothing after a line takes the entries of the pieces from there on. -/
theorem addAll_entriesFrom {m : SourceMap} {line : Nat} (pieces : List Piece)
    (h : ∀ e ∈ m.entries.toList, e.bundledLine ≤ line) :
    (entriesFrom line pieces).foldlM SourceMap.add m =
      some ⟨m.entries ++ (entriesFrom line pieces).toArray⟩ := by
  induction pieces generalizing m line with
  | nil => simp [entriesFrom]
  | cons p rest ih =>
    rw [entriesFrom, List.foldlM_cons, add_of_le h, Option.bind_eq_bind, Option.bind_some,
      ih (m := ⟨m.entries.push (p.entry line)⟩) (push_le h p)]
    simp

/-! ## Lines -/

/-- The line, counted from one, of a place in a text. -/
def lineAt (text : List Char) (pos : Nat) : Nat :=
  lineBreaks (text.take pos) + 1

/-- A place of joined pieces is in the piece of a number. -/
def IsIn (pieces : List Piece) (k pos : Nat) : Prop :=
  (joined (pieces.take k)).length ≤ pos ∧ pos < (joined (pieces.take (k + 1))).length

theorem lineBreaks_take_mono (text : List Char) {i j : Nat} (h : i ≤ j) :
    lineBreaks (text.take i) ≤ lineBreaks (text.take j) := by
  rw [← List.take_append_drop i (text.take j), lineBreaks_append, List.take_take, Nat.min_eq_left h]
  exact Nat.le_add_right _ _

/-- A text that ends its last line has its places on the lines that it ends. -/
theorem lineBreaks_take_of_lt {text : List Char} {i : Nat} (h : i < (text ++ ['\n']).length) :
    lineBreaks ((text ++ ['\n']).take i) < lineBreaks (text ++ ['\n']) := by
  have hi : i ≤ text.length := by simpa [Nat.lt_succ_iff] using h
  rw [List.take_append_of_le_length hi]
  calc
    lineBreaks (text.take i) ≤ lineBreaks (text.take text.length) := lineBreaks_take_mono text hi
    _ < lineBreaks (text ++ ['\n']) := by
      rw [List.take_length, lineBreaks_append]
      exact Nat.lt_succ_self _

/-- Joined pieces end their last line. -/
theorem joined_eq {pieces : List Piece} (h : pieces ≠ []) :
    ∃ text, joined pieces = text ++ ['\n'] := by
  obtain ⟨front, last, rfl⟩ : ∃ front last, pieces = front ++ [last] :=
    ⟨_, _, (List.dropLast_append_getLast h).symm⟩
  exact ⟨joined front ++ (last.text ++ [';']), by simp [joined]⟩

theorem joined_append (before after : List Piece) :
    joined (before ++ after) = joined before ++ joined after :=
  List.flatMap_append

/-- Whether a place is before the end of the first pieces is seen from its line. -/
theorem lineAt_joined (pieces : List Piece) (k pos : Nat) :
    pos < (joined (pieces.take k)).length ↔
      lineAt (joined pieces) pos ≤ heights (pieces.take k) := by
  have hsplit : joined pieces = joined (pieces.take k) ++ joined (pieces.drop k) := by
    rw [← joined_append, List.take_append_drop]
  rw [← lineBreaks_joined, lineAt, Nat.succ_le_iff, hsplit]
  constructor
  · intro hpos
    obtain ⟨text, htext⟩ : ∃ text, joined (pieces.take k) = text ++ ['\n'] := by
      refine joined_eq fun hempty => ?_
      rw [hempty] at hpos
      exact Nat.not_lt_zero _ hpos
    rw [List.take_append_of_le_length hpos.le]
    rw [htext] at hpos ⊢
    exact lineBreaks_take_of_lt hpos
  · intro hlines
    by_contra hpos
    have := lineBreaks_take_mono (joined (pieces.take k) ++ joined (pieces.drop k))
      (Nat.le_of_not_lt hpos)
    rw [List.take_left] at this
    omega

/-- The places of a line are in the piece whose lines it is among. -/
theorem isIn_of_lineAt {pieces : List Piece} {k pos : Nat}
    (hbelow : heights (pieces.take k) < lineAt (joined pieces) pos)
    (habove : lineAt (joined pieces) pos ≤ heights (pieces.take (k + 1))) : IsIn pieces k pos := by
  constructor
  · have := mt (lineAt_joined pieces k pos).mp (Nat.not_le_of_lt hbelow)
    exact Nat.le_of_not_lt this
  · exact (lineAt_joined pieces (k + 1) pos).mpr habove

/-- Every line is among those of some piece. -/
theorem exists_piece_of_line (pieces : List Piece) (line : Nat) (h : line < heights pieces) :
    ∃ k p, pieces[k]? = some p ∧ heights (pieces.take k) ≤ line ∧
      line < heights (pieces.take k) + p.height := by
  induction pieces generalizing line with
  | nil => exact absurd h (Nat.not_lt_zero line)
  | cons p rest ih =>
    have hsum (ps : List Piece) : heights (p :: ps) = p.height + heights ps := by
      simp only [heights, List.map_cons, List.sum_cons]
    by_cases hp : line < p.height
    · exact ⟨0, p, rfl, Nat.zero_le _, by simpa [heights] using hp⟩
    · obtain ⟨k, q, hq, hbelow, habove⟩ := ih (line - p.height) (by rw [hsum] at h; omega)
      refine ⟨k + 1, q, hq, ?_, ?_⟩ <;> rw [List.take_succ_cons, hsum] <;> omega

/-- The combined text is one piece for each statement, in the order of the modules. The map takes one
entry for each piece, on the line where it starts, and no two on the same line. Every line of the text
is looked up as the entry of the piece which has the places of the line. -/
theorem combineInOrder_lines {order : List String} {place : Place} {s s' : State} (hmap : s.map = {})
    (h : combineInOrder order place s = .ok () s') :
    ∃ pieces : List Piece,
      pieces.map (fun p => (p.record, p.statement)) = statementsInOrder s.modules order ∧
      (∀ p ∈ pieces, p.IsFlat ⟨s.session.program, s.table⟩) ∧
      s'.combined.toList = pieces.flatMap (fun p => p.text ++ [';', '\n']) ∧
      s'.map.size = pieces.length ∧
      (∀ (k : Nat) (p : Piece), pieces[k]? = some p →
        s'.map.entries[k]? = some (p.entry (lineBreaks (joined (pieces.take k))))) ∧
      (s'.map.entries.toList.Pairwise fun e later => e.bundledLine < later.bundledLine) ∧
      s'.map.entries.toList.foldlM SourceMap.add {} = some s'.map ∧
      (∀ line, 1 ≤ line → line ≤ lineBreaks s'.combined.toList →
        ∃ k e, s'.map.entries[k]? = some e ∧ s'.map.lookup? line = some e ∧
          ∀ pos < s'.combined.toList.length, lineAt s'.combined.toList pos = line →
            IsIn pieces k pos) ∧
      ∀ line : Int, line ≤ 0 → s'.map.lookupAt? line = none := by
  obtain ⟨pieces, hstatements, hflats, rfl⟩ := combineInOrder_ok hmap h
  have hentry (k : Nat) (p : Piece) (hp : pieces[k]? = some p) :
      (entriesFrom 0 pieces)[k]? = some (p.entry (heights (pieces.take k))) := by
    rw [getElem?_entriesFrom, hp, Option.map_some, Nat.zero_add]
  refine ⟨pieces, hstatements, hflats, String.toList_ofList, ?_, ?_, ?_, ?_, ?_, ?_⟩
  · simp [SourceMap.size]
  · intro k p hp
    rw [lineBreaks_joined, List.getElem?_toArray, hentry k p hp]
  · exact entriesFrom_increasing 0 pieces
  · have hempty : ∀ e ∈ (({} : SourceMap).entries).toList, e.bundledLine ≤ 0 := by simp
    rw [addAll_entriesFrom pieces hempty]
    simp
  · intro line hone hlast
    simp only [String.toList_ofList, lineBreaks_joined] at hlast ⊢
    obtain ⟨k, p, hp, hbelow, habove⟩ := exists_piece_of_line pieces (line - 1) (by omega)
    refine ⟨k, _, by rw [List.getElem?_toArray]; exact hentry k p hp, ?_, ?_⟩
    · obtain ⟨hk, rfl⟩ := List.getElem?_eq_some_iff.mp hp
      have hin : line - 1 - heights (pieces.take k) < pieces[k].height := by omega
      have hfound : SourceMap.lookup? ⟨(entriesFrom 0 (pieces.take k ++ pieces[k] ::
          pieces.drop (k + 1))).toArray⟩ _ = _ := lookup?_piece hin
      rw [← List.drop_eq_getElem_cons hk, List.take_append_drop] at hfound
      rw [show line = heights (pieces.take k) + (line - 1 - heights (pieces.take k)) + 1 by omega]
      exact hfound
    · rintro pos hpos rfl
      exact isIn_of_lineAt (by omega) (by rw [heights_take_succ hp]; omega)
  · exact fun line => SourceMap.lookupAt?_of_nonpos _

/-- An entry file that imports a file with a statement on two lines. -/
def twoLinePlace : Place where
  tree :=
    { root := "/"
      files := [("/a", "1 +\n2\n3".toUTF8),
        ("/main", "import \"./a\"\n4".toUTF8)] }
  workingDirectory := "/"
  root := "/"

/-- The statement on two lines has the first two lines, and the entry file has the last. -/
theorem combineInOrder_lines_twoLine : ∃ s s', s.map = {} ∧
    combineInOrder ["/a", "/main"] twoLinePlace s = .ok () s' ∧
    s'.combined = "1 +\n2;\n3;\n4;\n" ∧
    s'.map.entries.toList.Pairwise (fun e later => e.bundledLine < later.bundledLine) ∧
    (∃ e, s'.map.lookup? 2 = some e) ∧ s'.map.lookupAt? (-1) = none := by
  have hrun : endsWith ((discover "/main" >>= fun _ => registerAll) twoLinePlace
      { session := default }) (fun _ s => s.map.entries.toList.isEmpty &&
        endsWith (combineInOrder ["/a", "/main"] twoLinePlace s) fun _ s' =>
          s'.combined == "1 +\n2;\n3;\n4;\n") = true := by
    decide +kernel
  obtain ⟨_, s, -, hrun⟩ := endsWith_iff.mp hrun
  obtain ⟨hempty, hrun⟩ := Bool.and_eq_true_iff.mp hrun
  obtain ⟨_, s', hs', hcombined⟩ := endsWith_iff.mp hrun
  have hcombined := beq_iff_eq.mp hcombined
  have hmap : s.map = {} := by
    cases hs : s.map
    rw [hs] at hempty
    exact congrArg SourceMap.mk (Array.toList_inj.mp (List.isEmpty_iff.mp hempty))
  obtain ⟨_, -, -, -, -, -, hincreasing, -, hlines, hbefore⟩ := combineInOrder_lines hmap hs'
  obtain ⟨_, e, -, hfound, -⟩ := hlines 2 (by decide) (by rw [hcombined]; decide)
  exact ⟨s, s', hmap, hs', hcombined, hincreasing, ⟨e, hfound⟩, hbefore (-1) (by decide)⟩

end Bundle

end ScriptBridge
