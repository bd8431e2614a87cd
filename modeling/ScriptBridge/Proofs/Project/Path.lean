import ScriptBridge.Project.Path
import Mathlib.Data.List.Basic

/-!
# One spelling for each place

A normalized absolute path is its mark of the root and then parts that are names: no part is empty or
`.` or `..`, and none has a slash. Such a path is left as it is when it is normalized again, so a path
that is seen from a directory stays when it is seen from there once more.

* `splitAt_intercalate`: cutting a text at slashes gives back the parts that were joined.
* `absolute_absolute`: the place of a place is that place.
-/

namespace ScriptBridge.Path

/-- A part of a path that names something. -/
structure IsName (part : String) : Prop where
  ne_empty : part ≠ ""
  ne_here : part ≠ "."
  ne_above : part ≠ ".."
  no_slash : '/' ∉ part.toList

/-! ## Cutting at slashes -/

theorem splitChars_no_mark {mark : Char} {piece : List Char} (h : mark ∉ piece) :
    splitChars mark piece = [piece] := by
  induction piece with
  | nil => rfl
  | cons c piece ih =>
    simp only [List.mem_cons, not_or] at h
    rw [splitChars, if_neg (Ne.symm h.1), ih h.2]

theorem splitChars_append {mark : Char} {piece : List Char} (h : mark ∉ piece) (rest : List Char) :
    splitChars mark (piece ++ mark :: rest) = piece :: splitChars mark rest := by
  induction piece with
  | nil => rw [List.nil_append, splitChars, if_pos rfl]
  | cons c piece ih =>
    simp only [List.mem_cons, not_or] at h
    rw [List.cons_append, splitChars, if_neg (Ne.symm h.1), ih h.2]

theorem mem_splitChars {mark : Char} {text piece : List Char} (h : piece ∈ splitChars mark text) :
    mark ∉ piece := by
  induction text generalizing piece with
  | nil =>
    rw [splitChars, List.mem_singleton] at h
    rw [h]
    exact List.not_mem_nil
  | cons c text ih =>
    rw [splitChars] at h
    split at h
    · rcases List.mem_cons.mp h with rfl | h
      · exact List.not_mem_nil
      · exact ih h
    · rename_i hc
      split at h
      · rw [List.mem_singleton] at h
        rw [h, List.mem_singleton]
        exact Ne.symm hc
      · rename_i first rest he
        rcases List.mem_cons.mp h with rfl | h
        · rw [List.mem_cons, not_or]
          exact ⟨Ne.symm hc, ih (he ▸ List.mem_cons_self)⟩
        · exact ih (he ▸ List.mem_cons_of_mem _ h)

theorem splitAt_slash (text : String) : splitAt '/' ("/" ++ text) = "" :: splitAt '/' text := by
  rw [splitAt, splitAt, String.toList_append]
  exact congrArg (List.map String.ofList) (splitChars_append List.not_mem_nil text.toList)

theorem splitAt_intercalate {parts : List String} (hne : parts ≠ [])
    (h : ∀ part ∈ parts, '/' ∉ part.toList) : splitAt '/' ("/".intercalate parts) = parts := by
  induction parts with
  | nil => exact absurd rfl hne
  | cons part parts ih =>
    have hpart := h part List.mem_cons_self
    cases parts with
    | nil =>
      rw [String.intercalate_singleton, splitAt, splitChars_no_mark hpart, List.map_singleton,
        String.ofList_toList]
    | cons next parts =>
      have ih := ih (List.cons_ne_nil next parts) fun p hp => h p (List.mem_cons_of_mem part hp)
      rw [String.intercalate_cons_cons, splitAt, String.toList_append, String.toList_append,
        List.append_assoc, show "/".toList = ['/'] from rfl, List.singleton_append,
        splitChars_append hpart, List.map_cons, String.ofList_toList]
      exact congrArg (part :: ·) ih

/-! ## Normalized paths -/

theorem addPart_isName {parts : List String} {part : String} (h : IsName part) (isAbsolute : Bool) :
    addPart isAbsolute parts part = part :: parts := by
  unfold addPart
  rw [if_neg (by simp [h.ne_empty, h.ne_here]), if_pos (by simp [h.ne_above])]

theorem foldl_addPart_isName {parts : List String} (h : ∀ part ∈ parts, IsName part)
    (isAbsolute : Bool) (front : List String) :
    parts.foldl (addPart isAbsolute) front = parts.reverse ++ front := by
  induction parts generalizing front with
  | nil => rfl
  | cons part parts ih =>
    rw [List.foldl_cons, addPart_isName (h part List.mem_cons_self),
      ih fun p hp => h p (List.mem_cons_of_mem part hp)]
    simp

/-- The parts of an absolute path are names once `.` and `..` are carried out. -/
theorem isName_foldl_addPart {pieces front : List String}
    (h : ∀ piece ∈ pieces, '/' ∉ piece.toList) (hfront : ∀ part ∈ front, IsName part) :
    ∀ part ∈ pieces.foldl (addPart true) front, IsName part := by
  induction pieces generalizing front with
  | nil => exact hfront
  | cons piece pieces ih =>
    refine ih (fun p hp => h p (List.mem_cons_of_mem piece hp)) ?_
    unfold addPart
    split
    · exact hfront
    · rename_i hskip
      simp only [Bool.or_eq_true, beq_iff_eq, not_or] at hskip
      split
      · rename_i habove
        intro part hpart
        rcases List.mem_cons.mp hpart with rfl | hpart
        · exact ⟨hskip.1, hskip.2, by simpa using habove, h part List.mem_cons_self⟩
        · exact hfront part hpart
      · split
        · exact hfront
        · rename_i last rest
          have hlast := (hfront last List.mem_cons_self).ne_above
          rw [if_neg (by simpa using hlast)]
          exact fun part hpart => hfront part (List.mem_cons_of_mem _ hpart)

/-- An absolute path of names. -/
def ofNames (root : String) (parts : List String) : String :=
  root ++ "/".intercalate parts

theorem intercalate_head {parts : List String} (h : ∀ part ∈ parts, IsName part) :
    ¬ ['/'] <+: ("/".intercalate parts).toList := by
  cases parts with
  | nil => simp
  | cons part parts =>
    have hpart := h part List.mem_cons_self
    obtain ⟨c, cs, hc⟩ : ∃ c cs, part.toList = c :: cs := by
      cases he : part.toList with
      | nil => exact absurd (String.toList_eq_nil_iff.mp he) hpart.ne_empty
      | cons c cs => exact ⟨c, cs, rfl⟩
    have hslash : '/' ≠ c := by
      rintro rfl
      exact hpart.no_slash (hc ▸ List.mem_cons_self)
    cases parts with
    | nil => simp [String.intercalate_singleton, hc, List.cons_prefix_cons, hslash]
    | cons next parts =>
      simp [String.intercalate_cons_cons, hc, List.cons_prefix_cons, hslash]

theorem rootMark_ofNames {root : String} {parts : List String} (hroot : root = "/" ∨ root = "//")
    (h : ∀ part ∈ parts, IsName part) : rootMark (ofNames root parts) = root := by
  have hhead := intercalate_head h
  rcases hroot with rfl | rfl <;>
    simp [rootMark, ofNames, String.startsWith_string_iff, List.cons_prefix_cons, hhead,
      -String.toList_intercalate]

theorem normalize_ofNames {root : String} {parts : List String} (hroot : root = "/" ∨ root = "//")
    (h : ∀ part ∈ parts, IsName part) : normalize (ofNames root parts) = ofNames root parts := by
  -- Cutting gives an empty piece for each slash of the root, and then the parts.
  have hpieces : (splitAt '/' (ofNames root parts)).foldl (addPart true) [] = parts.reverse := by
    have hparts : (splitAt '/' ("/".intercalate parts)).foldl (addPart true) [] = parts.reverse := by
      cases parts with
      | nil => rfl
      | cons part parts =>
        rw [splitAt_intercalate (List.cons_ne_nil _ _) fun p hp => (h p hp).no_slash,
          foldl_addPart_isName h, List.append_nil]
    rcases hroot with rfl | rfl
    · rw [ofNames, splitAt_slash]
      exact hparts
    · rw [ofNames, show "//" = "/" ++ "/" from rfl, String.append_assoc, splitAt_slash, splitAt_slash]
      exact hparts
  have hempty : (ofNames root parts).isEmpty = false := by
    rcases hroot with rfl | rfl <;> simp [ofNames]
  have habs : (!root.isEmpty) = true := by
    rcases hroot with rfl | rfl <;> rfl
  simp only [normalize, rootMark_ofNames hroot h, habs, hpieces, List.reverse_reverse]
  rw [← ofNames, hempty]
  rfl

/-- An absolute path is a path of names once it is normalized. -/
theorem normalize_eq_ofNames {path : String} (h : path.startsWith "/" = true) :
    ∃ root parts, (root = "/" ∨ root = "//") ∧ (∀ part ∈ parts, IsName part) ∧
      normalize path = ofNames root parts := by
  have hroot : rootMark path = "/" ∨ rootMark path = "//" := by
    rw [rootMark, h]
    split
    · exact .inr rfl
    · exact .inl rfl
  have habs : (!(rootMark path).isEmpty) = true := by
    rcases hroot with hr | hr <;> rw [hr] <;> rfl
  refine ⟨rootMark path, ((splitAt '/' path).foldl (addPart true) []).reverse, hroot, ?_, ?_⟩
  · intro part hpart
    refine isName_foldl_addPart ?_ (by simp) part (List.mem_reverse.mp hpart)
    intro piece hpiece
    obtain ⟨chars, hchars, rfl⟩ := List.mem_map.mp hpiece
    rw [String.toList_ofList]
    exact mem_splitChars hchars
  · simp only [normalize, habs]
    rw [← ofNames, if_neg]
    rcases hroot with hr | hr <;> simp [ofNames, hr]

theorem startsWith_ofNames {root : String} {parts : List String} (hroot : root = "/" ∨ root = "//") :
    (ofNames root parts).startsWith "/" = true := by
  rcases hroot with rfl | rfl <;>
    simp [ofNames, String.startsWith_string_iff, List.cons_prefix_cons]

theorem startsWith_join {directory : String} (h : directory.startsWith "/" = true) (path : String) :
    (join directory path).startsWith "/" = true := by
  rw [String.startsWith_string_iff] at h ⊢
  rw [join]
  split
  · rename_i hp
    exact String.startsWith_string_iff.mp hp
  · split
    · rw [String.toList_append]
      exact h.trans (List.prefix_append _ _)
    · rw [String.toList_append, String.toList_append, List.append_assoc]
      exact h.trans (List.prefix_append _ _)

/-- The place of a place, seen from one absolute directory, is that place. -/
theorem absolute_absolute {directory : String} (h : directory.startsWith "/" = true)
    (path : String) : absolute directory (absolute directory path) = absolute directory path := by
  obtain ⟨root, parts, hroot, hparts, he⟩ := normalize_eq_ofNames (startsWith_join h path)
  rw [absolute, absolute, he, join, if_pos (startsWith_ofNames hroot), normalize_ofNames hroot hparts]

end ScriptBridge.Path
