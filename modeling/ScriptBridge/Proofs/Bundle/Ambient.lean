import ScriptBridge.Proofs.Bundle.Combined

/-!
# Ambient names keep their text

Only bindings that were registered have a final name, and every edit of a statement writes the final
name of a binding that the statement refers to. A binding that no module exports and that only ambient
declarations declare is not registered, whatever other bindings of its name are. So no edit stands for
it, and where it occurs its name stays as it is written.

* `State.IsAmbient`: such bindings.
* `Refers`, `Asks.writes`: an edit writes the final name of what its node refers to.
* `ambient_keeps_name`: the combined text of a bundle.
-/

namespace ScriptBridge.Bundle

open Binding TypeScript Conversion

/-! ## Ambient bindings -/

/-- A binding that no module exports, import links followed, and that no statement declares unless it
is marked as ambient. -/
structure State.IsAmbient (s : State) (id : SymbolId) : Prop where
  notExported : ∀ record ∈ s.modules.map Prod.snd, ∀ e ∈ record.file.exports,
    s.session.program.bindings.resolve e.2 ≠ .symbol id
  marked : ∀ record ∈ s.modules.map Prod.snd, ∀ n ∈ record.statements, ∀ i ∈ topLevelNames n,
    s.session.program.bindings.symbolOf? i.mark.id = some id →
      hasModifier n.modifiers "declare" = true

theorem State.IsAmbient.not_mem_bindings {s : State} {id : SymbolId} (h : s.IsAmbient id) :
    id ∉ s.bindings.map Prod.snd := by
  intro hid
  obtain ⟨⟨name, _⟩, hbinding, rfl⟩ := List.mem_map.mp hid
  obtain ⟨module, hmodule, hbinding⟩ := List.mem_flatMap.mp hbinding
  have hrecord := List.mem_map_of_mem (f := Prod.snd) hmodule
  rcases List.mem_append.mp hbinding with hexport | hdeclared
  · obtain ⟨e, he, hfound⟩ := List.mem_filterMap.mp hexport
    cases horigin : s.session.program.bindings.resolve e.2 with
    | symbol origin =>
      simp only [exportedBinding?, horigin] at hfound
      cases hfound
      exact h.notExported _ hrecord e he horigin
    | file =>
      simp only [exportedBinding?, horigin] at hfound
      cases hfound
  · obtain ⟨_, hsymbol, hpair⟩ := List.mem_map.mp hdeclared
    cases hpair
    obtain ⟨n, hn, hsymbol⟩ := List.mem_flatMap.mp hsymbol
    unfold topLevelSymbols at hsymbol
    split at hsymbol
    · cases hsymbol
    · rename_i hmark
      obtain ⟨i, hi, hfound⟩ := List.mem_filterMap.mp hsymbol
      exact hmark (h.marked _ hrecord n hn i hi hfound)

/-- An ambient binding is given no final name. -/
theorem State.IsAmbient.finalName?_eq_none {s : State} {id : SymbolId} (h : s.IsAmbient id)
    (htable : s.table = RenameTable.run s.bindings) : s.table.finalName? id = none := by
  rw [htable]
  exact RenameTable.finalName?_run_of_not_mem h.not_mem_bindings

/-! ## What edits write -/

/-- A node refers to a binding by a name in it, import links followed. -/
inductive Refers (r : Renaming) : Node → SymbolId → Prop
  | name {i : Ident} {origin : SymbolId} (h : r.program.origin? i.mark.id = some (.symbol origin)) :
      Refers r (.ident i) origin
  | shorthand {m : Mark} {i : Ident} {fallback : Option Node} {origin : SymbolId}
      (h : r.program.origin? i.mark.id = some (.symbol origin)) :
      Refers r (.shorthand m i fallback) origin
  | binding {m m' : Mark} {elements : List Node} {i : Ident} {fallback : Option Node}
      {isRest : Bool} {origin : SymbolId}
      (h : r.program.origin? i.mark.id = some (.symbol origin))
      (hi : .bindingElement m' none (.ident i) fallback isRest ∈ elements) :
      Refers r (.objectPattern m elements) origin
  | member {m : Mark} {i name : Ident} {isOptional : Bool} {file : FileId} {id origin : SymbolId}
      (hf : r.fileOf? i = some file) (hid : (r.program.file file).exports.lookup name.name = some id)
      (h : r.program.bindings.resolve id = .symbol origin) :
      Refers r (.propertyAccess m (.ident i) name isOptional) origin
  | type {m : Mark} {name : String} {args : List Node} {origin : SymbolId}
      (h : r.program.origin? m.id = some (.symbol origin)) : Refers r (.typeReference m name args) origin

/-- An edit that a node asks for writes the final name of a binding that the node refers to. -/
theorem Asks.writes {r : Renaming} {k : Node} {e : Edit} (h : Asks r k e) :
    ∃ origin final, Refers r k origin ∧ r.table.finalName? origin = some final ∧
      final.toList <:+ e.replacement := by
  have hkeyed (name final : String) : final.toList <:+ (name ++ ": " ++ final).toList := by
    rw [String.toList_append]
    exact List.suffix_append _ _
  cases h with
  | name h =>
    obtain ⟨origin, horigin, hfinal⟩ := finalNameOf_cases h.1
    exact ⟨origin, _, .name horigin, hfinal, List.suffix_rfl⟩
  | shorthand h =>
    obtain ⟨origin, horigin, hfinal⟩ := finalNameOf_cases h.1
    exact ⟨origin, _, .shorthand horigin, hfinal, hkeyed _ _⟩
  | binding h hi =>
    obtain ⟨origin, horigin, hfinal⟩ := finalNameOf_cases h.1
    exact ⟨origin, _, .binding horigin hi, hfinal, hkeyed _ _⟩
  | member hf h =>
    obtain ⟨id, hid, hfinal⟩ := Option.bind_eq_some_iff.mp h
    unfold Renaming.finalName? at hfinal
    split at hfinal
    · rename_i origin horigin
      exact ⟨origin, _, .member hf hid horigin, hfinal, List.suffix_rfl⟩
    · cases hfinal
  | type h =>
    obtain ⟨origin, horigin, hfinal⟩ := finalNameOf_cases h
    exact ⟨origin, _, .type horigin, hfinal, List.suffix_rfl⟩

/-! ## The combined text -/

/-- In the combined text of a bundle a name that stands for an ambient binding has no final name, and
every edit of a statement writes the final name of another binding that the statement refers to. -/
theorem ambient_keeps_name {entry : String} {place : Place} {session : Session} {s : State}
    (h : combineFrom entry place { session } = .ok () s) {id : SymbolId} (hid : s.IsAmbient id) :
    (∀ m : Mark, s.session.program.origin? m.id = some (.symbol id) →
      Renaming.finalNameOf? ⟨s.session.program, s.table⟩ m = none) ∧
    ∃ pieces : List Piece, s.combined = String.ofList (joined pieces) ∧
      pieces.map (fun p => (p.record, p.statement)) = orderedStatements s ∧
      ∀ p ∈ pieces, ∃ front names,
        frontOf ⟨s.session.program, s.table⟩ p.record.file p.statement = .ok front ∧
        p.text = front ++ applyEdits p.record.file.source.text.toList
          (bundledPart p.statement).span.start p.statement.span.stop
          (exportEdits p.record.file.source.text.toList p.statement.modifiers ++ names) ∧
        ∀ e ∈ names, ∃ k ∈ (bundledPart p.statement).preorder, ∃ origin final,
          Refers ⟨s.session.program, s.table⟩ k origin ∧ origin ≠ id ∧
            s.table.finalName? origin = some final ∧ final.toList <:+ e.replacement := by
  obtain ⟨-, pieces, -, -, htable, hstatements, hflats, -, hcombined⟩ := combineFrom_ok h
  have hnone := hid.finalName?_eq_none htable
  refine ⟨fun m hm => ?_, pieces, hcombined, hstatements, fun p hp => ?_⟩
  · cases hfinal : Renaming.finalNameOf? ⟨s.session.program, s.table⟩ m with
    | none => rfl
    | some final =>
      obtain ⟨origin, horigin, hfinal⟩ := finalNameOf_cases hfinal
      cases hm.symm.trans horigin
      cases hnone.symm.trans hfinal
  · obtain ⟨front, names, hfront, hnames, htext⟩ := flatten_ok (hflats p hp)
    refine ⟨front, names, hfront, htext, fun e he => ?_⟩
    obtain ⟨k, hk, hasks⟩ := nameEdits_asked hnames e he
    obtain ⟨origin, final, hrefers, hfinal, hsuffix⟩ := hasks.writes
    refine ⟨k, hk, origin, final, hrefers, ?_, hfinal, hsuffix⟩
    rintro rfl
    cases hnone.symm.trans hfinal

/-- Two files that are read already: the first one imports the second one and refers to an ambient name
`x`, the second one exports another binding of that name. -/
def ambientSession : Session :=
  let name : Ident := { mark := { id := 0, span := { start := 14, stop := 15 } }, name := "x" }
  let statements : List Node :=
    [.importDeclaration { id := 1, span := {} } none { id := 2, span := {} } "./a",
      .expressionStatement { id := 3, span := { start := 14, stop := 16 } } (.ident name)]
  let source : SourceFile :=
    { fileName := "/main", text := "import \"./a\";\nx;", span := {}, statements }
  { (default : Session) with
    known := [("/main", 0), ("/a", 1)]
    program :=
      { bindings :=
          { symbols := #[{ (default : Symbol) with name := "x" },
              { (default : Symbol) with name := "x" }]
            references := (∅ : Std.HashMap Nat SymbolId).insert 0 0 }
        files := #[{ (default : BoundFile) with source },
          { (default : BoundFile) with
            source := { (default : BoundFile).source with fileName := "/a" }, exports := [("x", 1)] }]
        nextId := 4 } }

/-- Where the two files are. -/
def ambientPlace : Place where
  tree := { root := "/", files := [("/a", "".toUTF8), ("/main", "".toUTF8)] }
  workingDirectory := "/"
  root := "/"

/-- The exported binding is called `x`, and so is the ambient one where it occurs. -/
theorem ambient_keeps_name_exported : ∃ s,
    combineFrom "main" ambientPlace { session := ambientSession } = .ok () s ∧
    s.IsAmbient 0 ∧ s.table.finalName? 1 = some "x" ∧ s.combined = "x;;\n" ∧
    ∀ m : Mark, s.session.program.origin? m.id = some (.symbol 0) →
      Renaming.finalNameOf? ⟨s.session.program, s.table⟩ m = none := by
  have hrun : endsWith (combineFrom "main" ambientPlace { session := ambientSession }) (fun _ s =>
      s.table.finalName? 1 == some "x" && s.combined == "x;;\n" &&
        s.modules.all fun module =>
          module.2.file.exports.all (fun e =>
            decide (s.session.program.bindings.resolve e.2 ≠ .symbol 0)) &&
          module.2.statements.all fun n => (topLevelNames n).isEmpty) = true := by
    decide +kernel
  obtain ⟨_, s, hs, htest⟩ := endsWith_iff.mp hrun
  simp only [Bool.and_eq_true, beq_iff_eq, List.all_eq_true, decide_eq_true_eq] at htest
  obtain ⟨⟨hfinal, hcombined⟩, hmodules⟩ := htest
  have hambient : s.IsAmbient 0 := by
    refine ⟨fun record hrecord => ?_, fun record hrecord n hn i hi => ?_⟩
    · obtain ⟨module, hmodule, rfl⟩ := List.mem_map.mp hrecord
      exact (hmodules module hmodule).1
    · obtain ⟨module, hmodule, rfl⟩ := List.mem_map.mp hrecord
      rw [List.isEmpty_iff.mp ((hmodules module hmodule).2 n hn)] at hi
      cases hi
  exact ⟨s, hs, hambient, hfinal, hcombined, (ambient_keeps_name hs hambient).1⟩

end ScriptBridge.Bundle
