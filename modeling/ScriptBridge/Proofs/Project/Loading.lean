import ScriptBridge.Proofs.Data.Assoc
import ScriptBridge.Proofs.Project.Path
import ScriptBridge.Proofs.Project.Sources
import ScriptBridge.Proofs.Project.Walk

/-!
# Loading a program

What a session knows about files stays as it is while more of them are read: a file that is known keeps
its number and its tree, and its tree is what the parser reads from the text at its path. So the walk
that loads a program can be read against the files of the session that it ends with.

* `Session.Sound`: known files are those of the tree.
* `Session.Extends`: what is known stays known.
* `load_ok`, `link_ok`: both for the steps of loading.
* `visitModule_walk`: the walk that loads a program is a depth-first walk over imports.
-/

namespace ScriptBridge

open Binding TypeScript Conversion

/-! ## Sessions -/

/-- A tree is what the parser reads from the text of the file at a path. -/
def ReadsAs (place : Place) (path : String) (source : SourceFile) : Prop :=
  ∃ content text firstId nextId, place.tree.read path = .ok content ∧
    decodeText content = some text ∧ parseFrom firstId path text = .ok (source, nextId)

namespace Session

/-- The file that a session knows at a path. -/
def fileAt? (s : Session) (path : String) : Option BoundFile :=
  (s.known.lookup path).map s.program.file

/-- Every file that a session knows is in its program, under its path, and is what the text at that
path reads as. -/
def Sound (place : Place) (s : Session) : Prop :=
  ∀ path id, s.known.lookup path = some id →
    id < s.program.files.size ∧ (s.program.file id).source.fileName = path ∧
      ReadsAs place path (s.program.file id).source

/-- What a session knows, a later one knows as well. -/
def Extends (s s' : Session) : Prop :=
  ∀ path id, s.known.lookup path = some id →
    s'.known.lookup path = some id ∧ s'.program.file id = s.program.file id

theorem Extends.refl (s : Session) : s.Extends s :=
  fun _ _ h => ⟨h, rfl⟩

theorem Extends.trans {s s' s'' : Session} (h : s.Extends s') (h' : s'.Extends s'') :
    s.Extends s'' := by
  intro path id hid
  obtain ⟨hknown, hfile⟩ := h path id hid
  obtain ⟨hknown', hfile'⟩ := h' path id hknown
  exact ⟨hknown', hfile'.trans hfile⟩

theorem Extends.fileAt? {s s' : Session} (h : s.Extends s') {path : String} {file : BoundFile}
    (hf : s.fileAt? path = some file) : s'.fileAt? path = some file := by
  obtain ⟨id, hid, rfl⟩ := Option.map_eq_some_iff.mp hf
  obtain ⟨hknown, hfile⟩ := h path id hid
  rw [Session.fileAt?, hknown, Option.map_some, hfile]

/-- A session without files is sound. -/
theorem sound_of_known_nil {place : Place} {s : Session} (h : s.known = []) : s.Sound place := by
  intro path id hid
  rw [h] at hid
  cases hid

/-- One session comes after another in a compilation: it is sound, and it knows what was known. -/
structure Follows (place : Place) (s s' : Session) : Prop where
  sound : s'.Sound place
  extends_ : s.Extends s'

theorem Follows.refl {place : Place} {s : Session} (h : s.Sound place) : Follows place s s :=
  ⟨h, .refl s⟩

theorem Follows.trans {place : Place} {s s' s'' : Session} (h : Follows place s s')
    (h' : Follows place s' s'') : Follows place s s'' :=
  ⟨h'.sound, h.extends_.trans h'.extends_⟩

/-- Only the files and the names under which they are known matter. -/
theorem Follows.of_eq {place : Place} {s s' : Session} (h : s.Sound place)
    (hknown : s'.known = s.known) (hfiles : s'.program.files = s.program.files) :
    Follows place s s' := by
  have hfile : ∀ id, s'.program.file id = s.program.file id := fun id => by
    rw [Program.file, Program.file, hfiles]
  refine ⟨fun path id hid => ?_, fun path id hid => ⟨hknown ▸ hid, hfile id⟩⟩
  rw [hfile, hfiles]
  exact h path id (hknown ▸ hid)

end Session

/-! ## Reading a file -/

theorem parseFrom_fileName {firstId nextId : Nat} {fileName text : String} {source : SourceFile}
    (h : parseFrom firstId fileName text = .ok (source, nextId)) : source.fileName = fileName := by
  unfold parseFrom at h
  split at h
  · cases h
  · split at h
    · rename_i file s hs
      cases h
      unfold sourceFile at hs
      obtain ⟨_, _, -, hs⟩ := estate_bind_ok hs
      obtain ⟨_, _, -, hs⟩ := estate_bind_ok hs
      cases hs
      rfl
    · cases h

/-- A text that was added to a program is its last file; the files before it stay. -/
theorem Program.add_files {p p' : Program} {id : FileId} {fileName text : String}
    (h : p.add fileName text = .ok (p', id)) :
    id = p.files.size ∧ ∃ file, p'.files = p.files.push file := by
  unfold Program.add at h
  cases hb : bindText p.nextId p.bindings fileName text with
  | error fault => rw [hb] at h; cases h
  | ok r =>
    obtain ⟨file, b, next⟩ := r
    rw [hb] at h
    cases h
    exact ⟨rfl, file, rfl⟩

/-- A new file becomes known under its name, and nothing else changes. -/
theorem parseText_known {fileName text : String} {place : Place} {s s' : Session} {id : FileId}
    (h : parseText fileName text place s = .ok id s') :
    s'.known = Assoc.set fileName id s.known ∧ id = s.program.files.size ∧
      ∃ file, s'.program.files = s.program.files.push file := by
  unfold parseText at h
  obtain ⟨_, _, h₁, h⟩ := bind_ok h
  cases h₁
  cases ha : s.program.add fileName text with
  | error fault => simp only [ha] at h; cases h
  | ok r =>
    obtain ⟨p, i⟩ := r
    simp only [ha] at h
    cases h
    obtain ⟨hid, hfiles⟩ := Program.add_files ha
    exact ⟨rfl, hid, hfiles⟩

theorem parseText_follows {path text : String} {content : ByteArray} {place : Place}
    {s s' : Session} {id : FileId} (hs : s.Sound place) (hnew : s.known.lookup path = none)
    (hread : place.tree.read path = .ok content) (htext : decodeText content = some text)
    (h : parseText path text place s = .ok id s') :
    s.Follows place s' ∧ s'.known.lookup path = some id := by
  have hparse := parseText_source h
  obtain ⟨hknown, rfl, file, hfiles⟩ := parseText_known h
  have hlookup : ∀ other, s'.known.lookup other =
      if other = path then some s.program.files.size else s.known.lookup other := fun other => by
    rw [hknown, Assoc.lookup_set]
  have hold : ∀ id < s.program.files.size, s'.program.file id = s.program.file id := by
    intro id hid
    rw [Program.file, Program.file, hfiles, Array.getElem?_push_lt hid, Array.getElem?_eq_getElem hid]
  refine ⟨⟨fun other id hid => ?_, fun other id hid => ?_⟩, by rw [hlookup, if_pos rfl]⟩
  · rw [hlookup] at hid
    split at hid
    · rename_i he
      cases hid
      subst he
      exact ⟨by rw [hfiles, Array.size_push]; exact Nat.lt_succ_self _, parseFrom_fileName hparse,
        content, text, _, _, hread, htext, hparse⟩
    · obtain ⟨hlt, hname, hreads⟩ := hs other id hid
      rw [hold id hlt]
      exact ⟨by rw [hfiles, Array.size_push]; exact Nat.lt_succ_of_lt hlt, hname, hreads⟩
  · have hne : other ≠ path := by
      rintro rfl
      rw [hnew] at hid
      cases hid
    rw [hlookup, if_neg hne]
    exact ⟨hid, hold id (hs other id hid).1⟩

/-- Loading gives the number under which the file is known afterwards. -/
theorem load_ok {path : String} {place : Place} {s s' : Session} {id : FileId}
    (hs : s.Sound place) (h : load path place s = .ok id s') :
    s.Follows place s' ∧
      s'.known.lookup (Path.absolute place.workingDirectory path) = some id := by
  unfold load at h
  obtain ⟨_, _, h₁, h⟩ := bind_ok h
  cases h₁
  obtain ⟨_, _, h₁, h⟩ := bind_ok h
  cases h₁
  cases hknown : s.known.lookup (Path.absolute place.workingDirectory path) with
  | some known =>
    simp only [hknown] at h
    cases h
    exact ⟨.refl hs, hknown⟩
  | none =>
    simp only [hknown] at h
    obtain ⟨_, _, h₁, h⟩ := bind_ok h
    cases h₁
    cases hread : place.tree.read (Path.absolute place.workingDirectory path) with
    | error failure => simp only [hread] at h; cases h
    | ok content =>
      simp only [hread] at h
      cases htext : decodeText content with
      | none => simp only [htext] at h; cases h
      | some text =>
        simp only [htext] at h
        obtain ⟨_, s₁, h₁, h⟩ := bind_ok h
        cases h₁
        obtain ⟨hfollows, hlast⟩ :=
          parseText_follows (s := { s with events := s.events.push _ }) hs hknown hread htext h
        exact ⟨⟨hfollows.sound, hfollows.extends_⟩, hlast⟩

/-! ## Imports -/

theorem resolveImport_ok {importer specifier path : String} {span : Span} {place : Place}
    {s s' : Session} (h : resolveImport importer specifier span place s = .ok path s') :
    s' = s ∧ modulePath? place importer specifier = some path := by
  unfold resolveImport at h
  obtain ⟨_, _, h₁, h⟩ := bind_ok h
  cases h₁
  cases hp : modulePath? place importer specifier with
  | none => simp only [resolveModule, hp] at h; cases h
  | some found => simp only [resolveModule, hp] at h; cases h; exact ⟨rfl, rfl⟩

theorem resolveImport_of_modulePath? {importer specifier path : String} {place : Place}
    (h : modulePath? place importer specifier = some path) (span : Span) (s : Session) :
    resolveImport importer specifier span place s = .ok path s := by
  have hr : resolveModule place importer specifier span = .ok path := by
    rw [resolveModule, h]
  have hread : (read : LoadM Place) place s = .ok place s := rfl
  rw [resolveImport, bind_of_ok hread, hr]
  rfl

theorem importTarget_ok {fileName : String} {symbol : Symbol} {id : FileId} {target : Target}
    {place : Place} {s s' : Session}
    (h : importTarget fileName symbol id place s = .ok target s') : s' = s := by
  unfold importTarget at h
  by_cases hstar : symbol.importName == "*"
  · simp only [hstar, if_true] at h
    cases h
    rfl
  · simp only [hstar] at h
    obtain ⟨file, _, h₁, h⟩ := bind_ok h
    cases h₁
    cases hfound : (s.program.file id).exports.lookup symbol.importName with
    | none => simp only [hfound] at h; cases h
    | some found => simp only [hfound] at h; cases h; rfl

theorem linkAll_ok {fileName : String} {ids : List SymbolId} {place : Place} {s s' : Session}
    (hs : s.Sound place) (h : linkAll fileName ids place s = .ok () s') : s.Follows place s' := by
  induction ids generalizing s with
  | nil => cases h; exact .refl hs
  | cons id ids ih =>
    unfold linkAll at h
    obtain ⟨_, _, h₁, h⟩ := bind_ok h
    cases h₁
    by_cases htarget : (s.program.bindings.symbol id).target.isNone
    · simp only [htarget, if_true] at h
      obtain ⟨path, _, hresolve, h⟩ := bind_ok h
      obtain ⟨rfl, -⟩ := resolveImport_ok hresolve
      obtain ⟨found, s₁, hload, h⟩ := bind_ok h
      obtain ⟨hload, -⟩ := load_ok hs hload
      obtain ⟨target, _, hfound, h⟩ := bind_ok h
      rw [importTarget_ok hfound] at h
      obtain ⟨_, s₂, hset, h⟩ := bind_ok h
      have hlink : s₁.Follows place s₂ := by
        cases hset
        exact .of_eq hload.sound rfl rfl
      exact hload.trans (hlink.trans (ih hlink.sound h))
    · simp only [htarget] at h
      exact ih hs h

/-- Linking keeps what is known. -/
theorem link_ok {id : FileId} {place : Place} {s s' : Session} (hs : s.Sound place)
    (h : link id place s = .ok () s') : s.Follows place s' := by
  unfold link at h
  obtain ⟨_, _, h₁, h⟩ := bind_ok h
  cases h₁
  exact linkAll_ok hs h

/-! ## What a file imports -/

/-- A place in which every file has its one spelling as a path. -/
structure Place.WellFormed (place : Place) : Prop where
  directory : place.workingDirectory.startsWith "/" = true
  files : ∀ path, place.tree.isFile path = true → Path.absolute place.workingDirectory path = path

theorem isFile_of_modulePath? {place : Place} {importer specifier path : String}
    (h : modulePath? place importer specifier = some path) : place.tree.isFile path = true :=
  List.find?_some h

/-- A file imports another one: it declares the import of a module that stands for the other. -/
def Session.Imports (place : Place) (s : Session) (importer path : String) : Prop :=
  ∃ file mark clause specifierMark specifier, s.fileAt? importer = some file ∧
    Node.importDeclaration mark clause specifierMark specifier ∈ file.source.statements ∧
      modulePath? place file.source.fileName specifier = some path

/-- A file leads to another one through imports. -/
abbrev Session.Reaches (place : Place) (s : Session) : String → String → Prop :=
  Relation.ReflTransGen (s.Imports place)

/-- The files that modules stand for in a file, as far as there are such files. -/
def moduleTargets (place : Place) (importer : String) (modules : List (String × Node)) :
    List String :=
  modules.filterMap fun m => modulePath? place importer m.1

/-- The files that a file imports, in the order in which it does. -/
def Session.importTargets (place : Place) (s : Session) (path : String) : List String :=
  match s.fileAt? path with
  | some file => moduleTargets place file.source.fileName (moduleSpecifiers file.source)
  | none => []

/-- The modules of statements are those of their import declarations. -/
theorem exists_mem_importedModules {specifier : String} {seen : List String}
    {statements : List Node} :
    (∃ decl, (specifier, decl) ∈ importedModules seen statements) ↔
      specifier ∉ seen ∧ ∃ mark clause specifierMark,
        Node.importDeclaration mark clause specifierMark specifier ∈ statements := by
  induction statements generalizing seen with
  | nil => simp [importedModules]
  | cons n statements ih =>
    by_cases hn : ∃ mark clause specifierMark other,
        n = .importDeclaration mark clause specifierMark other
    · obtain ⟨mark, clause, specifierMark, other, rfl⟩ := hn
      by_cases hseen : other ∈ seen
      · simp only [importedModules, List.contains_iff_mem, hseen, if_true, ih, List.mem_cons,
          Node.importDeclaration.injEq]
        grind
      · simp only [importedModules, List.contains_iff_mem, hseen, if_false, List.mem_cons,
          Prod.mk.injEq, exists_or, ih, Node.importDeclaration.injEq]
        grind
    · have hskip : importedModules seen (n :: statements) = importedModules seen statements := by
        rw [importedModules]
        exact fun mark clause specifierMark other h => hn ⟨mark, clause, specifierMark, other, h⟩
      rw [hskip, ih]
      grind

theorem Session.mem_importTargets {place : Place} {s : Session} {importer path : String} :
    path ∈ s.importTargets place importer ↔ s.Imports place importer path := by
  unfold Session.importTargets Session.Imports
  cases s.fileAt? importer with
  | none => simp
  | some file =>
    simp only [moduleTargets, List.mem_filterMap]
    constructor
    · rintro ⟨⟨specifier, decl⟩, hm, hpath⟩
      obtain ⟨-, mark, clause, specifierMark, hmem⟩ := exists_mem_importedModules.mp ⟨decl, hm⟩
      exact ⟨file, mark, clause, specifierMark, specifier, rfl, hmem, hpath⟩
    · rintro ⟨_, mark, clause, specifierMark, specifier, ⟨⟩, hmem, hpath⟩
      obtain ⟨decl, hm⟩ := exists_mem_importedModules.mpr
        ⟨List.not_mem_nil, mark, clause, specifierMark, hmem⟩
      exact ⟨(specifier, decl), hm, hpath⟩

theorem Session.leads_importTargets (place : Place) (s : Session) :
    Leads (s.importTargets place) = s.Reaches place := by
  have hedges : (fun u v => v ∈ s.importTargets place u) = s.Imports place := by
    funext u v
    exact propext Session.mem_importTargets
  rw [Leads, hedges]

/-! ## The walk -/

/-- The names of files. -/
def Session.names (s : Session) (ids : List FileId) : List String :=
  ids.map fun id => (s.program.file id).source.fileName

/-- What a step of the walk that loads a program does, seen from any later session. -/
def VisitsAs (place : Place) (nodes : List String) (s : Session)
    (before after : List String × List FileId) (s' : Session) : Prop :=
  s.Follows place s' ∧ ∀ final, s'.Extends final →
    Walk (final.importTargets place) nodes (before.1, final.names before.2)
      (after.1, final.names after.2)

section
variable {place : Place} (hplace : place.WellFormed)
include hplace

/-- The modules of a file are visited one after the other. -/
theorem foldlM_visits {visit : List String × List FileId → String →
      LoadM (List String × List FileId)}
    (hvisit : ∀ {path s before after s'}, s.Sound place →
      Path.absolute place.workingDirectory path = path →
      visit before path place s = .ok after s' → VisitsAs place [path] s before after s')
    {importer : String} {modules : List (String × Node)} {s s' : Session}
    {before after : List String × List FileId} (hs : s.Sound place)
    (h : (modules.foldlM (fun visited (specifier, decl) => do
      visit visited (← resolveImport importer specifier decl.span)) before :
        LoadM (List String × List FileId)) place s = .ok after s') :
    VisitsAs place (moduleTargets place importer modules) s before after s' := by
  induction modules generalizing before s with
  | nil =>
    cases h
    exact ⟨.refl hs, fun _ _ => .done _⟩
  | cons m modules ih =>
    rw [List.foldlM_cons] at h
    obtain ⟨between, s₁, hstep, h⟩ := bind_ok h
    obtain ⟨path, _, hresolve, hvisited⟩ := bind_ok hstep
    obtain ⟨hs₀, hpath⟩ := resolveImport_ok hresolve
    rw [hs₀] at hvisited
    obtain ⟨hfollows, hwalk⟩ :=
      hvisit hs (hplace.files path (isFile_of_modulePath? hpath)) hvisited
    obtain ⟨hfollows', hwalk'⟩ := ih hfollows.sound h
    refine ⟨hfollows.trans hfollows', fun final hfinal => ?_⟩
    have htargets : moduleTargets place importer (m :: modules) =
        [path] ++ moduleTargets place importer modules := by
      rw [moduleTargets, List.filterMap_cons, hpath]
      rfl
    rw [htargets]
    exact (hwalk final (hfollows'.extends_.trans hfinal)).append (hwalk' final hfinal)

/-- Loading a program is a depth-first walk over the imports of its files. -/
theorem visitModule_walk {n : Nat} {path : String} {s s' : Session}
    {before after : List String × List FileId} (hs : s.Sound place)
    (hpath : Path.absolute place.workingDirectory path = path)
    (h : visitModule n before path place s = .ok after s') :
    VisitsAs place [path] s before after s' := by
  induction n generalizing path s s' before after with
  | zero => cases h
  | succ n ih =>
    obtain ⟨seen, order⟩ := before
    unfold visitModule at h
    split at h
    · rename_i hseen
      cases h
      exact ⟨.refl hs, fun final _ => .skip (by simpa using hseen) (.done _)⟩
    · rename_i hnew
      obtain ⟨id, s₁, h₁, h⟩ := bind_ok h
      obtain ⟨hload, hid⟩ := load_ok hs h₁
      rw [hpath] at hid
      obtain ⟨file, s₁', h₁, h⟩ := bind_ok h
      cases h₁
      obtain ⟨⟨seen₂, order₂⟩, s₂, h₂, h⟩ := bind_ok h
      obtain ⟨hinner, hwalk⟩ := foldlM_visits hplace ih hload.sound h₂
      obtain ⟨_, s₃, h₃, h⟩ := bind_ok h
      have hlink := link_ok hinner.sound h₃
      cases h
      refine ⟨hload.trans (hinner.trans hlink), fun final hfinal => ?_⟩
      have hlast := hlink.extends_.trans hfinal
      obtain ⟨hknown, hfile⟩ := (hinner.extends_.trans hlast) path id hid
      have hname : (final.program.file id).source.fileName = path := by
        rw [hfile]
        exact (hload.sound path id hid).2.1
      have htargets : final.importTargets place path =
          moduleTargets place (s₁.program.file id).source.fileName
            (moduleSpecifiers (s₁.program.file id).source) := by
        rw [Session.importTargets, Session.fileAt?, hknown, Option.map_some, hfile]
      refine .visit (by simpa using hnew) (htargets ▸ hwalk final hlast) ?_
      simp only [Session.names, List.map_append, List.map_singleton, hname]
      exact .done _

end

end ScriptBridge
