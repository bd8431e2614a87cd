import ScriptBridge.Proofs.Conversion.AnyOrder
import ScriptBridge.Proofs.Conversion.Generated
import ScriptBridge.Proofs.Project.Loading

/-!
# What a compiled program consists of

A program is compiled to one definition for each imported file, in the order in which the files were
loaded, and the statements of the entry file. Each definition has a generated name of its own and holds
what the file is converted to; names generated later are none of these.

* `Definition`: an imported module in the output.
* `Session.Lists`: files that a session lists are known to it by their names.
* `Converted`: what a file of a session is converted to.
* `Compiled`: a program in the session that it ends with, and `convertProgram_compiled`.
-/

namespace ScriptBridge

open Binding TypeScript Conversion

/-! ## Definitions -/

/-- An imported module in the output: its file, the name that holds its exports, and what its file is
converted to. -/
structure Definition where
  path : String
  name : String
  module : Module

namespace Definition

/-- The path and the name. -/
def key (d : Definition) : String × String :=
  (d.path, d.name)

/-- The statements of the module, and its exports as the value. -/
def body (d : Definition) : List AiScript.Node :=
  d.module.statements ++ d.module.table

/-- The definition of the name. -/
def node (d : Definition) : AiScript.Node :=
  define d.name (.block {} d.body) false

end Definition

/-! ## Loaded files -/

/-- Files that a session knows by their names. -/
def Session.Lists (s : Session) (ids : List FileId) : Prop :=
  ∀ id ∈ ids, s.known.lookup (s.program.file id).source.fileName = some id

theorem Session.Lists.extends_ {s s' : Session} {ids : List FileId} (h : s.Lists ids)
    (hs : s.Extends s') : s'.Lists ids := by
  intro id hid
  obtain ⟨hknown, hfile⟩ := hs _ id (h id hid)
  rw [hfile]
  exact hknown

section
variable {place : Place} (hplace : place.WellFormed)
include hplace

/-- What a visit keeps, the visits to all modules of a file keep. -/
theorem foldlM_keeps {visit : List String × List FileId → String →
      LoadM (List String × List FileId)} {P : List String × List FileId → Session → Prop}
    (hvisit : ∀ {path s before after s'}, P before s →
      Path.absolute place.workingDirectory path = path →
      visit before path place s = .ok after s' → P after s')
    {importer : String} {modules : List (String × Node)} {s s' : Session}
    {before after : List String × List FileId} (hs : P before s)
    (h : (modules.foldlM (fun visited (specifier, decl) => do
      visit visited (← resolveImport importer specifier decl.span)) before :
        LoadM (List String × List FileId)) place s = .ok after s') : P after s' := by
  induction modules generalizing before s with
  | nil =>
    cases h
    exact hs
  | cons m modules ih =>
    rw [List.foldlM_cons] at h
    obtain ⟨between, s₁, hstep, h⟩ := bind_ok h
    obtain ⟨path, _, hresolve, hvisited⟩ := bind_ok hstep
    obtain ⟨hs₀, hpath⟩ := resolveImport_ok hresolve
    rw [hs₀] at hvisited
    exact ih (hvisit hs (hplace.files path (isFile_of_modulePath? hpath)) hvisited) h

/-- The files that loading a program puts into its order are known by their names. -/
theorem visitModule_lists {n : Nat} {path : String} {s s' : Session}
    {before after : List String × List FileId} (hs : s.Sound place)
    (hpath : Path.absolute place.workingDirectory path = path) (hbefore : s.Lists before.2)
    (h : visitModule n before path place s = .ok after s') : s'.Lists after.2 := by
  induction n generalizing path s s' before after with
  | zero => cases h
  | succ n ih =>
    obtain ⟨seen, order⟩ := before
    unfold visitModule at h
    split at h
    · cases h
      exact hbefore
    obtain ⟨id, s₁, h₁, h⟩ := bind_ok h
    obtain ⟨hload, hid⟩ := load_ok hs h₁
    rw [hpath] at hid
    obtain ⟨_, _, h₁, h⟩ := bind_ok h
    cases h₁
    obtain ⟨⟨seen₂, order₂⟩, s₂, h₂, h⟩ := bind_ok h
    have himports : s₁.Follows place s₂ ∧ s₂.Lists order₂ := by
      refine foldlM_keeps hplace (P := fun trail t => s₁.Follows place t ∧ t.Lists trail.2) ?_ ?_ h₂
      · rintro target t before after t' ⟨ht, hlists⟩ htarget hvisit
        exact ⟨ht.trans (visitModule_walk hplace ht.sound htarget hvisit).1,
          ih ht.sound htarget hlists hvisit⟩
      · exact ⟨.refl hload.sound, hbefore.extends_ hload.extends_⟩
    obtain ⟨_, s₃, h₃, h⟩ := bind_ok h
    have hlink := link_ok himports.1.sound h₃
    cases h
    refine fun other hother => ?_
    rcases List.mem_append.mp hother with hother | hother
    · exact himports.2.extends_ hlink.extends_ other hother
    · obtain rfl := List.mem_singleton.mp hother
      obtain ⟨hknown, hfile⟩ := (himports.1.extends_.trans hlink.extends_) path other hid
      rw [hfile, (hload.sound path other hid).2.1]
      exact hknown

/-- Loading a program gives the files that a walk over their imports goes through, by their names. -/
theorem loadProgram_ok {entry : String} {ids : List FileId} {s s' : Session} (hs : s.Sound place)
    (h : loadProgram entry place s = .ok ids s') :
    s'.Sound place ∧ s'.Lists ids ∧ ∃ seen, Walk (s'.importTargets place)
      [Path.absolute place.workingDirectory entry] ([], []) (seen, s'.names ids) := by
  have hroot := Path.absolute_absolute hplace.directory entry
  unfold loadProgram at h
  obtain ⟨_, _, h₁, h⟩ := bind_ok h
  cases h₁
  obtain ⟨_, _, h₁, h⟩ := bind_ok h
  cases h₁
  obtain ⟨⟨seen, order⟩, s₁, hvisit, h⟩ := bind_ok h
  obtain ⟨_, _, h₁, h⟩ := bind_ok h
  cases h₁
  cases h
  obtain ⟨hfollows, hwalk⟩ := visitModule_walk hplace hs hroot hvisit
  have hlast : Session.Follows place s₁ { s₁ with events := _ } := .of_eq hfollows.sound rfl rfl
  have hnone : s.Lists [] := List.forall_mem_nil _
  have hlists : s₁.Lists ids := visitModule_lists hplace hs hroot hnone hvisit
  exact ⟨hlast.sound, hlists.extends_ hlast.extends_, seen, hwalk _ hlast.extends_⟩

end

/-! ## Names -/

/-- Files are given the next generated names. -/
theorem nameFiles_ok {ids : List FileId} {names : List (String × String)} {place : Place}
    {s s' : Session} (h : nameFiles ids place s = .ok names s') :
    names.map Prod.fst = s.names ids ∧
      names.map Prod.snd = (List.range' (s.generated + 1) ids.length).map generatedName ∧
      s' = { s with generated := s.generated + ids.length } := by
  induction ids generalizing names s with
  | nil =>
    cases h
    exact ⟨rfl, rfl, rfl⟩
  | cons id ids ih =>
    unfold nameFiles at h
    obtain ⟨_, _, h₁, h⟩ := bind_ok h
    cases h₁
    obtain ⟨name, _, h₁, h⟩ := bind_ok h
    cases h₁
    obtain ⟨others, s₁, hothers, h⟩ := bind_ok h
    cases h
    obtain ⟨hpaths, hnames, rfl⟩ := ih hothers
    refine ⟨congrArg _ hpaths, congrArg _ hnames, ?_⟩
    rw [List.length_cons, Nat.add_assoc, Nat.add_comm 1]

/-- Looking up the path of every name gives back the names. -/
theorem map_lookup_names {names : List (String × String)} {paths : List String}
    (hpaths : names.map Prod.fst = paths) (hnodup : paths.Nodup) :
    paths.map (fun path => (path, (names.lookup path).getD "")) = names := by
  subst hpaths
  rw [List.map_map]
  refine (List.map_congr_left fun e he => ?_).trans (List.map_id names)
  have hfound := Assoc.lookup_of_mem hnodup he
  simp only [Function.comp_apply, hfound, Option.getD_some, id]

/-! ## Converted files -/

/-- What a file of a session is converted to, with modules that have names and a number of names that
were generated before. -/
def Converted (place : Place) (s : Session) (names : List (String × String)) (least : Nat)
    (path : String) (m : Module) : Prop :=
  ∃ file progress after, s.fileAt? path = some file ∧ progress.exports = [] ∧
    least ≤ progress.generated ∧
    Module.convert defaultCapabilities file.source.statements
      { program := s.program, fileName := path, moduleName := importedName place names path }
      progress = .ok m after

/-- The setting in which only the number of generated names matters. -/
def Setting.growing (context : Context) (least : Nat) : Setting :=
  { Setting.all context with
    steady := fun s => least ≤ s.generated
    known_generated := fun _ => trivial
    steady_generated := Nat.le_succ_of_le
    steady_memory := fun _ hs => hs
    steady_export := fun _ _ _ _ _ hs => hs }

/-- A conversion takes back no generated name. -/
theorem convert_generated_le {source : List Node} {context : Context} {progress after : Progress}
    {m : Module} (h : Module.convert defaultCapabilities source context progress = .ok m after) :
    progress.generated ≤ after.generated :=
  ((Setting.convert_alike exportsFirst_default fun _ _ => trivial :
    (Setting.growing context progress.generated).Alike _ _ _).ok (Nat.le_refl _) h).2

/-- A session in the course of converting the files of another one. -/
structure Session.Converts (s s' : Session) : Prop where
  program : s'.program = s.program
  known : s'.known = s.known
  generated : s.generated ≤ s'.generated

namespace Session.Converts

variable {s s' s'' : Session}

theorem refl (s : Session) : s.Converts s :=
  ⟨rfl, rfl, Nat.le_refl _⟩

theorem trans (h : s.Converts s') (h' : s'.Converts s'') : s.Converts s'' :=
  ⟨h'.program.trans h.program, h'.known.trans h.known, h.generated.trans h'.generated⟩

theorem fileAt? (h : s.Converts s') : s'.fileAt? = s.fileAt? := by
  funext path
  rw [Session.fileAt?, Session.fileAt?, h.program, h.known]

theorem importTargets (h : s.Converts s') (place : Place) :
    s'.importTargets place = s.importTargets place := by
  funext path
  rw [Session.importTargets, Session.importTargets, h.fileAt?]

theorem lists {ids : List FileId} (h : s.Converts s') (hs : s.Lists ids) : s'.Lists ids := by
  intro id hid
  rw [h.program, h.known]
  exact hs id hid

end Session.Converts

/-- What a file is converted to does not depend on what was converted in between. -/
theorem Session.Converts.converted_iff {place : Place} {s s' : Session}
    {names : List (String × String)} {least : Nat} {path : String} {m : Module}
    (h : s.Converts s') :
    Converted place s' names least path m ↔ Converted place s names least path m := by
  rw [Converted, Converted, h.fileAt?, h.program]

section
variable {place : Place} {names : List (String × String)} {s s' : Session} {least : Nat}
  (hleast : least ≤ s.generated)
include hleast

theorem convertFile_converts {id : FileId} {path : String} {m : Module}
    (hpath : (s.program.file id).source.fileName = path) (hid : s.known.lookup path = some id)
    (h : convertFile defaultCapabilities (importedName place names path) id place s = .ok m s') :
    s.Converts s' ∧ Converted place s names least path m := by
  obtain ⟨after, hc, events, rfl⟩ := convertFile_ok h
  refine ⟨⟨rfl, rfl, convert_generated_le hc⟩, _, _, after, ?_, rfl, hleast, hpath ▸ hc⟩
  rw [Session.fileAt?, hid, Option.map_some]

theorem convertImported_ok {id : FileId} {node : AiScript.Node} (hid : s.Lists [id])
    (h : convertImported defaultCapabilities names id place s = .ok node s') :
    s.Converts s' ∧ ∃ d : Definition, node = d.node ∧
      d.path = (s.program.file id).source.fileName ∧ d.name = (names.lookup d.path).getD "" ∧
      Converted place s names least d.path d.module := by
  unfold convertImported at h
  obtain ⟨_, _, h₁, h⟩ := bind_ok h
  cases h₁
  obtain ⟨_, _, h₁, h⟩ := bind_ok h
  cases h₁
  obtain ⟨m, s₁, hm, h⟩ := bind_ok h
  obtain ⟨hs, hc⟩ := convertFile_converts hleast rfl (hid id (List.mem_singleton.mpr rfl)) hm
  cases h
  exact ⟨hs, ⟨_, _, m⟩, rfl, rfl, rfl, hc⟩

theorem convertEntry_ok {id : FileId} {statements : List AiScript.Node} (hid : s.Lists [id])
    (h : convertEntry defaultCapabilities names id place s = .ok statements s') :
    s.Converts s' ∧ ∃ m : Module, statements = m.statements ++ m.table ∧
      Converted place s names least (s.program.file id).source.fileName m := by
  unfold convertEntry at h
  obtain ⟨_, _, h₁, h⟩ := bind_ok h
  cases h₁
  obtain ⟨_, _, h₁, h⟩ := bind_ok h
  cases h₁
  obtain ⟨m, s₁, hm, h⟩ := bind_ok h
  obtain ⟨hs, hc⟩ := convertFile_converts hleast rfl (hid id (List.mem_singleton.mpr rfl)) hm
  cases h
  exact ⟨hs, m, rfl, hc⟩

theorem mapM_convertImported_ok {ids : List FileId} {nodes : List AiScript.Node}
    (hids : s.Lists ids)
    (h : ids.mapM (convertImported defaultCapabilities names) place s = .ok nodes s') :
    s.Converts s' ∧ ∃ definitions : List Definition, nodes = definitions.map Definition.node ∧
      definitions.map Definition.key =
        (s.names ids).map (fun path => (path, (names.lookup path).getD "")) ∧
      ∀ d ∈ definitions, Converted place s names least d.path d.module := by
  induction ids generalizing s nodes with
  | nil =>
    cases h
    exact ⟨.refl _, [], rfl, rfl, List.forall_mem_nil _⟩
  | cons id ids ih =>
    rw [List.mapM_cons] at h
    obtain ⟨node, s₁, hnode, h⟩ := bind_ok h
    obtain ⟨others, s₂, hothers, h⟩ := bind_ok h
    cases h
    obtain ⟨hid, hrest⟩ := List.forall_mem_cons.mp hids
    obtain ⟨hs₁, d, rfl, hpath, hname, hd⟩ :=
      convertImported_ok hleast (List.forall_mem_singleton.mpr hid) hnode
    obtain ⟨hs₂, definitions, rfl, hkeys, hall⟩ :=
      ih (hleast.trans hs₁.generated) (hs₁.lists hrest) hothers
    refine ⟨hs₁.trans hs₂, d :: definitions, rfl, ?_, List.forall_mem_cons.mpr ⟨hd, fun d hd => ?_⟩⟩
    · have hnames : s₁.names ids = s.names ids := by
        rw [Session.names, Session.names, hs₁.program]
      rw [List.map_cons, hkeys, hnames, Definition.key, hname, hpath]
      rfl
    · exact hs₁.converted_iff.mp (hall d hd)

end

/-! ## Programs -/

/-- A program in the session that its compilation ends with: the definitions of the imported modules
in the order of the walk over the files, and what the entry file is converted to. -/
structure Compiled (place : Place) (s : Session) (root : String) where
  sound : s.Sound place
  definitions : List Definition
  entry : Module
  /-- How many names were generated before. -/
  start : Nat
  seen : List String
  walk : Walk (s.importTargets place) [root] ([], [])
    (seen, definitions.map Definition.path ++ [root])
  names_eq : definitions.map Definition.name =
    (List.range' (start + 1) definitions.length).map generatedName
  converted : ∀ d ∈ definitions, Converted place s (definitions.map Definition.key)
    (start + definitions.length) d.path d.module
  entry_converted : Converted place s (definitions.map Definition.key)
    (start + definitions.length) root entry

/-- The statements of a program. -/
def Compiled.output {place : Place} {s : Session} {root : String} (p : Compiled place s root) :
    List AiScript.Node :=
  p.definitions.map Definition.node ++ (p.entry.statements ++ p.entry.table)

/-- A program is compiled from the files that it is loaded with. -/
theorem convertProgram_compiled {place : Place} (hplace : place.WellFormed) {s s' : Session}
    (hs : s.known = []) {entry : String} {output : List AiScript.Node}
    (h : convertProgram defaultCapabilities entry place s = .ok output s') :
    ∃ p : Compiled place s' (Path.absolute place.workingDirectory entry), output = p.output ∧
      ∃ ids s₁, loadProgram entry place s = .ok ids s₁ ∧ s₁.Converts s' := by
  unfold convertProgram at h
  obtain ⟨ids, s₁, h₁, h⟩ := bind_ok h
  have hloaded := loading_ok h₁
  obtain ⟨hsound, hlists, seen, hwalk⟩ :=
    loadProgram_ok hplace (Session.sound_of_known_nil hs) hloaded
  obtain ⟨hnodup, -, hlast, -⟩ := hwalk.order_spec
  obtain rfl | ⟨rest, last, rfl⟩ := List.eq_nil_or_concat' ids
  · cases hlast
  have hnames : s₁.names (rest ++ [last]) =
      s₁.names rest ++ [(s₁.program.file last).source.fileName] := List.map_append
  rw [hnames] at hnodup hlast hwalk
  have hroot := Option.some_inj.mp (List.getLast?_concat.symm.trans hlast)
  obtain ⟨hrest, hentry⟩ := List.forall_mem_append.mp hlists
  rw [List.dropLast_concat, List.getLast?_concat] at h
  obtain ⟨names, s₂, h₂, h⟩ := bind_ok h
  obtain ⟨hpaths, htexts, hs₂⟩ := nameFiles_ok h₂
  have hnamed : s₁.Converts s₂ := hs₂ ▸ ⟨rfl, rfl, Nat.le_add_right _ _⟩
  have hleast : s₁.generated + rest.length ≤ s₂.generated := Nat.le_of_eq (hs₂ ▸ rfl)
  obtain ⟨nodes, s₃, h₃, h⟩ := bind_ok h
  obtain ⟨hs₃, definitions, rfl, hkeys, hall⟩ :=
    mapM_convertImported_ok hleast (hnamed.lists hrest) h₃
  obtain ⟨statements, s₄, h₄, h⟩ := bind_ok h
  obtain ⟨hs₄, m, rfl, hm⟩ := convertEntry_ok (hleast.trans hs₃.generated)
    ((hnamed.trans hs₃).lists hentry) h₄
  obtain ⟨_, s₅, h₅, h⟩ := bind_ok h
  have hlater : s₄.Converts s₅ := by
    cases loading_ok h₅
    exact ⟨rfl, rfl, Nat.le_refl _⟩
  cases h
  -- The files of the last session are those that were loaded.
  have hall₃ := hs₃.trans (hs₄.trans hlater)
  have hall₁ := hnamed.trans hall₃
  have hentries : definitions.map Definition.key = names := by
    rw [hkeys, Session.names, hnamed.program]
    exact map_lookup_names hpaths (List.nodup_append.mp hnodup).1
  have hlength : definitions.length = rest.length := by
    rw [← List.length_map Definition.key, hentries, ← List.length_map Prod.snd, htexts,
      List.length_map, List.length_range']
  have hpath : definitions.map Definition.path = s₁.names rest := by
    rw [← hpaths, ← hentries, List.map_map]
    rfl
  have hname : definitions.map Definition.name = names.map Prod.snd := by
    rw [← hentries, List.map_map]
    rfl
  rw [hroot, ← hpath, ← hall₁.importTargets] at hwalk
  rw [← hname, ← hlength] at htexts
  rw [(hnamed.trans hs₃).program, hroot] at hm
  have hlast := Session.Follows.of_eq hsound hall₁.known (congrArg _ hall₁.program)
  refine ⟨⟨hlast.sound, definitions, m, s₁.generated, seen, hwalk, htexts, ?_, ?_⟩, rfl, _, s₁,
    hloaded, hall₁⟩
  · rw [hentries, hlength]
    exact fun d hd => hall₃.converted_iff.mpr (hall d hd)
  · rw [hentries, hlength]
    exact (hs₄.trans hlater).converted_iff.mpr hm

end ScriptBridge
