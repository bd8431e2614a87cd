import ScriptBridge.Proofs.Project.Compiled

/-!
# Modules are defined before they are used

The definition of an imported module refers to modules that its file imports. They are defined before
it, unless they lead back to the file through imports: then there is no such order. A file says itself
what it imports if its statements import all modules that any of its parts imports, and if it has no
name that is spelled like a generated one.

* `SourceFile.SaysImports`: such files.
* `Compiled.importing`: the setting in which a file is converted that refers to what it imports.
* `convertProgram_ordered`: the order of the definitions of a program.
-/

namespace ScriptBridge

open Binding TypeScript Conversion

/-! ## Names in modules -/

theorem importedName_ok {place : Place} {names : List (String × String)}
    {importer specifier name : String} {span : Span}
    (h : importedName place names importer specifier span = .ok name) :
    ∃ path, modulePath? place importer specifier = some path ∧ names.lookup path = some name := by
  unfold importedName resolveModule at h
  cases hpath : modulePath? place importer specifier with
  | none => rw [hpath] at h; cases h
  | some path =>
    rw [hpath] at h
    refine ⟨path, rfl, ?_⟩
    cases hname : names.lookup path with
    | none => simp only [bind, Except.bind, hname] at h; cases h
    | some found => simp only [bind, Except.bind, hname] at h; cases h; rfl

/-- A definition refers to what its statements refer to, and to the locals that it exports. -/
theorem Definition.mem_names_node {d : Definition} {name : String} : name ∈ d.node.names ↔
    name ∈ AiScript.namesAll d.module.statements ∨ ∃ e ∈ d.module.exports, e.2 = name := by
  have hentries (table : List (String × String)) : AiScript.namesEntries
      (table.map fun e => (e.1, .ident {} e.2)) = table.map Prod.snd := by
    induction table with
    | nil => rfl
    | cons e table ih => exact congrArg (e.2 :: ·) ih
  have htable : AiScript.namesAll d.module.table = d.module.exports.map Prod.snd := by
    unfold Module.table
    split
    · rename_i h
      rw [List.isEmpty_iff.mp h]
      rfl
    · exact (List.append_nil _).trans (hentries _)
  have hnode : d.node.names = AiScript.namesAll (d.module.statements ++ d.module.table) := rfl
  rw [hnode, AiScript.namesAll_append, htable, List.mem_append, List.mem_map]

/-! ## Files that say what they import -/

/-- A node that is not spelled like a generated name, and imports nothing but modules that the
statements of a file import. -/
def TypeScript.SourceFile.Says (file : SourceFile) : Node → Prop
  | .ident i => ∀ n, i.name ≠ generatedName n
  | .importDeclaration _ _ _ specifier => specifier ∈ (moduleSpecifiers file).map Prod.fst
  | _ => True

/-- A file without generated names whose statements import all that is imported anywhere in it. -/
def TypeScript.SourceFile.SaysImports (file : SourceFile) : Prop :=
  ∀ s ∈ file.statements, ∀ n ∈ s.preorder, file.Says n

/-- Whether a file says what it imports, as far as its names show by how they start. -/
def TypeScript.SourceFile.saysImports (file : SourceFile) : Bool :=
  file.statements.all fun s => s.preorder.all fun
    | .ident i => i.name.toList.head? != some '_'
    | .importDeclaration _ _ _ specifier => ((moduleSpecifiers file).map Prod.fst).contains specifier
    | _ => true

theorem TypeScript.SourceFile.saysImports_of_check {file : SourceFile}
    (h : file.saysImports = true) : file.SaysImports := by
  intro s hs n hn
  have hcheck := List.all_eq_true.mp (List.all_eq_true.mp h s hs) n hn
  cases n with
  | ident i =>
    rintro k hk
    obtain ⟨digits, -, htext⟩ := toList_generatedName k
    have hhead : i.name.toList.head? = some '_' := by
      rw [hk, htext]
      rfl
    exact absurd hhead (bne_iff_ne.mp hcheck)
  | importDeclaration => exact List.contains_iff_mem.mp hcheck
  | _ => trivial

theorem TypeScript.SourceFile.says_withoutExport {file : SourceFile} {n : Node}
    (h : ∀ k ∈ n.preorder, file.Says k) : ∀ k ∈ (withoutExport n).preorder, file.Says k := by
  intro k hk
  rcases Node.mem_preorder.mp hk with rfl | ⟨m, hm, hk⟩
  · have hn := h n n.mem_preorder_self
    cases n <;> exact hn
  · exact h k (Node.mem_preorder_of_children (Node.mem_children_of_withoutExport hm) hk)

/-! ## Pairs in a list -/

theorem pair_sublist_of_concat {α : Type} {u v last : α} {l : List α} (hv : v ≠ last)
    (h : [u, v].Sublist (l ++ [last])) : [u, v].Sublist l := by
  rw [← List.reverse_sublist, List.reverse_append] at h
  cases h with
  | cons _ h => exact List.reverse_sublist.mp h
  | cons_cons => exact absurd rfl hv

theorem pair_sublist_of_map {α β : Type} {f : α → β} {u v : α} {l : List α}
    (hl : (l.map f).Nodup) (hu : u ∈ l) (hv : v ∈ l) (h : [f u, f v].Sublist (l.map f)) :
    [u, v].Sublist l := by
  obtain ⟨found, hsub, hfound⟩ := List.sublist_map_iff.mp h
  obtain ⟨u', rest, rfl, hfu, hrest⟩ := List.map_eq_cons_iff.mp hfound.symm
  obtain ⟨v', rest, rfl, hfv, hnil⟩ := List.map_eq_cons_iff.mp hrest
  obtain rfl := List.map_eq_nil_iff.mp hnil
  have hmem := hsub.subset
  obtain rfl := List.inj_on_of_nodup_map hl (hmem (by simp)) hu hfu
  obtain rfl := List.inj_on_of_nodup_map hl (hmem (by simp)) hv hfv
  exact hsub

/-! ## What a module refers to -/

namespace Compiled

variable {place : Place} {s : Session} {root : String} (p : Compiled place s root)

theorem name_eq {d : Definition} (hd : d ∈ p.definitions) :
    ∃ n ≤ p.start + p.definitions.length, generatedName n = d.name := by
  have hname := p.names_eq ▸ List.mem_map_of_mem hd
  obtain ⟨n, hn, hname⟩ := List.mem_map.mp hname
  exact ⟨n, by have := List.mem_range'_1.mp hn; omega, hname⟩

theorem names_nodup : (p.definitions.map Definition.name).Nodup := by
  rw [p.names_eq]
  exact (List.nodup_range').map generatedName_injective

/-- A name that stands for a module only if a file imports that module. -/
def Known (path name : String) : Prop :=
  ∀ d ∈ p.definitions, d.name = name → s.Imports place path d.path

/-- The name that is given for an import of a file stands for a module which that file imports. -/
theorem known_importedName {path specifier name : String} {file : BoundFile} {span : Span}
    (hfile : s.fileAt? path = some file)
    (hspec : specifier ∈ (moduleSpecifiers file.source).map Prod.fst)
    (h : importedName place (p.definitions.map Definition.key) path specifier span = .ok name) :
    p.Known path name := by
  intro d hd hname
  obtain ⟨found, hfound, hlookup⟩ := importedName_ok h
  obtain ⟨other, ho, hkey⟩ := List.mem_map.mp (Assoc.mem_of_lookup hlookup)
  obtain ⟨rfl, hsame⟩ := Prod.mk.inj hkey
  obtain rfl := List.inj_on_of_nodup_map p.names_nodup hd ho (hname.trans hsame.symm)
  obtain ⟨id, hid, rfl⟩ := Option.map_eq_some_iff.mp hfile
  obtain ⟨⟨_, decl⟩, hm, rfl⟩ := List.mem_map.mp hspec
  obtain ⟨-, mark, clause, specifierMark, hmem⟩ := exists_mem_importedModules.mp ⟨decl, hm⟩
  refine ⟨_, mark, clause, specifierMark, _, hfile, hmem, ?_⟩
  rw [(p.sound path id hid).2.1]
  exact hfound

/-- The setting in which a file is converted that refers to no modules but those that it imports. -/
def importing {path : String} {file : BoundFile} (hfile : s.fileAt? path = some file) :
    Setting where
  context :=
    { program := s.program
      fileName := path
      moduleName := importedName place (p.definitions.map Definition.key) path }
  steady q := p.start + p.definitions.length ≤ q.generated ∧ ∀ e ∈ q.exports, p.Known path e.2
  known := p.Known path
  fits n := ∀ k ∈ n.preorder, file.source.Says k
  fits_children h m hm k hk := h k (Node.mem_preorder_of_children hm hk)
  fits_withoutExport := SourceFile.says_withoutExport
  known_ident h d hd hname := by
    obtain ⟨n, -, hn⟩ := p.name_eq hd
    exact absurd (hn.trans hname).symm (h _ (Node.mem_preorder_self _) n)
  known_host name h d hd hname := by
    obtain ⟨n, -, hn⟩ := p.name_eq hd
    exact absurd (hn.trans hname).symm (host_ne_generatedName h name n)
  known_module h hname := p.known_importedName hfile (h _ (Node.mem_preorder_self _)) hname
  known_generated hs d hd hname := by
    obtain ⟨n, hle, hn⟩ := p.name_eq hd
    have := generatedName_injective (hn.trans hname)
    have := hs.1
    omega
  steady_generated hs := ⟨Nat.le_succ_of_le hs.1, hs.2⟩
  steady_memory _ hs := hs
  steady_export _ _ _ _ hl hs := ⟨hs.1, Assoc.forall_mem_set hs.2 hl⟩

/-- The modules that a definition refers to are imported by its file. -/
theorem imports_of_mem {d other : Definition} (hd : d ∈ p.definitions)
    (hfiles : ∀ file, s.fileAt? d.path = some file → file.source.SaysImports)
    (hother : other ∈ p.definitions) (hname : other.name ∈ d.node.names) :
    s.Imports place d.path other.path := by
  obtain ⟨file, progress, after, hfile, hnone, hleast, hc⟩ := p.converted d hd
  have hstart : (p.importing hfile).steady progress :=
    ⟨hleast, hnone ▸ List.forall_mem_nil _⟩
  obtain ⟨⟨hlike, -, last, hlast, hexports⟩, -⟩ :=
    (Setting.convert_alike (w := p.importing hfile) exportsFirst_default (hfiles file hfile)).ok
      hstart hc
  have hknown : p.Known d.path other.name := by
    rcases Definition.mem_names_node.mp hname with h | ⟨e, he, h⟩
    · exact hlike.known_of_mem _ h
    · exact h ▸ hlast.2 e (hexports ▸ he)
  exact hknown other hother rfl

theorem order_spec :
    (p.definitions.map Definition.path).Nodup ∧ root ∉ p.definitions.map Definition.path ∧
    (∀ path, path ∈ p.definitions.map Definition.path ↔ path ≠ root ∧ s.Reaches place root path) := by
  obtain ⟨hnodup, hmem, -, -⟩ := p.walk.order_spec
  rw [s.leads_importTargets] at hmem
  obtain ⟨hpaths, -, hdisjoint⟩ := List.nodup_append.mp hnodup
  have hroot : root ∉ p.definitions.map Definition.path := fun h =>
    hdisjoint root h root (List.mem_singleton.mpr rfl) rfl
  refine ⟨hpaths, hroot, fun path => ?_⟩
  rw [← hmem, List.mem_append, List.mem_singleton]
  constructor
  · exact fun h => ⟨fun he => hroot (he ▸ h), .inl h⟩
  · exact fun ⟨hne, h⟩ => h.resolve_right hne

/-- A definition follows those of the modules that its file imports, unless they lead back to it. -/
theorem sublist_of_imports {d other : Definition} (hd : d ∈ p.definitions)
    (hother : other ∈ p.definitions) (h : s.Imports place d.path other.path)
    (hback : ¬ s.Reaches place other.path d.path) : [other, d].Sublist p.definitions := by
  obtain ⟨hnodup, hroot, -⟩ := p.order_spec
  obtain ⟨-, -, -, hsorted⟩ := p.walk.order_spec
  rw [s.leads_importTargets] at hsorted
  have hall := hsorted d.path (List.mem_append_left _ (List.mem_map_of_mem hd)) other.path
    (Session.mem_importTargets.mpr h) hback
  have hne : d.path ≠ root := fun he => hroot (List.mem_map.mpr ⟨d, hd, he⟩)
  exact pair_sublist_of_map hnodup hother hd (pair_sublist_of_concat hne hall)

end Compiled

/-! ## Programs -/

/-- In a program every imported module is defined once, and all definitions stand before the statements
of the entry file. A definition refers only to modules that its file imports, and those are defined
before it unless they lead back to the file. -/
theorem convertProgram_ordered {place : Place} (hplace : place.WellFormed) {s s' : Session}
    (hs : s.known = []) {entry : String} {output : List AiScript.Node}
    (h : convertProgram defaultCapabilities entry place s = .ok output s') :
    ∃ (definitions : List Definition) (rest : List AiScript.Node),
      output = definitions.map Definition.node ++ rest ∧
      (definitions.map Definition.name).Nodup ∧
      (∀ path, path ∈ definitions.map Definition.path ↔
        path ≠ Path.absolute place.workingDirectory entry ∧
          s'.Reaches place (Path.absolute place.workingDirectory entry) path) ∧
      ∀ d ∈ definitions, (∀ file, s'.fileAt? d.path = some file → file.source.SaysImports) →
        ∀ other ∈ definitions, other.name ∈ d.node.names →
          s'.Imports place d.path other.path ∧
            ([other, d].Sublist definitions ∨ s'.Reaches place other.path d.path) := by
  obtain ⟨p, rfl, -⟩ := convertProgram_compiled hplace hs h
  obtain ⟨-, -, hmem⟩ := p.order_spec
  refine ⟨p.definitions, _, rfl, p.names_nodup, hmem, fun d hd hfiles other hother hname => ?_⟩
  have himports := p.imports_of_mem hd hfiles hother hname
  refine ⟨himports, ?_⟩
  by_cases hback : s'.Reaches place other.path d.path
  · exact .inr hback
  · exact .inl (p.sublist_of_imports hd hother himports hback)

/-- A file that imports a file, which imports another one. -/
def chainPlace : Place where
  tree :=
    { root := "/"
      files := [("/a", "import * as b from \"./b\"\nexport default 2".toUTF8),
        ("/b", "export default 1".toUTF8), ("/main", "import * as a from \"./a\"".toUTF8)] }
  workingDirectory := "/"
  root := "/"

theorem chainPlace_wellFormed : chainPlace.WellFormed where
  directory := by decide +kernel
  files path h := by
    obtain rfl | rfl | rfl : path = "/a" ∨ path = "/b" ∨ path = "/main" := by
      simpa [FileTree.isFile, Assoc.isSome_lookup_iff, chainPlace] using h
    all_goals decide +kernel

/-- The second definition refers to the first one, and the entry to the second one. -/
theorem convertProgram_ordered_chain : ∃ output s',
    convertProgram defaultCapabilities "main" chainPlace default = .ok output s' ∧
    output.map AiScript.Node.names =
      [["__gen_00003"], ["__gen_00001", "__gen_00004"], ["__gen_00002"]] ∧
    ∃ (definitions : List Definition) (rest : List AiScript.Node),
      output = definitions.map Definition.node ++ rest ∧
      ∀ d ∈ definitions, ∀ other ∈ definitions, other.name ∈ d.node.names →
        s'.Imports chainPlace d.path other.path ∧
          ([other, d].Sublist definitions ∨ s'.Reaches chainPlace other.path d.path) := by
  have hrun : endsWith (convertProgram defaultCapabilities "main" chainPlace default)
      (fun output s => output.map AiScript.Node.names ==
          [["__gen_00003"], ["__gen_00001", "__gen_00004"], ["__gen_00002"]] &&
        s.known.all fun (_, id) => (s.program.file id).source.saysImports) = true := by
    decide +kernel
  obtain ⟨output, s', hok, htest⟩ := endsWith_iff.mp hrun
  obtain ⟨hnames, hfiles⟩ := Bool.and_eq_true_iff.mp htest
  obtain ⟨definitions, rest, hout, -, -, hordered⟩ :=
    convertProgram_ordered chainPlace_wellFormed rfl hok
  refine ⟨output, s', hok, beq_iff_eq.mp hnames, definitions, rest, hout, fun d hd => ?_⟩
  refine hordered d hd fun file hfile => ?_
  obtain ⟨id, hid, rfl⟩ := Option.map_eq_some_iff.mp hfile
  exact SourceFile.saysImports_of_check (List.all_eq_true.mp hfiles _ (Assoc.mem_of_lookup hid))

end ScriptBridge
