import Mathlib.Data.Finset.Card
import ScriptBridge.Bundle.Bundle
import ScriptBridge.Proofs.Project.Loading

/-!
# Discovery and the order of modules

A bundle finds its modules in the way in which a program is loaded, but it keeps them in the order in
which they are found, with what their imports stand for, and puts them into order later. All three are
the same walk over imports.

* `discoverFrom_visits`: modules are found as a program visits them.
* `Finds`: what a step of discovery adds. Every module that it adds is `Settled`.
* `State.processingOrder_eq`: the order is that of the walk over what was found.
* `processingOrder_spec`: what the order of a bundle is.
-/

namespace ScriptBridge.Bundle

open Binding TypeScript Conversion

/-- The paths of the modules, in the order of discovery. -/
def State.paths (s : State) : List String :=
  s.modules.map Prod.fst

/-! ## Steps -/

/-- Finds what the modules that a file imports stand for. -/
def discoverImports (n : Nat) (path importer : String) (modules : List (String × Node)) :
    BundleM Unit :=
  modules.forM fun (specifier, decl) => do
    let target ← reading (resolveImport importer specifier decl.span)
    modify fun s => { s with resolved := s.resolved ++ [((path, specifier), target)] }
    discoverFrom n target

theorem reading_ok {α : Type} {action : LoadM α} {place : Place} {s s' : State} {a : α}
    (h : reading action place s = .ok a s') :
    action place s.session = .ok a s'.session ∧ s' = { s with session := s'.session } := by
  unfold reading running at h
  split at h
  · rename_i hrun
    cases h
    exact ⟨loading_ok hrun, rfl⟩
  · cases h

/-- Exports are only looked at. -/
theorem checkExports_ok {file : BoundFile} {place : Place} {s s' : State}
    (h : checkExports file place s = .ok () s') : s' = s := by
  unfold checkExports at h
  generalize file.source.statements = statements at h
  induction statements generalizing s with
  | nil => cases h; rfl
  | cons n statements ih =>
    obtain ⟨_, s₁, hcheck, h⟩ := bind_ok h
    have hs₁ : s₁ = s := by
      dsimp only at hcheck
      split at hcheck <;> cases hcheck <;> rfl
    exact ih (hs₁ ▸ h)

/-- A module that was found is left alone. A new one is read and put at the end, and then what it
imports is found and it is linked. -/
theorem discoverFrom_cases {n : Nat} {path : String} {place : Place} {s s' : State}
    (h : discoverFrom (n + 1) path place s = .ok () s') :
    (path ∈ s.paths ∧ s' = s) ∨
    (path ∉ s.paths ∧ ∃ id session s₁, load path place s.session = .ok id session ∧
      discoverImports n path (session.program.file id).source.fileName
        (moduleSpecifiers (session.program.file id).source) place
        { s with
          session
          modules := s.modules ++
            [(path, .ofFile session.program.bindings (session.program.file id))] } = .ok () s₁ ∧
      link id place s₁.session = .ok () s'.session ∧ s' = { s₁ with session := s'.session }) := by
  unfold discoverFrom at h
  obtain ⟨_, _, hget, h⟩ := bind_ok h
  cases hget
  by_cases hfound : (s.modules.lookup path).isSome
  · simp only [hfound, if_true] at h
    cases h
    exact .inl ⟨Assoc.isSome_lookup_iff.mp hfound, rfl⟩
  · refine .inr ⟨fun hpath => hfound (Assoc.isSome_lookup_iff.mpr hpath), ?_⟩
    simp only [hfound] at h
    obtain ⟨id, s₀, hload, h⟩ := bind_ok h
    obtain ⟨hload, hs₀⟩ := reading_ok hload
    obtain ⟨file, _, hfile, h⟩ := bind_ok h
    cases hfile
    obtain ⟨_, _, hcheck, h⟩ := bind_ok h
    rw [checkExports_ok hcheck] at h
    obtain ⟨_, _, hrecord, h⟩ := bind_ok h
    cases hrecord
    obtain ⟨_, s₁, himports, h⟩ := bind_ok h
    obtain ⟨hlink, hs'⟩ := reading_ok h
    refine ⟨id, s₀.session, s₁, hload, ?_, hlink, hs'⟩
    rw [hs₀] at himports
    exact himports

theorem discoverImports_cons {n : Nat} {path importer specifier : String} {decl : Node}
    {modules : List (String × Node)} {place : Place} {s s' : State}
    (h : discoverImports n path importer ((specifier, decl) :: modules) place s = .ok () s') :
    ∃ target s₁, modulePath? place importer specifier = some target ∧
      discoverFrom n target place
        { s with resolved := s.resolved ++ [((path, specifier), target)] } = .ok () s₁ ∧
      discoverImports n path importer modules place s₁ = .ok () s' := by
  obtain ⟨_, s₁, hstep, h⟩ := bind_ok h
  obtain ⟨target, s₀, hresolve, hstep⟩ := bind_ok hstep
  obtain ⟨hresolve, hs₀⟩ := reading_ok hresolve
  obtain ⟨hsession, htarget⟩ := resolveImport_ok hresolve
  rw [hsession] at hs₀
  obtain ⟨_, _, hmodify, hstep⟩ := bind_ok hstep
  cases hmodify
  rw [hs₀] at hstep
  exact ⟨target, s₁, htarget, hstep, h⟩

/-! ## Discovery and loading -/

/-- The imports of a file are found as they are visited. -/
theorem discoverImports_visits {n : Nat} {path importer : String} {place : Place}
    {modules : List (String × Node)} {s s' : State}
    (hvisit : ∀ {path s s'}, discoverFrom n path place s = .ok () s' → ∀ order,
      ∃ order', visitModule n (s.paths.reverse, order) path place s.session =
        .ok (s'.paths.reverse, order') s'.session)
    (h : discoverImports n path importer modules place s = .ok () s') (order : List FileId) :
    ∃ order', (modules.foldlM (fun visited (specifier, decl) => do
      visitModule n visited (← resolveImport importer specifier decl.span))
        (s.paths.reverse, order) : LoadM (List String × List FileId)) place s.session =
      .ok (s'.paths.reverse, order') s'.session := by
  induction modules generalizing s order with
  | nil => cases h; exact ⟨order, rfl⟩
  | cons m modules ih =>
    obtain ⟨specifier, decl⟩ := m
    obtain ⟨target, s₁, htarget, hfind, hrest⟩ := discoverImports_cons h
    obtain ⟨order₁, hfirst⟩ := hvisit hfind order
    obtain ⟨order₂, hothers⟩ := ih hrest order₁
    refine ⟨order₂, ?_⟩
    have hstep := (bind_of_ok (resolveImport_of_modulePath? htarget decl.span _)
      fun target => visitModule n (s.paths.reverse, order) target).trans hfirst
    rw [List.foldlM_cons, bind_of_ok hstep]
    exact hothers

/-- Modules are found as a program visits them: what was found is what was seen. -/
theorem discoverFrom_visits {n : Nat} {path : String} {place : Place} {s s' : State}
    (h : discoverFrom n path place s = .ok () s') (order : List FileId) :
    ∃ order', visitModule n (s.paths.reverse, order) path place s.session =
      .ok (s'.paths.reverse, order') s'.session := by
  induction n generalizing path s s' order with
  | zero => cases h
  | succ n ih =>
    rcases discoverFrom_cases h with ⟨hfound, rfl⟩ | ⟨hnew, id, session, s₁, hload, hfind, hlink, hs'⟩
    · refine ⟨order, ?_⟩
      simp only [visitModule, List.contains_iff_mem, List.mem_reverse, hfound, if_true]
      rfl
    · obtain ⟨order₁, hvisits⟩ := discoverImports_visits ih hfind order
      refine ⟨order₁ ++ [id], ?_⟩
      have hpaths : s'.paths = s₁.paths := by rw [hs']; rfl
      simp only [visitModule, List.contains_iff_mem, List.mem_reverse, hnew, if_false, hpaths]
      have hfile : fileOf id place session = .ok (session.program.file id) session := rfl
      rw [bind_of_ok hload, bind_of_ok hfile]
      refine (bind_of_ok (?_ : _ = EStateM.Result.ok (s₁.paths.reverse, order₁) s₁.session) _).trans ?_
      · simpa [State.paths] using hvisits
      · rw [bind_of_ok hlink]
        rfl

/-! ## What discovery records -/

/-- What is known of a module that discovery is done with: the modules that its file imports, and a
module for each of them. -/
structure Settled (place : Place) (s : State) (path : String) (record : ModuleRecord) : Prop where
  file : ∃ file, s.session.fileAt? path = some file ∧
    record.dependencies = (moduleSpecifiers file.source).map Prod.fst
  targets : ∀ specifier ∈ record.dependencies, ∃ target,
    s.resolved.lookup (path, specifier) = some target ∧ target ∈ s.paths

/-- Known files are those of the tree, and module names stand for what they were found to. -/
structure State.Sound (place : Place) (s : State) : Prop where
  session : s.session.Sound place
  resolved : ∀ path specifier target, s.resolved.lookup (path, specifier) = some target →
    modulePath? place path specifier = some target

/-- What a step of discovery does: all that is known stays, and every module that comes in is done
with in the end. -/
structure Finds (place : Place) (s s' : State) : Prop where
  sound : s'.Sound place
  session : s.session.Extends s'.session
  modules : ∀ path record, s.modules.lookup path = some record →
    s'.modules.lookup path = some record
  resolved : ∀ key target, s.resolved.lookup key = some target →
    s'.resolved.lookup key = some target
  added : ∀ path record, s'.modules.lookup path = some record →
    s.modules.lookup path = some record ∨ Settled place s' path record

namespace Finds

variable {place : Place} {s s' s'' : State}

theorem paths (h : Finds place s s') {path : String} (hpath : path ∈ s.paths) :
    path ∈ s'.paths := by
  obtain ⟨record, hrecord⟩ := Option.isSome_iff_exists.mp (Assoc.isSome_lookup_iff.mpr hpath)
  exact Assoc.isSome_lookup_iff.mp (h.modules path record hrecord ▸ rfl)

/-- A module that discovery is done with stays so. -/
theorem settled (h : Finds place s s') {path : String} {record : ModuleRecord}
    (hs : Settled place s path record) : Settled place s' path record := by
  obtain ⟨file, hfile, hdependencies⟩ := hs.file
  refine ⟨⟨file, h.session.fileAt? hfile, hdependencies⟩, fun specifier hm => ?_⟩
  obtain ⟨target, htarget, hpath⟩ := hs.targets specifier hm
  exact ⟨target, h.resolved _ _ htarget, h.paths hpath⟩

/-- Steps that only go on with the session. -/
theorem of_follows {session : Session} (hs : s.Sound place)
    (h : s.session.Follows place session) : Finds place s { s with session } :=
  ⟨⟨h.sound, hs.resolved⟩, h.extends_, fun _ _ => id, fun _ _ => id, fun _ _ => .inl⟩

theorem refl (hs : s.Sound place) : Finds place s s :=
  of_follows hs (.refl hs.session)

theorem trans (h : Finds place s s') (h' : Finds place s' s'') : Finds place s s'' := by
  refine ⟨h'.sound, h.session.trans h'.session,
    fun path record hr => h'.modules path record (h.modules path record hr),
    fun key target ht => h'.resolved key target (h.resolved key target ht),
    fun path record hr => ?_⟩
  rcases h'.added path record hr with hr | hs
  · exact (h.added path record hr).imp_right h'.settled
  · exact .inr hs

/-- What a module name stands for is recorded. -/
theorem of_resolved {path specifier target : String} (hs : s.Sound place)
    (htarget : modulePath? place path specifier = some target) :
    Finds place s { s with resolved := s.resolved ++ [((path, specifier), target)] } := by
  refine ⟨⟨hs.session, fun p name t h => ?_⟩, .refl _, fun _ _ => id,
    fun _ _ h => Assoc.lookup_append_of_some h _, fun _ _ => .inl⟩
  dsimp only at h
  rw [List.lookup_append, Assoc.lookup_cons] at h
  cases hold : s.resolved.lookup (p, name) with
  | some found =>
    rw [hold] at h
    cases h
    exact hs.resolved p name t hold
  | none =>
    rw [hold] at h
    split at h
    · rename_i hkey
      cases hkey
      cases h
      exact htarget
    · cases h

end Finds

section
variable {place : Place} (hplace : place.WellFormed)
include hplace

/-- What a file imports is found, and recorded for each of its modules. -/
theorem discoverImports_finds {n : Nat} {path : String} {modules : List (String × Node)}
    {s s' : State} (hs : s.Sound place)
    (hfinds : ∀ {path s s'}, s.Sound place → Path.absolute place.workingDirectory path = path →
      discoverFrom n path place s = .ok () s' → Finds place s s' ∧ path ∈ s'.paths)
    (h : discoverImports n path path modules place s = .ok () s') :
    Finds place s s' ∧ ∀ specifier ∈ modules.map Prod.fst, ∃ target,
      s'.resolved.lookup (path, specifier) = some target ∧ target ∈ s'.paths := by
  induction modules generalizing s with
  | nil => cases h; exact ⟨.refl hs, fun _ => nofun⟩
  | cons m modules ih =>
    obtain ⟨specifier, decl⟩ := m
    obtain ⟨target, s₁, htarget, hfind, hrest⟩ := discoverImports_cons h
    have hresolved := Finds.of_resolved hs htarget
    obtain ⟨hfirst, hpath⟩ := hfinds hresolved.sound
      (hplace.files target (isFile_of_modulePath? htarget)) hfind
    obtain ⟨hothers, hall⟩ := ih hfirst.sound hrest
    -- A name that was recorded before was recorded for the same target.
    have hrecorded : (s.resolved ++ [((path, specifier), target)]).lookup (path, specifier) =
        some target := by
      have hknown : ((s.resolved ++ [((path, specifier), target)]).lookup (path, specifier)).isSome :=
        Assoc.isSome_lookup_iff.mpr (by simp)
      obtain ⟨found, hfound⟩ := Option.isSome_iff_exists.mp hknown
      have htargets := hresolved.sound.resolved path specifier found hfound
      rw [htarget] at htargets
      exact htargets ▸ hfound
    refine ⟨hresolved.trans (hfirst.trans hothers), fun specifier' hm => ?_⟩
    rcases List.mem_cons.mp hm with rfl | hm
    · exact ⟨target, (hfirst.trans hothers).resolved _ _ hrecorded, hothers.paths hpath⟩
    · exact hall specifier' hm

theorem discoverFrom_finds {n : Nat} {path : String} {s s' : State} (hs : s.Sound place)
    (hpath : Path.absolute place.workingDirectory path = path)
    (h : discoverFrom n path place s = .ok () s') : Finds place s s' ∧ path ∈ s'.paths := by
  induction n generalizing path s s' with
  | zero => cases h
  | succ n ih =>
    rcases discoverFrom_cases h with ⟨hfound, rfl⟩ | ⟨hnew, id, session, s₁, hload, hfind, hlink, hs'⟩
    · exact ⟨.refl hs, hfound⟩
    · obtain ⟨hload, hid⟩ := load_ok hs.session hload
      rw [hpath] at hid
      have hname := (hload.sound path id hid).2.1
      have hfile : session.fileAt? path = some (session.program.file id) := by
        rw [Session.fileAt?, hid, Option.map_some]
      generalize hrecord : ModuleRecord.ofFile session.program.bindings (session.program.file id) =
        record at hfind
      have hdependencies : record.dependencies =
          (moduleSpecifiers (session.program.file id).source).map Prod.fst := by
        rw [← hrecord]
        rfl
      rw [hname] at hfind
      have hs₀ : State.Sound place { s with session, modules := s.modules ++ [(path, record)] } :=
        ⟨hload.sound, hs.resolved⟩
      obtain ⟨himports, htargets⟩ := discoverImports_finds hplace hs₀ ih hfind
      have hlink : Finds place s₁ s' := by
        rw [hs']
        exact .of_follows himports.sound (link_ok himports.sound.session hlink)
      have hsettled : Settled place s' path record :=
        hlink.settled ⟨⟨_, himports.session.fileAt? hfile, hdependencies⟩, hdependencies ▸ htargets⟩
      have hlater := himports.trans hlink
      have hlookup : ∀ p, (s.modules ++ [(path, record)]).lookup p =
          if p = path then some record else s.modules.lookup p := by
        intro p
        rw [List.lookup_append, Assoc.lookup_cons]
        split
        · rename_i hp
          have hnone : s.modules.lookup p = none := by
            rw [← Option.not_isSome_iff_eq_none, Assoc.isSome_lookup_iff]
            exact hp ▸ hnew
          rw [hnone, Option.none_or]
        · exact Option.or_none
      refine ⟨⟨hlater.sound, hload.extends_.trans hlater.session, fun p r hr => ?_,
        hlater.resolved, fun p r hr => ?_⟩, ?_⟩
      · exact hlater.modules p r (Assoc.lookup_append_of_some hr _)
      · refine (hlater.added p r hr).elim (fun hr => ?_) .inr
        dsimp only at hr
        rw [hlookup] at hr
        split at hr
        · rename_i hp
          cases hr
          exact .inr (hp ▸ hsettled)
        · exact .inl hr
      · refine hlater.paths (List.mem_map.mpr ⟨(path, record), ?_, rfl⟩)
        exact List.mem_append_right _ List.mem_cons_self

end

/-! ## The order -/

/-- The modules that a module depends on, as far as they were found. -/
def State.targets (s : State) (path : String) : List String :=
  (((s.modules.lookup path).map (·.dependencies)).getD []).filterMap fun specifier =>
    (s.resolved.lookup (path, specifier)).filter fun t => (s.modules.lookup t).isSome

/-- A module that discovery is done with depends on the files that its file imports. -/
theorem Settled.targets_eq {place : Place} {s : State} {path : String} {record : ModuleRecord}
    (hs : s.Sound place) (hrecord : s.modules.lookup path = some record)
    (h : Settled place s path record) : s.targets path = s.session.importTargets place path := by
  obtain ⟨file, hfile, hdependencies⟩ := h.file
  have hname : file.source.fileName = path := by
    obtain ⟨id, hid, rfl⟩ := Option.map_eq_some_iff.mp hfile
    exact (hs.session path id hid).2.1
  rw [State.targets, hrecord, Option.map_some, Option.getD_some, hdependencies,
    List.filterMap_map, Session.importTargets, hfile]
  refine List.filterMap_congr fun m hm => ?_
  obtain ⟨target, htarget, hpath⟩ := h.targets m.1 (hdependencies ▸ List.mem_map_of_mem hm)
  rw [Function.comp_apply, htarget, hname, hs.resolved _ _ _ htarget]
  exact Option.filter_eq_some_iff.mpr ⟨rfl, Assoc.isSome_lookup_iff.mpr hpath⟩

theorem State.targets_subset (s : State) (path : String) : s.targets path ⊆ s.paths := by
  intro target h
  obtain ⟨specifier, -, h⟩ := List.mem_filterMap.mp h
  exact Assoc.isSome_lookup_iff.mp (Option.filter_eq_some_iff.mp h).2

/-- The modules that were not seen. -/
def State.unseen (s : State) (seen : List String) : Finset String :=
  s.paths.toFinset \ seen.toFinset

theorem State.card_unseen_cons {s : State} {path : String} {seen : List String}
    (hpath : path ∈ s.paths) (hnew : path ∉ seen) :
    (s.unseen (path :: seen)).card < (s.unseen seen).card := by
  refine Finset.card_lt_card ⟨fun u hu => ?_, fun h => ?_⟩
  · simp only [unseen, Finset.mem_sdiff, List.mem_toFinset, List.mem_cons, not_or] at hu ⊢
    exact ⟨hu.1, hu.2.2⟩
  · have hm : path ∈ s.unseen seen := by simp [unseen, hpath, hnew]
    simpa [unseen] using h hm

theorem State.card_unseen_le {s : State} {seen seen' : List String} (h : seen ⊆ seen') :
    (s.unseen seen').card ≤ (s.unseen seen).card := by
  refine Finset.card_le_card fun u hu => ?_
  simp only [unseen, Finset.mem_sdiff, List.mem_toFinset] at hu ⊢
  exact ⟨hu.1, fun hm => hu.2 (h hm)⟩

/-- A module that was seen is left alone. -/
theorem visitInOrder_of_mem {s : State} {n : Nat} {path : String}
    {visited : List String × List String} (h : path ∈ visited.1) :
    visitInOrder s n visited path = visited := by
  cases n with
  | zero => rfl
  | succ n => rw [visitInOrder, if_pos (by simpa using h)]

/-- With more fuel than modules that were not seen, modules are visited as a walk does it. -/
theorem visitInOrder_walk {s : State} {nodes : List String} {before after : List String × List String}
    (h : Walk s.targets nodes before after) {n : Nat} (hnodes : nodes ⊆ s.paths)
    (hn : (s.unseen before.1).card < n) : nodes.foldl (visitInOrder s n) before = after := by
  induction h generalizing n with
  | done => rfl
  | skip hseen _ ih =>
    rw [List.foldl_cons, visitInOrder_of_mem hseen]
    exact ih (List.subset_of_cons_subset hnodes) hn
  | @visit node rest seen order seen' order' after hnew hinner _ ihInner ihOthers =>
    obtain ⟨hnode, hrest⟩ := List.cons_subset.mp hnodes
    have hfewer := s.card_unseen_cons hnode hnew
    have hless : (s.unseen seen').card ≤ (s.unseen (node :: seen)).card :=
      s.card_unseen_le hinner.seen_mono
    dsimp only at hn
    obtain ⟨n, rfl⟩ := Nat.exists_eq_succ_of_ne_zero (Nat.ne_zero_of_lt hn)
    have hvisit : visitInOrder s (n + 1) (seen, order) node = (seen', order' ++ [node]) := by
      have inner := ihInner (n := n) (s.targets_subset node) (by dsimp only; omega)
      rw [State.targets] at inner
      rw [visitInOrder, if_neg (by simpa using hnew)]
      simp only [inner]
    rw [List.foldl_cons, hvisit]
    exact ihOthers hrest (by dsimp only; omega)

theorem processingOrder_eq {s : State} {seen order : List String}
    (h : Walk s.targets s.paths ([], []) (seen, order)) : processingOrder s = order := by
  have hn : (s.unseen []).card < s.paths.length + 1 :=
    Nat.lt_succ_of_le ((Finset.card_le_card Finset.sdiff_subset).trans (List.toFinset_card_le _))
  exact congrArg Prod.snd (visitInOrder_walk h (List.Subset.refl _) hn)

/-! ## Bundles -/

theorem discover_ok {root : String} {place : Place} {s s' : State}
    (h : discover root place s = .ok () s') : ∃ s₁, 
      discoverFrom (place.tree.files.length + 2) root place s = .ok () s₁ ∧
      ∃ events, s' = { s₁ with session := { s₁.session with events } } := by
  unfold discover at h
  obtain ⟨_, _, hread, h⟩ := bind_ok h
  cases hread
  obtain ⟨_, s₁, hfind, h⟩ := bind_ok h
  obtain ⟨_, _, hget, h⟩ := bind_ok h
  cases hget
  cases h
  exact ⟨s₁, hfind, _, rfl⟩

section
variable {place : Place} (hplace : place.WellFormed) {root : String} {session : Session}
  (hnew : session.known = []) (hroot : Path.absolute place.workingDirectory root = root)
include hplace hnew hroot

/-- Discovery from nothing settles all modules that it finds. -/
theorem discover_settled {s : State} (h : discover root place { session } = .ok () s) :
    s.Sound place ∧ ∀ path ∈ s.paths, ∃ record, s.modules.lookup path = some record ∧
      Settled place s path record := by
  obtain ⟨s₁, hfind, events, rfl⟩ := discover_ok h
  have hstart : State.Sound place { session } := ⟨Session.sound_of_known_nil hnew, nofun⟩
  obtain ⟨hfinds, -⟩ := discoverFrom_finds hplace hstart hroot hfind
  have hlast : Session.Follows place s₁.session { s₁.session with events } :=
    .of_eq hfinds.sound.session rfl rfl
  have hall := hfinds.trans (.of_follows hfinds.sound hlast)
  refine ⟨hall.sound, fun path hpath => ?_⟩
  obtain ⟨record, hrecord⟩ := Option.isSome_iff_exists.mp (Assoc.isSome_lookup_iff.mpr hpath)
  exact ⟨record, hrecord, (hall.added path record hrecord).resolve_left nofun⟩

/-- What discovery finds is what loading the program walks over, in the order of the program. -/
theorem discover_walk {s : State} (h : discover root place { session } = .ok () s) :
    ∃ ids, Walk (s.session.importTargets place) [root] ([], [])
        (s.paths.reverse, s.session.names ids) ∧
      ∃ events, visitModule (place.tree.files.length + 2) ([], []) root place session =
        .ok (s.paths.reverse, ids) { s.session with events } := by
  obtain ⟨s₁, hfind, events, rfl⟩ := discover_ok h
  obtain ⟨ids, hvisit⟩ := discoverFrom_visits hfind []
  have hstart : session.Sound place := Session.sound_of_known_nil hnew
  obtain ⟨hfollows, hwalk⟩ := visitModule_walk hplace hstart hroot hvisit
  have hlast : Session.Follows place s₁.session { s₁.session with events } :=
    .of_eq hfollows.sound rfl rfl
  exact ⟨ids, hwalk _ hlast.extends_, s₁.session.events, hvisit⟩

/-- Modules are put into the order in which the program has its files. -/
theorem processingOrder_of_walk {s : State} {order : List String}
    (h : discover root place { session } = .ok () s)
    (hwalk : Walk (s.session.importTargets place) [root] ([], []) (s.paths.reverse, order)) :
    processingOrder s = order := by
  obtain ⟨hsound, hsettled⟩ := discover_settled hplace hnew hroot h
  have hrecorded : Walk s.targets [root] ([], []) (s.paths.reverse, order) := by
    refine hwalk.congr fun path hpath => ?_
    obtain ⟨record, hrecord, hs⟩ := hsettled path (List.mem_reverse.mp hpath)
    exact (hs.targets_eq hsound hrecord).symm
  -- The entry is the first module that was found, and all others are seen from it.
  obtain ⟨rest, hrest⟩ : [root] <+: s.paths := List.reverse_suffix.mp hrecorded.singleton_suffix
  have hall : Walk s.targets rest (s.paths.reverse, order) (s.paths.reverse, order) :=
    .skip_all fun path hpath => by simp [← hrest, hpath]
  exact processingOrder_eq (hrest ▸ hrecorded.append hall)

end

/-- The order of a bundle lists the files that the entry leads to through import declarations, each
once and the entry last, and a file behind those it imports unless they lead back to it. Every one of
them is what the text at its path reads as, and they are the files of the program, in its order. -/
theorem processingOrder_spec {place : Place} (hplace : place.WellFormed) {entry : String}
    {session : Session} (hnew : session.known = []) {s : State}
    (h : discover (Path.absolute place.workingDirectory entry) place { session } = .ok () s) :
    (processingOrder s).Nodup ∧
    (∀ path, path ∈ processingOrder s ↔
      s.session.Reaches place (Path.absolute place.workingDirectory entry) path) ∧
    (processingOrder s).getLast? = some (Path.absolute place.workingDirectory entry) ∧
    (∀ importer ∈ processingOrder s, ∀ path, s.session.Imports place importer path →
      ¬ s.session.Reaches place path importer →
        [path, importer].Sublist (processingOrder s)) ∧
    (∀ path ∈ processingOrder s, ∃ file, s.session.fileAt? path = some file ∧
      ReadsAs place path file.source) ∧
    ∃ ids after, loadProgram entry place session = .ok ids after ∧
      after.names ids = processingOrder s := by
  have hroot := Path.absolute_absolute hplace.directory entry
  obtain ⟨ids, hwalk, events, hvisit⟩ := discover_walk hplace hnew hroot h
  obtain ⟨hsound, hsettled⟩ := discover_settled hplace hnew hroot h
  obtain ⟨hnodup, hmem, hlast, hsorted⟩ := hwalk.order_spec
  rw [Session.leads_importTargets] at hmem hsorted
  rw [processingOrder_of_walk hplace hnew hroot h hwalk]
  refine ⟨hnodup, hmem, hlast, fun importer hi path hp => ?_, fun path hpath => ?_, ?_⟩
  · exact hsorted importer hi path (Session.mem_importTargets.mpr hp)
  · have hfound := List.mem_reverse.mp (hwalk.mem_order_iff.mp hpath)
    obtain ⟨record, -, ⟨file, hfile, -⟩, -⟩ := hsettled path hfound
    obtain ⟨id, hid, rfl⟩ := Option.map_eq_some_iff.mp hfile
    exact ⟨_, hfile, (hsound.session path id hid).2.2⟩
  · refine ⟨ids, { s.session with events := events.push (.loadedProgram ids.length entry) }, ?_, rfl⟩
    have hplaceOf : placeOf entry place session =
        .ok (Path.absolute place.workingDirectory entry) session := rfl
    have hread : (read : LoadM Place) place session = .ok place session := rfl
    rw [loadProgram, bind_of_ok hread, bind_of_ok hplaceOf, bind_of_ok hvisit]
    rfl

/-- An entry file that imports a file in a cycle of two. -/
def cyclicPlace : Place where
  tree :=
    { root := "/"
      files := [("/a", "import \"./b\"".toUTF8), ("/b", "import \"./a\"".toUTF8),
        ("/main", "import \"./a\"".toUTF8)] }
  workingDirectory := "/"
  root := "/"

theorem cyclicPlace_wellFormed : cyclicPlace.WellFormed where
  directory := by decide +kernel
  files path h := by
    obtain rfl | rfl | rfl : path = "/a" ∨ path = "/b" ∨ path = "/main" := by
      simpa [FileTree.isFile, Assoc.isSome_lookup_iff, cyclicPlace] using h
    all_goals decide +kernel

/-- The files of a cycle come before an entry that imports it. -/
theorem processingOrder_cycle : ∃ s,
    discover (Path.absolute "/" "main") cyclicPlace { session := default } = .ok () s ∧
    processingOrder s = ["/b", "/a", "/main"] ∧ s.session.Reaches cyclicPlace "/main" "/b" ∧
    ∃ ids after, loadProgram "main" cyclicPlace default = .ok ids after ∧
      after.names ids = ["/b", "/a", "/main"] := by
  have hrun : endsWith (discover (Path.absolute "/" "main") cyclicPlace { session := default })
      (fun _ s => processingOrder s == ["/b", "/a", "/main"]) = true := by
    decide +kernel
  have hentry : Path.absolute cyclicPlace.workingDirectory "main" = "/main" := by decide +kernel
  obtain ⟨_, s, hs, horder⟩ := endsWith_iff.mp hrun
  have horder := beq_iff_eq.mp horder
  obtain ⟨-, hmem, -, -, -, ids, after, hload, hnames⟩ :=
    processingOrder_spec cyclicPlace_wellFormed rfl hs
  rw [horder, hentry] at hmem
  exact ⟨s, hs, horder, (hmem "/b").mp List.mem_cons_self, ids, after, hload, hnames.trans horder⟩

end ScriptBridge.Bundle
