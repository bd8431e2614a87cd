import ScriptBridge.Project.Compile
import ScriptBridge.Proofs.Conversion.Results

/-!
# Where the statements of a module come from

A text that is compiled on its own is parsed, bound and converted. Binding leaves the tree alone, so
what is converted is what the parser read.

* `bindText_source`, `Program.add_source`: binding keeps the tree.
* `convertFile_ok`: what the conversion of a file leaves.
* `convertText_ok`: the module of a text is the conversion of its statements.
-/

namespace ScriptBridge

open Binding TypeScript Conversion

theorem estate_bind_ok {ε σ α β : Type} {m : EStateM ε σ α} {f : α → EStateM ε σ β} {s s' : σ}
    {b : β} (h : (m >>= f) s = .ok b s') : ∃ a s₁, m s = .ok a s₁ ∧ f a s₁ = .ok b s' := by
  simp only [Bind.bind, EStateM.bind] at h
  split at h
  · exact ⟨_, _, ‹_›, h⟩
  · cases h

/-- Binding a file keeps its tree. -/
theorem bindFile_source {source : SourceFile} {parent : Option ScopeId} {b b' : Bindings}
    {file : BoundFile} (h : bindFile source parent b = .ok file b') : file.source = source := by
  unfold bindFile at h
  obtain ⟨_, _, -, h⟩ := estate_bind_ok h
  obtain ⟨_, _, -, h⟩ := estate_bind_ok h
  obtain ⟨_, _, -, h⟩ := estate_bind_ok h
  obtain ⟨_, _, -, h⟩ := estate_bind_ok h
  obtain ⟨exports, _, -, h⟩ := estate_bind_ok h
  obtain ⟨_, _, -, h⟩ := estate_bind_ok h
  cases h
  rfl

theorem bindText_source {firstId nextId : Nat} {b b' : Bindings} {fileName text : String}
    {file : BoundFile} (h : bindText firstId b fileName text = .ok (file, b', nextId)) :
    parseFrom firstId fileName text = .ok (file.source, nextId) := by
  unfold bindText at h
  split at h
  · cases h
  · rename_i source next hp
    split at h
    · rename_i bound b₁ hb
      cases h
      rw [hp, bindFile_source hb]
    · cases h

/-- A program with one more text has its tree at the number that is given back. -/
theorem Program.add_source {p p' : Program} {id : FileId} {fileName text : String}
    (h : p.add fileName text = .ok (p', id)) :
    parseFrom p.nextId fileName text = .ok ((p'.file id).source, p'.nextId) := by
  unfold Program.add at h
  cases hb : bindText p.nextId p.bindings fileName text with
  | error fault => rw [hb] at h; cases h
  | ok r =>
    obtain ⟨file, b, next⟩ := r
    rw [hb] at h
    cases h
    simpa [Program.file] using bindText_source hb

theorem parseText_source {fileName text : String} {place : Place} {s s' : Session} {id : FileId}
    (h : parseText fileName text place s = .ok id s') :
    parseFrom s.program.nextId fileName text =
      .ok ((s'.program.file id).source, s'.program.nextId) := by
  unfold parseText at h
  obtain ⟨_, _, h₁, h⟩ := bind_ok h
  cases h₁
  cases ha : s.program.add fileName text with
  | error fault => simp only [ha] at h; cases h
  | ok r =>
    simp only [ha] at h
    cases h
    exact Program.add_source ha

theorem loading_ok {α : Type} {action : LoadM α} {place : Place} {s s' : Session} {a : α}
    (h : loading action place s = .ok a s') : action place s = .ok a s' := by
  unfold loading at h
  split at h
  · rename_i ha
    cases h
    exact ha
  · cases h

/-- A conversion within a compilation starts without exports, and leaves what the oracle remembers
and how many names were generated. -/
theorem converting_ok {α : Type} {fileName : String}
    {moduleName : String → Span → Except ModuleFault String} {action : ConvertM α} {place : Place}
    {s s' : Session} {a : α} (h : converting fileName moduleName action place s = .ok a s') :
    ∃ after, action { program := s.program, fileName, moduleName }
        { memory := s.memory, generated := s.generated } = .ok a after ∧
      s' = { s with memory := after.memory, generated := after.generated } := by
  unfold converting at h
  obtain ⟨_, _, h₁, h⟩ := bind_ok h
  cases h₁
  cases ha : action { program := s.program, fileName, moduleName }
      { memory := s.memory, generated := s.generated } with
  | error fault after => simp only [ha] at h; cases h
  | ok r after =>
    simp only [ha] at h
    cases h
    exact ⟨after, rfl, rfl⟩

/-- A converted file is the conversion of its statements; the files stay as they are. -/
theorem convertFile_ok {caps : List Capability}
    {moduleName : String → Span → Except ModuleFault String} {id : FileId} {place : Place}
    {s s' : Session} {m : Module} (h : convertFile caps moduleName id place s = .ok m s') :
    ∃ after, Module.convert caps (s.program.file id).source.statements
        { program := s.program, fileName := (s.program.file id).source.fileName, moduleName }
        { memory := s.memory, generated := s.generated } = .ok m after ∧
      ∃ events, s' = { s with memory := after.memory, generated := after.generated, events } := by
  unfold convertFile at h
  obtain ⟨_, _, h₁, h⟩ := bind_ok h
  cases h₁
  obtain ⟨_, _, h₂, h⟩ := bind_ok h
  obtain ⟨_, _, h₃, h⟩ := bind_ok h
  obtain ⟨_, _, h₄, h⟩ := bind_ok h
  cases h₂
  cases h₄
  cases h
  obtain ⟨after, hc, rfl⟩ := converting_ok h₃
  exact ⟨after, hc, _, rfl⟩

/-- The module of a text is the conversion of the statements that are read from it, with what the
oracle remembers at its end. -/
theorem convertText_run {caps : List Capability} {fileName text : String} {place : Place}
    {s s' : Session} {m : Module} (h : convertText caps fileName text place s = .ok m s') :
    ∃ file nextId, parseFrom s.program.nextId fileName text = .ok (file, nextId) ∧
      ∃ context progress after, progress.exports = [] ∧
        Module.convert caps file.statements context progress = .ok m after ∧
        s'.memory = after.memory := by
  unfold convertText at h
  obtain ⟨id, s₁, h₁, h⟩ := bind_ok h
  obtain ⟨after, hc, events, rfl⟩ := convertFile_ok h
  exact ⟨_, _, parseText_source (loading_ok h₁), _, _, after, rfl, hc, rfl⟩

/-- The module of a text is the conversion of the statements that are read from it. -/
theorem convertText_ok {caps : List Capability} {fileName text : String} {place : Place}
    {s s' : Session} {m : Module} (h : convertText caps fileName text place s = .ok m s') :
    ∃ file nextId, parseFrom s.program.nextId fileName text = .ok (file, nextId) ∧
      ∃ context progress after, progress.exports = [] ∧
        Module.convert caps file.statements context progress = .ok m after := by
  obtain ⟨file, nextId, hp, context, progress, after, he, hc, -⟩ := convertText_run h
  exact ⟨file, nextId, hp, context, progress, after, he, hc⟩

end ScriptBridge
