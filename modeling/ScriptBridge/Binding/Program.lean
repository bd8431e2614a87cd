import ScriptBridge.Binding.Ambient

/-!
# Programs

A `Program` is a growing collection of bound files that share the ambient names. Files are numbered in
the order in which they were added; a file that is read again is added again.

* `Program.start`: no files yet.
* `Program.add`: one more file, from its text.
-/

namespace ScriptBridge.Binding

/-- The number of a file. -/
abbrev FileId := Nat

/-- Bound files. -/
structure Program where
  bindings : Bindings
  files : Array BoundFile
  /-- The next free node identity. -/
  nextId : Nat
deriving Inhabited

namespace Program

/-- The program without files. -/
def start : Program :=
  { bindings := ambient.bindings, files := #[], nextId := ambient.nextId }

/-- The file of a number. -/
def file (p : Program) (id : FileId) : BoundFile :=
  (p.files[id]?).getD default

/-- Reads and binds a text and adds it as a file. -/
def add (p : Program) (fileName text : String) : Except TextFault (Program × FileId) := do
  let (file, bindings, nextId) ← bindText p.nextId p.bindings fileName text
  return ({ bindings, files := p.files.push file, nextId }, p.files.size)

/-- What a node refers to once import links are followed. -/
def origin? (p : Program) (nodeId : Nat) : Option Target :=
  (p.bindings.symbolOf? nodeId).map p.bindings.resolve

end Program

end ScriptBridge.Binding
