/-!
# Source maps

A `SourceMap` says which statement of which file each line of a combined text came from. Entries are in
the order of their lines.

* `SourceMap.add`: one more entry, not before the last one.
* `SourceMap.lookup?`: the entry of the statement that a line belongs to.
* `SourceMap.origin?`: the file and line that a line came from.
-/

namespace ScriptBridge

/-- Where a statement of a combined text came from. -/
structure MapEntry where
  /-- The line where the statement starts, counted from zero. -/
  bundledLine : Nat
  file : String
  line : Nat
  col : Nat
  /-- The name of the form of the statement. -/
  statement : Option String := none
deriving DecidableEq, Repr, Inhabited

/-- The line that a line of the combined text, counted from one, came from. -/
def MapEntry.originLine (e : MapEntry) (line : Nat) : Nat :=
  e.line + (line - e.bundledLine) - 1

/-- The entries of a combined text. -/
structure SourceMap where
  entries : Array MapEntry := #[]
deriving Inhabited

namespace SourceMap

/-- One more entry; `none` if it starts before the last one. -/
def add (m : SourceMap) (e : MapEntry) : Option SourceMap :=
  match m.entries.back? with
  | some last => if e.bundledLine < last.bundledLine then none else some ⟨m.entries.push e⟩
  | none => some ⟨m.entries.push e⟩

/-- The entry of the statement that a line, counted from one, belongs to. -/
def lookup? (m : SourceMap) (line : Nat) : Option MapEntry :=
  (m.entries.toList.takeWhile (·.bundledLine < line)).getLast?

/-- The file, line and column that a line, counted from one, came from. -/
def origin? (m : SourceMap) (line : Nat) : Option (String × Nat × Nat) :=
  (m.lookup? line).map fun e => (e.file, e.originLine line, e.col)

/-- How many entries there are. -/
def size (m : SourceMap) : Nat :=
  m.entries.size

end SourceMap

end ScriptBridge
