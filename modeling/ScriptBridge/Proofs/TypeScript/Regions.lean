import ScriptBridge.Data.Outcome
import ScriptBridge.Proofs.TypeScript.GatherStatements

/-!
# The regions in a parsed file

In every text that parses, the statements follow each other in the region of the file, and each node
holds its children, which have nothing in common. Two kinds of places are apart. Operators that are words,
spread properties and handlers take their region when the operand or the block is still to be read, and end
before it. The accesses in the head of a `new` expression or a type query start with its first word, not
with their operand.

* `SourceFile.Nested`: how the regions of a file lie.
* `parseFrom_nested`: every text that parses.
-/

namespace ScriptBridge.TypeScript

open ScriptBridge.TypeScript.Parser

/-- The regions in a file: statements follow each other inside the file, every node holds its children or
ends before the last one, and a node built around a left operand starts with it or with the first word of
a head that the node is in. -/
structure SourceFile.Nested (file : SourceFile) : Prop where
  order : file.statements.Pairwise fun a b => a.span.stop ≤ b.span.start
  inside : ∀ statement ∈ file.statements, statement.span.Inside file.span
  nests : ∀ statement ∈ file.statements, ∀ n ∈ statement.preorder, n.Nests
  starts : ∀ statement ∈ file.statements, ∀ n ∈ statement.preorder, ∀ e ∈ n.leftOperand?,
    n.span.start = e.span.start ∨
      ∃ q ∈ statement.preorder, n ∈ q.headAccesses ∧ n.span.start = q.span.start

section
variable {r : Rules} {s : ParserState} {fileName text : String}

theorem collects_statementsToEnd (h : r.Gathering) (n : Nat) :
    Collects false (statementsToEnd r n) fun ns => ns := by
  induction n with
  | zero => exact fun _ _ => answers_throw _
  | succ n ih =>
    intro s hs
    have g := Gathered.begin hs
    refine .current (.ite (answers_pure g) (g.read h.statement fun _ _ _ g => ?_))
    exact g.read ih fun _ _ _ g => answers_pure g.forget

/-- What has been gathered between the ends of a file is nested. -/
theorem nested_of_laid {file : SourceFile}
    (h : Laid none file.span.start file.span.stop file.statements) : file.Nested where
  order := h.order
  inside statement hs := ⟨(h.within statement hs).1, (h.within statement hs).2⟩
  nests statement hs n hn := ((h.placed statement hs).of_mem_preorder hn).1
  starts statement hs n hn e he := by
    obtain hstart | hhead | ⟨-, hnone⟩ := ((h.placed statement hs).of_mem_preorder hn).2 e he
    · exact .inl hstart
    · exact .inr hhead
    · cases hnone

theorem sourceFile_nested (h : r.Gathering) (hs : s.Sound)
    (hstop : ∀ t ∈ s.tokens.toList, t.span.stop ≤ text.length) :
    Answers s (sourceFile r fileName text) fun file _ => file.Nested := by
  refine (Gathered.begin hs).read (collects_statementsToEnd h _) fun statements s₁ _ g => ?_
  have hreached : s₁.reached ≤ text.length := g.advances.reached_le_of_stop_le hs g.sound hstop
  have hlaid : Laid none 0 text.length statements := g.laid.mono (Nat.zero_le _) hreached
  exact .current (answers_pure (nested_of_laid hlaid))

end

/-- In every text that parses, the regions lie as they should, apart from those that are taken too early
and those that start with the first word of a head. -/
theorem parseFrom_nested {firstId nextId : Nat} {fileName text : String} {file : SourceFile}
    (h : parseFrom firstId fileName text = .ok (file, nextId)) : file.Nested := by
  unfold parseFrom at h
  split at h
  · cases h
  rename_i tokens htokens
  split at h <;> cases h
  rename_i s hfile
  exact sourceFile_nested (gathering_rules _) (sound_of_tokenize htokens firstId)
    (stop_le_of_tokenize htokens) file s hfile

/-- The forms of all nodes in a file, with the ends of their regions. -/
def SourceFile.regions (file : SourceFile) : List (String × Nat × Nat) :=
  (file.statements.flatMap Node.preorder).map fun n => (n.kind, n.span.start, n.span.stop)

/-- An access in the head of a `new` expression, one behind it, and an operator that is a word. -/
def accessedNew : String :=
  "new a.b(typeof c).d;"

/-- The nodes of `accessedNew`: `a.b` starts with `new`, and `typeof c` ends before `c`. -/
def accessedNewRegions : List (String × Nat × Nat) :=
  [("ExpressionStatement", 0, 20), ("PropertyAccessExpression", 0, 19), ("NewExpression", 0, 17),
    ("PropertyAccessExpression", 0, 7), ("Identifier", 4, 5), ("Identifier", 6, 7),
    ("TypeOfExpression", 8, 14), ("Identifier", 15, 16), ("Identifier", 18, 19)]

theorem parseFrom_nested_accessedNew :
    ∃ file nextId, parseFrom 0 "main.ts" accessedNew = .ok (file, nextId) ∧ file.Nested ∧
      file.regions = accessedNewRegions := by
  have hw : succeedsWith (parseFrom 0 "main.ts" accessedNew)
      (fun r => r.1.regions == accessedNewRegions) = true := by
    decide +kernel
  obtain ⟨⟨file, nextId⟩, hparse, hregions⟩ := succeedsWith_iff.mp hw
  exact ⟨file, nextId, hparse, parseFrom_nested hparse, eq_of_beq hregions⟩

end ScriptBridge.TypeScript
