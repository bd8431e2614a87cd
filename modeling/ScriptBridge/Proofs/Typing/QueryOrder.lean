import ScriptBridge.Proofs.Typing.Answering

/-!
# Types do not depend on the order of questions

The oracle remembers what it has answered, and in the meantime it answers that a type which is being found
may be anything. So for functions that call each other the answers depend on what was asked first. Where a
table describes the program they do not: whatever has been asked before, an expression in the table has
the type that the table says, with the same text, and fits the same kinds.

* `shownTypes_listed`: what a run answers.
* `shownTypes_anyOrder`: two runs answer alike.
* `Lamp.table_holds`: a table for a program with an alias.
-/

namespace ScriptBridge.Typing

open ScriptBridge.Binding ScriptBridge.TypeScript
open ScriptBridge.Conversion (bind_ok bind_of_ok)

/-! ## Runs of questions -/

/-- The type of an expression with its text, or why it has none. -/
def shownType (e : Node) : TypeM (Ty × Except TypeFault String) := do
  let t ← typeOf e
  return (t, t.text (← get).names)

/-- The table has the type of an expression, within the patience of the oracle. -/
def Table.Lists (T : Table) (e : Node) : Prop :=
  (∃ u, T.types (.expression e) = some u) ∧ T.rank (.expression e) < patience

/-- An answer that is what the table has for an expression. -/
def Table.Answers (T : Table) (e : Node) (a : Ty × Except TypeFault String) : Prop :=
  ∃ u, T.types (.expression e) = some u ∧ a.2 = u.text T.names ∧ (∀ k, a.1.fits k = u.fits k) ∧
    a.1.isOpen = u.isOpen

/-- Between questions nothing is under way. -/
def idle : Context :=
  ⟨patience, [], []⟩

section
variable {T : Table} {program : Program} {w : World} {m : Memory}

theorem known_start (T : Table) (program : Program) : Known T program idle ⟨#[], #[]⟩ {} where
  names := rfl
  size := rfl
  arises := { labels := fun i name h => by simp at h, names := fun i name h => by simp at h }
  resolving := rfl
  resolvingAbove := fun id h => absurd h List.not_mem_nil
  loadingAbove := fun i h => absurd h List.not_mem_nil
  expressions := fun h => by simp at h
  symbols := fun h => by simp at h
  interfaces := fun h => by simp at h
  pending := fun h => by simp at h
  known := fun h => by simp at h

theorem Table.reading_fits (T : Table) : T.reading.Fits T.names :=
  fun _ _ h => h

/-- Whatever has been asked before, the answer is that of the table. -/
theorem shownType_listed (H : T.Holds program) (hm : Known T program idle w m) {e : Node}
    (he : T.Lists e) : ∃ w' a m', w.Le w' ∧ shownType e program m = .ok a m' ∧
      Known T program idle w' m' ∧ T.Answers e a := by
  obtain ⟨⟨u, hu⟩, hr⟩ := he
  have hlisted := ask_of_listed program (fun _ _ h => by cases h) hr hu T.start
  obtain ⟨w', t, m', hw, hx, hm', -, ht⟩ :=
    (asks_answer H patience idle (Nat.le_refl _)).expression w e _ _ _ _ hm (blank_start T program)
      hlisted
  refine ⟨w', (t, t.text m'.names), m', hw, (bind_of_ok hx _).trans rfl, hm', u, hu, ?_, ?_, ?_⟩
  · exact ht.text_eq hm'.fits T.reading_fits
  · exact fun k => ht.fits_eq k
  · exact ht.isOpen_eq

/-- A run of questions is answered by the table. -/
theorem shownTypes_listed (H : T.Holds program) (hm : Known T program idle w m) {es : List Node}
    (hes : ∀ e ∈ es, T.Lists e) : ∃ answers m', es.mapM shownType program m = .ok answers m' ∧
      List.Forall₂ T.Answers es answers := by
  induction es generalizing w m with
  | nil => exact ⟨[], m, rfl, .nil⟩
  | cons e es ih =>
    obtain ⟨he, hrest⟩ := List.forall_mem_cons.mp hes
    obtain ⟨w₁, a, m₁, -, hx, hm₁, ha⟩ := shownType_listed H hm he
    obtain ⟨answers, m₂, hxs, has⟩ := ih hm₁ hrest
    refine ⟨a :: answers, m₂, ?_, .cons ha has⟩
    rw [List.mapM_cons, bind_of_ok hx, bind_of_ok hxs]
    rfl

/-- Two runs of questions about a program that a table describes, each from a fresh memory, answer alike
about every expression that is in both, at whatever places: with the same text, and with types that fit
the same kinds. The gates of the conversion look at nothing else. -/
theorem shownTypes_anyOrder (H : T.Holds program) {es fs : List Node} (hes : ∀ e ∈ es, T.Lists e)
    (hfs : ∀ e ∈ fs, T.Lists e) :
    ∃ answers others m n, es.mapM shownType program {} = .ok answers m ∧
      fs.mapM shownType program {} = .ok others n ∧
      ∀ (i j : Nat) e, es[i]? = some e → fs[j]? = some e →
        ∃ a b, answers[i]? = some a ∧ others[j]? = some b ∧ a.2 = b.2 ∧
          (∀ k, a.1.fits k = b.1.fits k) ∧ a.1.isOpen = b.1.isOpen := by
  obtain ⟨answers, m, hx, ha⟩ := shownTypes_listed H (known_start T program) hes
  obtain ⟨others, n, hy, hb⟩ := shownTypes_listed H (known_start T program) hfs
  have answer {es : List Node} {answers : List (Ty × Except TypeFault String)} {i : Nat} {e : Node}
      (h : List.Forall₂ T.Answers es answers) (hi : es[i]? = some e) :
      ∃ a, answers[i]? = some a ∧ T.Answers e a := by
    obtain ⟨hlt, rfl⟩ := List.getElem?_eq_some_iff.mp hi
    have hlt' : i < answers.length := h.length_eq ▸ hlt
    exact ⟨answers[i], List.getElem?_eq_getElem hlt', h.get hlt hlt'⟩
  refine ⟨answers, others, m, n, hx, hy, fun i j e hi hj => ?_⟩
  obtain ⟨a, hai, u, hu, htext, hfits, hopen⟩ := answer ha hi
  obtain ⟨b, hbj, v, hv, htext', hfits', hopen'⟩ := answer hb hj
  rw [hu] at hv
  cases hv
  exact ⟨a, b, hai, hbj, htext.trans htext'.symm, fun k => (hfits k).trans (hfits' k).symm,
    hopen.trans hopen'.symm⟩

end

/-! ### A program with a table

`type Lamp = { on: boolean }; declare const lamp: Lamp; lamp; lamp.on;`, its symbols and references
written out. The entries are ranked in the order in which they are listed; the alias comes after what it
is written as. -/

namespace Lamp

/-- Where the nodes stand does not matter to the oracle. -/
def mark (id : Nat) : Mark :=
  ⟨id, default⟩

def boolean : Node := .keywordType (mark 1) "boolean"

def literal : Node := .typeLiteral (mark 3) [.propertySignature (mark 2) "on" false (some boolean)]

def reference : Node := .typeReference (mark 4) "Lamp" []

def lamp : Node := .ident ⟨mark 5, "lamp"⟩

def lampOn : Node := .propertyAccess (mark 7) lamp ⟨mark 6, "on"⟩ false

def typeSymbol : Symbol where
  name := "Lamp"
  kind := .aliasType
  declaration := .typeAlias (mark 8) [] ⟨mark 9, "Lamp"⟩ [] literal
  declarations := []
  node := none
  scope := 0

def valueSymbol : Symbol where
  name := "lamp"
  kind := .constant
  declaration := .variableDeclaration (mark 10) (.ident ⟨mark 11, "lamp"⟩) (some reference) none
  declarations := []
  node := none
  scope := 0

def program : Program where
  bindings :=
    { symbols := #[typeSymbol, valueSymbol], references := (Std.HashMap.insert {} 4 0).insert 5 1 }
  files := #[]
  nextId := 12

/-- What is written, under a number. -/
def record (id : ShapeId) : Ty :=
  .record id [("on", .primitive .boolean)] none

open Classical in
/-- The record is listed twice: as it is written, without a name, and as the alias has it. -/
noncomputable def table : Table where
  names := #[none, some "Lamp"]
  node id := if id = 5 then lamp else lampOn
  types q :=
    if q = .written [] boolean then some (.primitive .boolean)
    else if q = .written [] literal then some (record 0)
    else if q = .written [] reference then some (record 1)
    else if q = .symbol 1 then some (record 1)
    else if q = .expression lamp then some (record 1)
    else if q = .expression lampOn then some (.primitive .boolean)
    else none
  members _ := none
  source _ := none
  rank q :=
    if q = .written [] boolean then 0
    else if q = .written [] literal then 1
    else if q = .symbol 0 then 2
    else if q = .written [] reference then 3
    else if q = .symbol 1 then 4
    else if q = .expression lamp then 5
    else 6

/-- What the table has for a question, with its rank. -/
def Entry (q : Query) (t : Ty) (rank : Nat) : Prop :=
  table.types q = some t ∧ table.rank q = rank

theorem entry_boolean : Entry (.written [] boolean) (.primitive .boolean) 0 := by
  simp [Entry, table]

theorem entry_literal : Entry (.written [] literal) (record 0) 1 := by
  simp [Entry, table, literal, boolean]

theorem rank_alias : table.rank (.symbol 0) = 2 := by
  simp [table]

theorem entry_reference : Entry (.written [] reference) (record 1) 3 := by
  simp [Entry, table, literal, boolean, reference]

theorem entry_symbol : Entry (.symbol 1) (record 1) 4 := by
  simp [Entry, table]

theorem entry_lamp : Entry (.expression lamp) (record 1) 5 := by
  simp [Entry, table]

theorem entry_lampOn : Entry (.expression lampOn) (.primitive .boolean) 6 := by
  simp [Entry, table, lampOn, lamp]

theorem types_expression {e : Node} {t : Ty} (h : table.types (.expression e) = some t) :
    e = lamp ∧ t = record 1 ∨ e = lampOn ∧ t = .primitive .boolean := by
  simp only [table, reduceCtorEq, if_false, Query.expression.injEq] at h
  grind

theorem types_symbol {id : SymbolId} {t : Ty} (h : table.types (.symbol id) = some t) :
    id = 1 ∧ t = record 1 := by
  simp only [table, reduceCtorEq, if_false, Query.symbol.injEq] at h
  grind

theorem types_written {env : Env} {type : Node} {t : Ty}
    (h : table.types (.written env type) = some t) :
    env = [] ∧ (type = boolean ∧ t = .primitive .boolean ∨ type = literal ∧ t = record 0 ∨
      type = reference ∧ t = record 1) := by
  simp only [table, reduceCtorEq, if_false, Query.written.injEq] at h
  grind

theorem same_record {i j : ShapeId} {name : Option String} (hi : (table.names[i]?).join = name)
    (hj : (table.names[j]?).join = name) :
    Same table.reading table.reading (record i) (record j) :=
  .record hi hj (.cons (.primitive _) .nil) .none

theorem symbolOf?_reference : program.bindings.symbolOf? 4 = some 0 := by
  simp only [Bindings.symbolOf?, program, Std.HashMap.getElem?_insert]
  rfl

theorem symbolOf?_lamp : program.bindings.symbolOf? 5 = some 1 := by
  simp only [Bindings.symbolOf?, program, Std.HashMap.getElem?_insert]
  rfl

theorem aliasUse?_reference : aliasUse? program [] reference =
    some { id := 0, params := [], type := literal, args := [] } := by
  have horigin : program.origin? 4 = some (.symbol 0) := by
    rw [Program.origin?, symbolOf?_reference]
    rfl
  simp only [aliasUse?, reference, mark, horigin]
  rfl

theorem ask_entry (rank : Nat) {low : Nat} {q : Query} {t : Ty} (hq : ∀ id name, q ≠ .members id name)
    (h : Entry q t low) (hr : low < rank) :
    table.ask rank q program table.start = .ok t table.start :=
  ask_of_listed program hq (h.2 ▸ hr) h.1 table.start

theorem gives_boolean : table.Gives program 0 (writtenType · [] boolean) (.primitive .boolean) :=
  ⟨.primitive .boolean, table.start, rfl, .primitive _⟩

theorem gives_literal : table.Gives program 1 (writtenType · [] literal) (record 0) := by
  have hask := ask_entry 1 (fun _ _ h => by cases h) entry_boolean (by decide)
  have hmembers : writtenMembers (table.ask 1) [] [] none
      [.propertySignature (mark 2) "on" false (some boolean)] program table.start =
      .ok ([("on", .primitive .boolean)], none) table.start := bind_of_ok hask _
  exact ⟨record 2, _, bind_of_ok hmembers _, same_record rfl rfl⟩

theorem givesAlias_reference : table.GivesAlias program 3 []
    { id := 0, params := [], type := literal, args := [] } (record 1) := by
  refine ⟨[], table.start, record 0, rfl, entry_literal.1, ?_, ?_, ?_⟩
  · show table.rank (.written [] literal) < table.rank (.symbol 0)
    rw [entry_literal.2, rank_alias]
    decide
  · rw [rank_alias]
    decide
  · exact .given rfl rfl (.cons (.primitive _) .nil) .none

theorem gives_symbol : table.Gives program 4 (inferSymbol · 1) (record 1) :=
  have hask := ask_entry 4 (fun _ _ h => by cases h) entry_reference (by decide)
  ⟨record 1, table.start, bind_of_ok hask _, same_record rfl rfl⟩

theorem gives_lamp : table.Gives program 5 (inferExpression · lamp) (record 1) := by
  refine ⟨record 1, table.start, ?_, same_record rfl rfl⟩
  have hread : (read : TypeM Program) program table.start = .ok program table.start := rfl
  have hlamp : program.bindings.symbolOf? (mark 5).id = some 1 := symbolOf?_lamp
  show identType (table.ask 5) ⟨mark 5, "lamp"⟩ program table.start = _
  rw [identType, bind_of_ok hread, hlamp]
  exact ask_entry 5 (fun _ _ h => by cases h) entry_symbol (by decide)

theorem gives_lampOn : table.Gives program 6 (inferExpression · lampOn) (.primitive .boolean) :=
  have hask := ask_entry 6 (fun _ _ h => by cases h) entry_lamp (by decide)
  ⟨.primitive .boolean, table.start, bind_of_ok hask _, .primitive _⟩

theorem name_ne_empty {id : SymbolId} (h : (program.bindings.symbol id).kind = .aliasType) :
    (program.bindings.symbol id).name ≠ "" := by
  match id with
  | 0 => decide
  | 1 => cases h
  | _ + 2 => cases h

theorem kind_ne_interface (id : SymbolId) :
    (program.bindings.symbol id).kind ≠ .interfaceType := by
  match id with
  | 0 | 1 => decide
  | _ + 2 => exact fun h => by cases h

theorem table_holds : table.Holds program where
  node h := by
    obtain ⟨rfl, -⟩ | ⟨rfl, -⟩ := types_expression h <;> rfl
  expression h := by
    obtain ⟨rfl, rfl⟩ | ⟨rfl, rfl⟩ := types_expression h
    · rw [entry_lamp.2]
      exact gives_lamp
    · rw [entry_lampOn.2]
      exact gives_lampOn
  symbol h := by
    obtain ⟨rfl, rfl⟩ := types_symbol h
    rw [entry_symbol.2]
    exact gives_symbol
  written h halias := by
    obtain ⟨rfl, ⟨rfl, rfl⟩ | ⟨rfl, rfl⟩ | ⟨rfl, rfl⟩⟩ := types_written h
    · rw [entry_boolean.2]
      exact gives_boolean
    · rw [entry_literal.2]
      exact gives_literal
    · rw [aliasUse?_reference] at halias
      cases halias
  aliased h halias := by
    obtain ⟨rfl, ⟨rfl, rfl⟩ | ⟨rfl, rfl⟩ | ⟨rfl, rfl⟩⟩ := types_written h
    · cases halias
    · cases halias
    · rw [aliasUse?_reference] at halias
      cases halias
      rw [entry_reference.2]
      exact givesAlias_reference
  members h := by cases h
  source _ _ h := by cases h
  named h := h.elim (fun h => absurd h (kind_ne_interface _)) name_ne_empty

theorem lists_lamp : table.Lists lamp :=
  ⟨⟨_, entry_lamp.1⟩, by rw [entry_lamp.2]; decide⟩

theorem lists_lampOn : table.Lists lampOn :=
  ⟨⟨_, entry_lampOn.1⟩, by rw [entry_lampOn.2]; decide⟩

end Lamp

theorem shownTypes_anyOrder_lamp :
    Lamp.table.Holds Lamp.program ∧ (∀ e ∈ [Lamp.lampOn, Lamp.lamp], Lamp.table.Lists e) ∧
      (∀ e ∈ [Lamp.lamp, Lamp.lampOn], Lamp.table.Lists e) ∧
      ∃ answers others m n,
        [Lamp.lampOn, Lamp.lamp].mapM shownType Lamp.program {} = .ok answers m ∧
        [Lamp.lamp, Lamp.lampOn].mapM shownType Lamp.program {} = .ok others n ∧
        ∀ (i j : Nat) e, [Lamp.lampOn, Lamp.lamp][i]? = some e → [Lamp.lamp, Lamp.lampOn][j]? = some e →
          ∃ a b, answers[i]? = some a ∧ others[j]? = some b ∧ a.2 = b.2 ∧
            (∀ k, a.1.fits k = b.1.fits k) ∧ a.1.isOpen = b.1.isOpen := by
  have hes : ∀ e ∈ [Lamp.lampOn, Lamp.lamp], Lamp.table.Lists e := by
    simp [Lamp.lists_lamp, Lamp.lists_lampOn]
  have hfs : ∀ e ∈ [Lamp.lamp, Lamp.lampOn], Lamp.table.Lists e := by
    simp [Lamp.lists_lamp, Lamp.lists_lampOn]
  exact ⟨Lamp.table_holds, hes, hfs, shownTypes_anyOrder Lamp.table_holds hes hfs⟩

end ScriptBridge.Typing
