import ScriptBridge.Conversion.Module
import ScriptBridge.Proofs.TypeScript.Children

/-!
# Jump trees

What jumps of a program leave: a `JumpTree` is a jump, a loop with the trees inside it, or a function
with the trees inside it. A jump that stands directly among the trees of a loop is a jump of that loop.
In the source, a `break` of a switch belongs to no loop and is not among the trees of one.

The output has one more kind of jump: the test of a loop is made by an `exit` that has no place, while
every other jump has the place of the `break` or `continue` it came from. `Realizes` compares the two: a
loop of the output stands for a loop of the source if it has the place of that loop and each jump of the
one stands for a jump of the other or is the test of it. The source has its places as spans, which always
have a line, so that what has no place in the output stands for nothing in the source.

* `TypeScript.Node.jumps`, `AiScript.jumpsOf`: the jump trees of the source and of the output.
* `JumpTree.Realizes`, `Realized`: jump trees of the output stand for jump trees of the source.
* `JumpTree.anchored`, `WellPlaced`: every jump is in a loop.
* `hasBreak_of_exit`: a statement of a switch with a jump out of it has a `break` of the switch.
-/

namespace ScriptBridge

open AiScript (Loc)

/-- How a jump goes on: behind a loop, or with its next round. -/
inductive JumpKind where
  | exit
  | next
deriving DecidableEq, Repr

/-- Jumps by the loops that they are jumps of; `π` is what places are given by. -/
inductive JumpTree (π : Type) where
  | jump (kind : JumpKind) (place : π)
  /-- A loop; in the source, `hasTest` tells whether it has a condition. -/
  | loop (place : π) (hasTest : Bool) (inner : List (JumpTree π))
  | function (inner : List (JumpTree π))

/-- The jump trees of a source. -/
abbrev SourceJumps := List (JumpTree TypeScript.Span)

/-- The jump trees of an output. -/
abbrev OutputJumps := List (JumpTree Loc)

/-- The place of a region of a source in an output. -/
def TypeScript.Span.loc (s : TypeScript.Span) : Loc :=
  { line := s.line, col := s.col, endLine := s.endLine, endCol := s.endCol }

theorem TypeScript.Span.loc_line (s : TypeScript.Span) : s.loc.line ≠ 0 :=
  Nat.ne_of_gt s.isLine.pos

namespace JumpTree

variable {π : Type}

/-- Whether a tree is a function. -/
def isFunction : JumpTree π → Bool
  | .function _ => true
  | _ => false

/-- Whether a tree is a jump behind a loop. -/
def isExit : JumpTree π → Bool
  | .jump .exit _ => true
  | _ => false

/-- The test of a loop: it leaves the loop and has no place of its own. -/
def IsTest (t : JumpTree Loc) : Prop :=
  ∃ place, t = .jump .exit place ∧ place.line = 0

/-- A tree of the output stands for a tree of the source: the places of loops and jumps agree, and what
is in a loop stands for something in the other loop or is its test. -/
def Realizes : JumpTree Loc → JumpTree TypeScript.Span → Prop
  | .jump kind place, .jump kind' span => kind = kind' ∧ place = span.loc
  | .loop place _ inner, .loop span hasTest inner' =>
    place = span.loc ∧
      ∀ t, t ∈ inner → (hasTest = true ∧ t.IsTest) ∨ ∃ u ∈ inner', t.Realizes u
  | .function inner, .function inner' => ∀ t, t ∈ inner → ∃ u ∈ inner', t.Realizes u
  | _, _ => False

mutual
/-- Whether every jump in a tree is in a loop of the function that it is in; `inLoop` tells whether the
tree itself is. -/
def anchored (inLoop : Bool) : JumpTree π → Bool
  | .jump .. => inLoop
  | .loop _ _ inner => allAnchored true inner
  | .function inner => allAnchored false inner

/-- Whether all of several trees are anchored. -/
def allAnchored (inLoop : Bool) : List (JumpTree π) → Bool
  | [] => true
  | t :: ts => t.anchored inLoop && allAnchored inLoop ts
end

theorem allAnchored_iff {inLoop : Bool} {ts : List (JumpTree π)} :
    allAnchored inLoop ts = true ↔ ∀ t ∈ ts, t.anchored inLoop = true := by
  induction ts with
  | nil => simp [allAnchored]
  | cons t ts ih => rw [allAnchored, Bool.and_eq_true, ih, List.forall_mem_cons]

/-- What stands for an anchored tree is anchored. -/
theorem Realizes.anchored {t : JumpTree Loc} {u : JumpTree TypeScript.Span} (h : t.Realizes u)
    {inLoop : Bool}
    (hu : u.anchored inLoop = true) : t.anchored inLoop = true := by
  fun_induction Realizes t u generalizing inLoop with
  | case1 => simpa only [JumpTree.anchored] using hu
  | case2 place _ inner place' hasTest inner' ih =>
    simp only [JumpTree.anchored, allAnchored_iff] at hu ⊢
    intro t ht
    rcases h.2 t ht with ⟨-, place, rfl, -⟩ | ⟨u, hu', htu⟩
    · simp only [JumpTree.anchored]
    · exact ih t ht u htu (hu u hu')
  | case3 inner inner' ih =>
    simp only [JumpTree.anchored, allAnchored_iff] at hu ⊢
    intro t ht
    obtain ⟨u, hu', htu⟩ := h t ht
    exact ih t ht u htu (hu u hu')
  | case4 => exact h.elim

end JumpTree

/-- Every tree of the output stands for one of the source. -/
def Realized (ts : OutputJumps) (us : SourceJumps) : Prop :=
  ∀ t ∈ ts, ∃ u ∈ us, t.Realizes u

/-- Every jump is in a loop of the function that it is in. -/
def WellPlaced {π : Type} (ts : List (JumpTree π)) : Prop :=
  JumpTree.allAnchored false ts = true

instance {π : Type} (ts : List (JumpTree π)) : Decidable (WellPlaced ts) :=
  inferInstanceAs (Decidable (_ = true))

section
variable {t : JumpTree Loc} {ts ts' : OutputJumps} {us : SourceJumps}

@[simp] theorem realized_nil : Realized [] us :=
  fun _ h => nomatch h

@[simp] theorem realized_cons : Realized (t :: ts) us ↔ (∃ u ∈ us, t.Realizes u) ∧ Realized ts us :=
  List.forall_mem_cons

@[simp] theorem realized_append :
    Realized (ts ++ ts') us ↔ Realized ts us ∧ Realized ts' us :=
  List.forall_mem_append

/-- In a loop of the source, every tree of the output stands for one of the source or is the test of
the loop. -/
def Rounds (hasTest : Bool) (ts : OutputJumps) (us : SourceJumps) : Prop :=
  ∀ t ∈ ts, (hasTest = true ∧ t.IsTest) ∨ ∃ u ∈ us, t.Realizes u

theorem Realized.rounds {hasTest : Bool} (h : Realized ts us) : Rounds hasTest ts us :=
  fun t ht => .inr (h t ht)

theorem rounds_append {hasTest : Bool} :
    Rounds hasTest (ts ++ ts') us ↔ Rounds hasTest ts us ∧ Rounds hasTest ts' us :=
  List.forall_mem_append

end

theorem Realized.wellPlaced {ts : OutputJumps} {us : SourceJumps} (h : Realized ts us)
    (hu : WellPlaced us) :
    WellPlaced ts := by
  refine JumpTree.allAnchored_iff.mpr fun t ht => ?_
  obtain ⟨u, hmem, htu⟩ := h t ht
  exact htu.anchored (JumpTree.allAnchored_iff.mp hu u hmem)

/-! ## The source -/

namespace TypeScript.Node

open Conversion

/-- The jump trees of a node, from those of its children. Statements stand in statements; all other
nodes hold functions only. What a loop starts from is outside of it. -/
def jumpStep (n : Node) (inside : List SourceJumps) : SourceJumps :=
  match n with
  | .breakStatement _ none => [.jump .exit n.span]
  | .continueStatement _ none => [.jump .next n.span]
  | .whileStatement .. | .doStatement .. => [.loop n.span true inside.flatten]
  | .forStatement _ start test _ _ =>
    (inside.take start.toList.length).flatten.filter (·.isFunction) ++
      [.loop n.span test.isSome (inside.drop start.toList.length).flatten]
  | .forOfStatement .. | .forInStatement .. =>
    (inside.take 2).flatten.filter (·.isFunction) ++ [.loop n.span false (inside.drop 2).flatten]
  | .switchStatement .. => inside.flatten.filter fun t => !t.isExit
  | .functionDeclaration .. | .function .. | .arrow .. | .method .. => [.function inside.flatten]
  | .block .. | .ifStatement .. | .caseClause .. | .defaultClause .. | .labeled .. | .tryStatement ..
  | .catchClause .. | .moduleDeclaration .. => inside.flatten
  | _ => inside.flatten.filter (·.isFunction)

/-- The jump trees of a node. -/
def jumps (n : Node) : SourceJumps :=
  n.fold jumpStep

/-- The functions in a node. -/
def functions (n : Node) : SourceJumps :=
  n.jumps.filter (·.isFunction)

theorem jumps_eq (n : Node) : n.jumps = jumpStep n (n.children.map jumps) := by
  rw [jumps, fold_eq]
  rfl

theorem functions_subset {n : Node} {us : SourceJumps} (h : n.jumps ⊆ us) : n.functions ⊆ us :=
  fun _ ht => h (List.mem_filter.mp ht).1

/-- The functions in nodes are among some trees. -/
def FunctionsIn (us : SourceJumps) (ns : List Node) : Prop :=
  ∀ n ∈ ns, n.functions ⊆ us

/-- The trees of nodes are among some trees. -/
def JumpsIn (us : SourceJumps) (ns : List Node) : Prop :=
  ∀ n ∈ ns, n.jumps ⊆ us

section
variable {us : SourceJumps} {n : Node} {ns ms : List Node}

@[simp] theorem functionsIn_nil : FunctionsIn us [] :=
  fun _ h => nomatch h

@[simp] theorem functionsIn_cons : FunctionsIn us (n :: ns) ↔ n.functions ⊆ us ∧ FunctionsIn us ns :=
  List.forall_mem_cons

@[simp] theorem functionsIn_append :
    FunctionsIn us (ns ++ ms) ↔ FunctionsIn us ns ∧ FunctionsIn us ms :=
  List.forall_mem_append

@[simp] theorem jumpsIn_nil : JumpsIn us [] :=
  fun _ h => nomatch h

@[simp] theorem jumpsIn_cons : JumpsIn us (n :: ns) ↔ n.jumps ⊆ us ∧ JumpsIn us ns :=
  List.forall_mem_cons

@[simp] theorem jumpsIn_append : JumpsIn us (ns ++ ms) ↔ JumpsIn us ns ∧ JumpsIn us ms :=
  List.forall_mem_append

theorem JumpsIn.functionsIn (h : JumpsIn us ns) : FunctionsIn us ns :=
  fun n hn => functions_subset (h n hn)

theorem jumpsIn_flatten (ns : List Node) : JumpsIn (ns.map jumps).flatten ns :=
  fun n hn _ ht => List.mem_flatten.mpr ⟨n.jumps, List.mem_map_of_mem hn, ht⟩

/-- What is not a statement holds the functions in its children. -/
theorem functionsIn_children (h : n.functions ⊆ us)
    (hn : ∀ inside, jumpStep n inside = inside.flatten.filter (·.isFunction)) :
    FunctionsIn us n.children := by
  intro m hm t ht
  obtain ⟨ht, hf⟩ := List.mem_filter.mp ht
  refine h (List.mem_filter.mpr ⟨?_, hf⟩)
  rw [jumps_eq, hn]
  exact List.mem_filter.mpr ⟨jumpsIn_flatten _ m hm ht, hf⟩

/-- A statement of statements has the trees of its children. -/
theorem jumpsIn_children (h : n.jumps ⊆ us) (hn : ∀ inside, jumpStep n inside = inside.flatten) :
    JumpsIn us n.children := by
  rw [jumps_eq, hn] at h
  exact fun m hm => List.Subset.trans (jumpsIn_flatten _ m hm) h

end

/-- A function is among the functions of itself. -/
theorem mem_functions {n : Node}
    (hn : ∀ inside, jumpStep n inside = [.function inside.flatten]) :
    .function (n.children.map jumps).flatten ∈ n.functions := by
  rw [functions, jumps_eq, hn]
  exact List.mem_singleton_self _

theorem functions_unwrap (n : Node) : n.unwrap.functions = n.functions :=
  apply_unwrap (fun m e => by simp [functions, jumps_eq (.parenthesized m e), jumpStep, children]) n

theorem jumps_forStatement (m : Mark) (start test advance : Option Node) (body : Node) :
    (forStatement m start test advance body).jumps =
      (start.toList.map jumps).flatten.filter (·.isFunction) ++
        [.loop (forStatement m start test advance body).span test.isSome
          ((test.toList ++ advance.toList ++ [body]).map jumps).flatten] := by
  rw [jumps_eq]
  cases start <;> simp [jumpStep, children]

theorem jumps_forOfStatement (m : Mark) (target items body : Node) (isAwait : Bool) :
    (forOfStatement m target items body isAwait).jumps =
      (target.jumps ++ items.jumps).filter (·.isFunction) ++
        [.loop (forOfStatement m target items body isAwait).span false body.jumps] := by
  rw [jumps_eq]
  simp [jumpStep, children]

/-! ### Switches -/

/-- The trees of nodes that are no jumps behind a loop are among some trees. -/
def StaysIn (us : SourceJumps) (ns : List Node) : Prop :=
  ∀ n ∈ ns, ∀ t ∈ n.jumps, t.isExit = false → t ∈ us

section
variable {us : SourceJumps} {n : Node} {ns ms : List Node}

theorem staysIn_cons : StaysIn us (n :: ns) ↔
    (∀ t ∈ n.jumps, t.isExit = false → t ∈ us) ∧ StaysIn us ns :=
  List.forall_mem_cons

theorem StaysIn.functionsIn (h : StaysIn us ns) : FunctionsIn us ns := by
  intro n hn t ht
  obtain ⟨ht, hf⟩ := List.mem_filter.mp ht
  refine h n hn t ht ?_
  cases t with
  | function => rfl
  | jump | loop => cases hf

/-- What is no statement has no jumps of its own. -/
theorem StaysIn.jumps_subset (h : StaysIn us [n])
    (hn : ∀ inside, jumpStep n inside = inside.flatten.filter (·.isFunction)) :
    n.jumps ⊆ us := by
  have hall : n.jumps ⊆ n.functions := by
    intro t ht
    refine List.mem_filter.mpr ⟨ht, ?_⟩
    rw [jumps_eq, hn] at ht
    exact (List.mem_filter.mp ht).2
  exact List.Subset.trans hall (h.functionsIn n List.mem_cons_self)

theorem staysIn_children (h : StaysIn us [n])
    (hn : ∀ inside, jumpStep n inside = inside.flatten) : StaysIn us n.children := by
  intro m hm t ht
  refine h n List.mem_cons_self t ?_
  rw [jumps_eq, hn]
  exact jumpsIn_flatten _ m hm ht

theorem staysIn_switch {m : Mark} {subject : Node} {clauses : List Node}
    (h : (switchStatement m subject clauses).jumps ⊆ us) : StaysIn us (subject :: clauses) := by
  intro n hn t ht he
  rw [jumps_eq] at h
  exact h (List.mem_filter.mpr ⟨jumpsIn_flatten _ n hn ht, by rw [he]; rfl⟩)

end

theorem hasBreak_eq (n : Node) : hasBreak n = (isBreak n ||
    (!Conversion.isFunction n && !(isLoop n || isSwitch n) && n.children.any hasBreak)) := by
  rw [hasBreak, hasJump, fold_eq, List.any_map]
  rfl

/-- A statement with a jump behind the loop around it has a `break` that leaves a switch around it. -/
theorem hasBreak_of_exit {n : Node} {place : Span} (h : .jump .exit place ∈ n.jumps) :
    hasBreak n = true := by
  induction n using induct with
  | h n ih =>
    -- Where the children are passed on, one of them has the jump.
    have inside (hm : .jump .exit place ∈ (n.children.map jumps).flatten) :
        n.children.any hasBreak = true := by
      obtain ⟨ts, hts, ht⟩ := List.mem_flatten.mp hm
      obtain ⟨m, hm, rfl⟩ := List.mem_map.mp hts
      exact List.any_eq_true.mpr ⟨m, hm, ih m hm ht⟩
    rw [jumps_eq] at h
    rw [hasBreak_eq]
    unfold jumpStep at h
    split at h
    · rfl
    -- Either the jump cannot be among the trees of such a node, or it is among those of a child.
    all_goals first
      | simp only [List.mem_append, List.mem_filter, List.mem_singleton, JumpTree.isFunction,
          JumpTree.isExit, JumpTree.jump.injEq, reduceCtorEq, Bool.false_eq_true, Bool.not_true,
          and_false, false_and, or_self] at h
      | simp [isBreak, Conversion.isFunction, isLoop, isSwitch, inside h]

/-- What a switch does not refuse in a case stays in its loop. -/
theorem jumps_subset_of_hasBreak {us : SourceJumps} {n : Node} (h : StaysIn us [n])
    (hb : hasBreak n = false) : n.jumps ⊆ us := by
  intro t ht
  refine h n List.mem_cons_self t ht ?_
  cases t with
  | jump kind place =>
    cases kind with
    | exit => exact absurd (hasBreak_of_exit ht) (by simp [hb])
    | next => rfl
  | loop | function => rfl

end TypeScript.Node

/-! ## The output -/

namespace AiScript

/-- The place of a loop, or of the block directly around it if it has none. -/
def loopPlace (around place : Loc) : Loc :=
  if place.line = 0 then around else place

mutual
/-- The jump trees of a node. A loop without a place has that of the block directly around it. -/
def Node.jumps (around : Loc) : Node → OutputJumps
  | .num .. | .str .. | .bool .. | .null .. | .ident .. | .bare .. => []
  | .exit place => [.jump .exit place]
  | .next place => [.jump .next place]
  | .loop place statements =>
    [.loop (loopPlace around place) false (jumpsOf {} statements)]
  | .each place _ items body =>
    items.jumps {} ++ [.loop (loopPlace around place) false (body.jumps {})]
  | .fn _ params body => [.function (paramJumps params ++ jumpsOf {} body)]
  | .block place statements => jumpsOf place statements
  | .tmpl _ nodes | .arr _ nodes => jumpsOf {} nodes
  | .obj _ entries => entryJumps entries
  | .prop _ target _ => target.jumps {}
  | .index _ target key => target.jumps {} ++ key.jumps {}
  | .call _ target args => target.jumps {} ++ jumpsOf {} args
  | .unary _ _ operand => operand.jumps {}
  | .binary _ _ left right => left.jumps {} ++ right.jumps {}
  | .cond _ test body branches otherwise =>
    test.jumps {} ++ body.jumps {} ++ branchJumps branches ++ optionJumps otherwise
  | .select _ subject arms otherwise => subject.jumps {} ++ armJumps arms ++ optionJumps otherwise
  | .define _ _ value _ | .ret _ value => value.jumps {}
  | .assign _ target value | .update _ _ target value => target.jumps {} ++ value.jumps {}
  | .loneParam (.mk _ _ _ fallback) => optionJumps fallback
  | .loneBranch (.mk _ test body) => test.jumps {} ++ body.jumps {}
  | .loneArm (.mk _ pattern body) => pattern.jumps {} ++ body.jumps {}

/-- The jump trees of nodes. -/
def jumpsOf (around : Loc) : List Node → OutputJumps
  | [] => []
  | n :: ns => n.jumps around ++ jumpsOf around ns

/-- The jump trees of a node that may be missing. -/
def optionJumps : Option Node → OutputJumps
  | none => []
  | some n => n.jumps {}

/-- The jump trees of the entries of an object. -/
def entryJumps : List (String × Node) → OutputJumps
  | [] => []
  | (_, n) :: rest => n.jumps {} ++ entryJumps rest

/-- The jump trees of the defaults of parameters. -/
def paramJumps : List Param → OutputJumps
  | [] => []
  | .mk _ _ _ fallback :: rest => optionJumps fallback ++ paramJumps rest

/-- The jump trees of further branches. -/
def branchJumps : List Branch → OutputJumps
  | [] => []
  | .mk _ test body :: rest => test.jumps {} ++ body.jumps {} ++ branchJumps rest

/-- The jump trees of the arms of a match. -/
def armJumps : List Arm → OutputJumps
  | [] => []
  | .mk _ pattern body :: rest => pattern.jumps {} ++ body.jumps {} ++ armJumps rest
end

theorem jumpsOf_append (around : Loc) (ns ms : List Node) :
    jumpsOf around (ns ++ ms) = jumpsOf around ns ++ jumpsOf around ms := by
  induction ns with
  | nil => rfl
  | cons n ns ih => simp only [List.cons_append, jumpsOf, ih, List.append_assoc]

/-! ### Places -/

section
variable {place place' around around' : Loc} {us : SourceJumps}

/-- A jump that stands for one of the source may be given a place where it has none. -/
theorem realized_jump_place {kind : JumpKind} (h : Realized [.jump kind place] us)
    (hp : place.line ≠ 0 → place = place') : Realized [.jump kind place'] us := by
  obtain ⟨⟨u, hu, h⟩, -⟩ := realized_cons.mp h
  refine realized_cons.mpr ⟨⟨u, hu, ?_⟩, realized_nil⟩
  cases u with
  | jump k p =>
    simp only [JumpTree.Realizes] at h ⊢
    exact ⟨h.1, (hp (h.2 ▸ p.loc_line)).symm.trans h.2⟩
  | loop | function => simp only [JumpTree.Realizes] at h

/-- A loop that stands for one of the source may be given a place where it has none. -/
theorem realized_loop_place {inner : OutputJumps} (h : Realized [.loop place false inner] us)
    (hp : place.line ≠ 0 → place = place') : Realized [.loop place' false inner] us := by
  obtain ⟨⟨u, hu, h⟩, -⟩ := realized_cons.mp h
  refine realized_cons.mpr ⟨⟨u, hu, ?_⟩, realized_nil⟩
  cases u with
  | loop p hasTest us =>
    simp only [JumpTree.Realizes] at h ⊢
    exact ⟨(hp (h.1 ▸ p.loc_line)).symm.trans h.1, h.2⟩
  | jump | function => simp only [JumpTree.Realizes] at h

theorem realized_loop_around (h0 : around.line = 0) {inner : OutputJumps}
    (h : Realized [.loop (loopPlace around place) false inner] us) :
    Realized [.loop (loopPlace around' place) false inner] us := by
  refine realized_loop_place h fun hp => ?_
  unfold loopPlace at hp ⊢
  split at hp
  · exact absurd h0 hp
  · rename_i hne
    rw [if_neg hne, if_neg hne]

/-- Around nodes that stand for trees of the source, a place may be given where there is none. -/
theorem realized_around (h0 : around.line = 0) {ns : List Node}
    (h : Realized (jumpsOf around ns) us) : Realized (jumpsOf around' ns) us := by
  induction ns with
  | nil => exact h
  | cons n ns ih =>
    simp only [jumpsOf, realized_append] at h ⊢
    refine ⟨?_, ih h.2⟩
    cases n with
    | loop => exact realized_loop_around h0 h.1
    | each =>
      simp only [Node.jumps, realized_append] at h ⊢
      exact ⟨h.1.1, realized_loop_around h0 h.1.2⟩
    | loneParam p => cases p; exact h.1
    | loneBranch b => cases b; exact h.1
    | loneArm a => cases a; exact h.1
    | _ => exact h.1

/-- A node that stands for trees of the source may be given a place where it has none. -/
theorem realized_setLoc {n : Node} (h0 : n.loc.line = 0) (h : Realized (n.jumps {}) us) :
    Realized ((n.setLoc place).jumps {}) us := by
  have given {p : Loc} (hp : p.line = 0) : (loopPlace {} p).line ≠ 0 →
      loopPlace {} p = loopPlace {} place := by
    rw [loopPlace, if_pos hp]
    exact fun h => absurd rfl h
  cases n with
  | exit | next => exact realized_jump_place h fun hp => absurd h0 hp
  | loop p statements => exact realized_loop_place h (given h0)
  | each p item items body =>
    simp only [Node.jumps, Node.setLoc, realized_append] at h ⊢
    exact ⟨h.1, realized_loop_place h.2 (given h0)⟩
  | block p statements => exact realized_around h0 h
  | loneParam p => cases p; exact h
  | loneBranch b => cases b; exact h
  | loneArm a => cases a; exact h
  | _ => exact h

end

end AiScript

theorem Conversion.realized_stamp (n : TypeScript.Node) {r : AiScript.Node} {us : SourceJumps}
    (h : Realized (r.jumps {}) us) : Realized ((stamp n r).jumps {}) us := by
  unfold stamp
  split
  · exact AiScript.realized_setLoc ‹_› h
  · exact h

end ScriptBridge
