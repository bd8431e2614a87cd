import ScriptBridge.Proofs.AiScript.Scope
import ScriptBridge.Proofs.Conversion.ExportTable
import ScriptBridge.Proofs.Conversion.Exported
import ScriptBridge.Proofs.Conversion.Scoped

/-!
# Where definitions land

A statement of the source defines names in the list of output statements that it becomes part of, and
blocks, loops and functions of the output each have such a list of their own. Some lists of the source
are joined on the way: a pattern in the place of a parameter or a loop variable is taken apart at the
start of the body, blocks at the end of a case are opened, and a switch with no case but the default
one becomes part of the list around it.

Only ordinary names are looked at. A name that is spelled like a generated one cannot be told from
those that the conversion makes up.

* `AiScript.Node.lists`: the lists of statements in an output.
* `landing`, `Node.lists`: the identifiers that a statement defines in the list around it, and those of
  all lists that come from a node.
* `Lands`: statements that define what some declarations declare, with lists that come from a source.
* `Within`: what a step gives in a module of a program.
-/

namespace ScriptBridge.AiScript

mutual
/-- The lists of statements in a node. -/
def Node.lists : Node → List (List Node)
  | .num .. | .str .. | .bool .. | .null .. | .ident .. | .exit .. | .next .. | .bare .. => []
  | .block _ statements | .loop _ statements => statements :: listsOf statements
  | .fn _ params body => body :: (paramLists params ++ listsOf body)
  | .each _ _ items body => items.lists ++ body.lists
  | .tmpl _ nodes | .arr _ nodes => listsOf nodes
  | .obj _ entries => entryLists entries
  | .prop _ target _ => target.lists
  | .index _ target key => target.lists ++ key.lists
  | .call _ target args => target.lists ++ listsOf args
  | .unary _ _ operand => operand.lists
  | .binary _ _ left right => left.lists ++ right.lists
  | .cond _ test body branches otherwise =>
    test.lists ++ body.lists ++ branchLists branches ++ optionLists otherwise
  | .select _ subject arms otherwise => subject.lists ++ armLists arms ++ optionLists otherwise
  | .define _ _ value _ | .ret _ value => value.lists
  | .assign _ target value | .update _ _ target value => target.lists ++ value.lists
  | .loneParam (.mk _ _ _ fallback) => optionLists fallback
  | .loneBranch (.mk _ test body) => test.lists ++ body.lists
  | .loneArm (.mk _ pattern body) => pattern.lists ++ body.lists

/-- The lists of statements in nodes. -/
def listsOf : List Node → List (List Node)
  | [] => []
  | n :: ns => n.lists ++ listsOf ns

/-- The lists of statements in a node that may be missing. -/
def optionLists : Option Node → List (List Node)
  | none => []
  | some n => n.lists

/-- The lists of statements in the entries of an object. -/
def entryLists : List (String × Node) → List (List Node)
  | [] => []
  | (_, n) :: rest => n.lists ++ entryLists rest

/-- The lists of statements in the defaults of parameters. -/
def paramLists : List Param → List (List Node)
  | [] => []
  | .mk _ _ _ fallback :: rest => optionLists fallback ++ paramLists rest

/-- The lists of statements in further branches. -/
def branchLists : List Branch → List (List Node)
  | [] => []
  | .mk _ test body :: rest => test.lists ++ body.lists ++ branchLists rest

/-- The lists of statements in the arms of a match. -/
def armLists : List Arm → List (List Node)
  | [] => []
  | .mk _ pattern body :: rest => pattern.lists ++ body.lists ++ armLists rest
end

@[simp] theorem listsOf_append (ns ms : List Node) : listsOf (ns ++ ms) = listsOf ns ++ listsOf ms := by
  induction ns with
  | nil => rfl
  | cons n ns ih => simp only [List.cons_append, listsOf, ih, List.append_assoc]

/-- Places do not matter. -/
theorem Node.lists_setLoc (l : Loc) (n : Node) : (n.setLoc l).lists = n.lists := by
  cases n with
  | loneParam p | loneBranch p | loneArm p => cases p; rfl
  | _ => rfl

end ScriptBridge.AiScript

namespace ScriptBridge.Conversion

open TypeScript Binding
open AiScript (listsOf)

/-! ## The source -/

/-- The identifiers that an import of several names defines. -/
def importedIdents (p : Program) (elements : List Node) : List Ident :=
  elements.flatMap fun
    | .importSpecifier _ _ i isTypeOnly => if isTypeOnly || isTypeIn p i then [] else [i]
    | _ => []

/-- A statement as a part of a case. -/
structure Entry where
  /-- Whether the case ends with it. -/
  isEnd : Bool
  /-- The identifiers that it defines. -/
  names : List Ident

/-- A statement as a part of a list of statements, and as the last one of a case. -/
structure Landing where
  entry : Entry
  /-- The statements that it is opened to at the end of a case. -/
  opened : List Entry

/-- Statements with blocks at the very end opened. -/
def openedEntries : List Landing → List Entry
  | [] => []
  | l :: rest =>
    match openedEntries rest with
    | [] => l.opened
    | entries => l.entry :: entries

/-- The identifiers that statements define up to the end of the case. -/
def namesToEnd : List Entry → List Ident
  | [] => []
  | e :: rest => if e.isEnd then [] else e.names ++ namesToEnd rest

/-- Whether a case ends with a statement. -/
def isCaseEnd : Node → Bool
  | .breakStatement _ none | .returnStatement .. => true
  | _ => false

/-- Whether a clause is a case with statements. -/
def hasBody : Node → Bool
  | .caseClause _ _ (_ :: _) => true
  | _ => false

/-- The identifiers that the last default case among clauses defines, from what the clauses do. -/
def lastDefault (names : List Ident) : List (Node × Landing) → List Ident
  | [] => names
  | (.defaultClause .., l) :: rest => lastDefault l.entry.names rest
  | _ :: rest => lastDefault names rest

/-- How a node lands, from how its children do. A default case that is the only case with statements is
part of the list around the switch. -/
def landingStep (p : Program) (n : Node) (inside : List Landing) : Landing :=
  let names := match n with
    | .variableStatement _ modifiers list =>
      if hasModifier modifiers "declare" then [] else variableNames list
    | .functionDeclaration _ modifiers name _ (some _) _ _ _ _ =>
      if hasModifier modifiers "declare" then [] else name.toList
    | .importDeclaration _ (some (.importClause _ name allAs elements false)) _ _ =>
      name.toList.filter (!isTypeIn p ·) ++ allAs.toList ++ importedIdents p (elements.getD [])
    | .switchStatement _ _ clauses =>
      if clauses.any hasBody then [] else lastDefault [] (clauses.zip inside.tail)
    | .defaultClause .. => namesToEnd (openedEntries inside)
    | _ => []
  let entry := ⟨isCaseEnd n, names⟩
  { entry
    opened := match n with
      | .block .. => openedEntries inside
      | _ => [entry] }

/-- How a node lands. -/
def landingOf (p : Program) (n : Node) : Landing :=
  n.fold (landingStep p)

/-- A node as a part of a case. -/
def entryOf (p : Program) (n : Node) : Entry :=
  (landingOf p n).entry

/-- The identifiers that a statement defines in the list around it, and those that a default case
does. -/
def landing (p : Program) (n : Node) : List Ident :=
  (entryOf p n).names

/-- The identifiers that statements define one after the other. -/
def landings (p : Program) (ns : List Node) : List Ident :=
  ns.flatMap (landing p)

/-- The identifiers that the body of a case defines. -/
def caseNames (p : Program) (ns : List Node) : List Ident :=
  namesToEnd ((openTail ns).map (entryOf p))

/-- The identifiers that the default case among clauses defines; of several ones, the last. -/
def defaultNames (p : Program) (names : List Ident) : List Node → List Ident
  | [] => names
  | .defaultClause _ ns :: rest => defaultNames p (caseNames p ns) rest
  | _ :: rest => defaultNames p names rest

section
variable (p : Program)

theorem landingOf_eq (n : Node) : landingOf p n = landingStep p n (n.children.map (landingOf p)) := by
  rw [landingOf, Node.fold_eq]
  rfl

theorem landing_eq (n : Node) :
    landing p n = (landingStep p n (n.children.map (landingOf p))).entry.names := by
  rw [landing, entryOf, landingOf_eq]

theorem isEnd_entryOf (n : Node) : (entryOf p n).isEnd = isCaseEnd n := by
  rw [entryOf, landingOf_eq]
  rfl

mutual
theorem openLast_entries (n : Node) : (landingOf p n).opened = (openLast n).map (entryOf p) := by
  fun_cases openLast n with
  | case1 m statements =>
    rw [landingOf_eq]
    exact openTail_entries statements
  | case2 n hn =>
    rw [List.map_singleton, entryOf, landingOf_eq]
    unfold landingStep
    dsimp only
    split
    · exact absurd rfl (hn _ _)
    · rfl
termination_by sizeOf n
decreasing_by all_goals (subst_vars; decreasing_tactic)

theorem openTail_entries (ns : List Node) :
    openedEntries (ns.map (landingOf p)) = (openTail ns).map (entryOf p) := by
  fun_cases openTail ns with
  | case1 => rfl
  | case2 n rest ho =>
    rw [List.map_cons, openedEntries, openTail_entries rest, ho]
    exact openLast_entries n
  | case3 n rest ho =>
    rw [List.map_cons, openedEntries, openTail_entries rest]
    split
    · rename_i hnone
      exact absurd (List.map_eq_nil_iff.mp hnone) ho
    · rfl
termination_by sizeOf ns
decreasing_by all_goals (subst_vars; decreasing_tactic)
end

theorem landing_defaultClause (m : Mark) (ns : List Node) :
    landing p (.defaultClause m ns) = caseNames p ns := by
  rw [landing_eq, caseNames, ← openTail_entries]
  rfl

theorem lastDefault_eq (names : List Ident) (clauses : List Node) :
    lastDefault names (clauses.zip (clauses.map (landingOf p))) = defaultNames p names clauses := by
  fun_induction defaultNames p names clauses with
  | case1 => rfl
  | case2 names m ns rest ih =>
    rw [← ih, ← landing_defaultClause]
    rfl
  | case3 names n rest hn ih =>
    rw [List.map_cons, List.zip_cons_cons, lastDefault, ih]
    exact fun m ns _ h => hn m ns (congrArg Prod.fst h)

theorem landing_switch (m : Mark) (subject : Node) (clauses : List Node) :
    landing p (.switchStatement m subject clauses) =
      if clauses.any hasBody then [] else defaultNames p [] clauses := by
  rw [landing_eq, ← lastDefault_eq]
  rfl

end

/-! ### Lists of the source -/

/-- The identifiers that a pattern in the place of a name defines. -/
def targetNames : Node → List Ident
  | .ident _ => []
  | pattern => bindingIdentifiers pattern

/-- The identifiers that patterns in the place of parameters define. -/
def paramNames : List Node → List Ident
  | [] => []
  | .parameter _ target _ _ _ _ :: rest => targetNames target ++ paramNames rest
  | _ :: rest => paramNames rest

/-- The identifiers that a pattern in the place of a loop variable defines. -/
def itemNames : Node → List Ident
  | .variableList _ _ [.variableDeclaration _ target _ _] => targetNames target
  | _ => []

/-- The identifiers that a `for` statement starts with. -/
def startNames : Option Node → List Ident
  | some list => variableNames list
  | none => []

/-- The identifiers that the body of a function defines; an expression defines none. -/
def bodyNames (p : Program) : Node → List Ident
  | .block _ ns => landings p ns
  | _ => []

/-- The identifiers that the body of a loop defines. -/
def roundNames (p : Program) : Node → List Ident
  | .block _ ns => landings p ns
  | n => landing p n

/-- The identifiers of the lists that a node itself makes. -/
def ownLists (p : Program) : Node → List (List Ident)
  | .block _ ns => [landings p ns]
  | .functionDeclaration _ _ _ params (some body) _ _ _ _ | .function _ _ params body _ _ _ _
  | .arrow _ params body _ _ _ | .method _ _ params body _ _ _ _ =>
    [paramNames params ++ bodyNames p body]
  | .forStatement _ start _ _ body => [startNames start, roundNames p body]
  | .whileStatement _ _ body | .doStatement _ body _ => [roundNames p body]
  | .forOfStatement _ target _ body _ => [itemNames target ++ roundNames p body]
  | .ifStatement _ _ body otherwise => landing p body :: otherwise.toList.map (landing p)
  | .caseClause _ _ ns | .defaultClause _ ns => [caseNames p ns]
  | _ => []

/-- The identifiers that each list of statements from a node defines. -/
def sourceLists (p : Program) (n : Node) : List (List Ident) :=
  n.fold fun n inside => ownLists p n ++ inside.flatten

/-- The lists of statements from nodes are among some lists. -/
def ListsIn (p : Program) (us : List (List Ident)) (ns : List Node) : Prop :=
  ∀ n ∈ ns, sourceLists p n ⊆ us

section
variable {p : Program} {us : List (List Ident)} {n : Node} {ns ms : List Node}

theorem sourceLists_eq (p : Program) (n : Node) :
    sourceLists p n = ownLists p n ++ (n.children.map (sourceLists p)).flatten := by
  rw [sourceLists, Node.fold_eq]
  rfl

@[simp] theorem listsIn_cons : ListsIn p us (n :: ns) ↔ sourceLists p n ⊆ us ∧ ListsIn p us ns :=
  List.forall_mem_cons

@[simp] theorem listsIn_append : ListsIn p us (ns ++ ms) ↔ ListsIn p us ns ∧ ListsIn p us ms :=
  List.forall_mem_append

theorem listsIn_flatten (ns : List Node) : ListsIn p (ns.map (sourceLists p)).flatten ns :=
  fun n hn _ ht => List.mem_flatten.mpr ⟨sourceLists p n, List.mem_map_of_mem hn, ht⟩

theorem listsIn_children (h : sourceLists p n ⊆ us) : ListsIn p us n.children := by
  rw [sourceLists_eq] at h
  exact fun m hm => List.Subset.trans (listsIn_flatten _ m hm)
    (List.Subset.trans (List.subset_append_right _ _) h)

theorem ownLists_subset (h : sourceLists p n ⊆ us) : ownLists p n ⊆ us := by
  rw [sourceLists_eq] at h
  exact List.Subset.trans (List.subset_append_left _ _) h

theorem sourceLists_unwrap (n : Node) : sourceLists p n.unwrap = sourceLists p n :=
  Node.apply_unwrap (fun m e => by simp [sourceLists_eq p (.parenthesized m e), ownLists,
    Node.children]) n

mutual
theorem openLast_listsIn (n : Node) (h : ListsIn p us [n]) : ListsIn p us (openLast n) := by
  fun_cases openLast n with
  | case1 m ns => exact openTail_listsIn ns (listsIn_children (listsIn_cons.mp h).1)
  | case2 => exact h
termination_by sizeOf n
decreasing_by all_goals (subst_vars; decreasing_tactic)

theorem openTail_listsIn (ns : List Node) (h : ListsIn p us ns) : ListsIn p us (openTail ns) := by
  fun_cases openTail ns with
  | case1 => exact h
  | case2 n rest _ => exact openLast_listsIn n (listsIn_cons.mpr ⟨(listsIn_cons.mp h).1, nofun⟩)
  | case3 n rest _ =>
    obtain ⟨hn, hr⟩ := listsIn_cons.mp h
    exact listsIn_cons.mpr ⟨hn, openTail_listsIn rest hr⟩
termination_by sizeOf ns
decreasing_by all_goals (subst_vars; decreasing_tactic)
end

end

/-! ## The output -/

/-- The ordinary names of identifiers. -/
def namesOf (ids : List Ident) : List String :=
  (ids.map (·.name)).filter isOrdinary

/-- The ordinary names that statements define. -/
def definedNames (ns : List AiScript.Node) : List String :=
  (ns.flatMap AiScript.Node.defines).filter isOrdinary

/-- Lists of statements define nothing, or what some lists of the source do. -/
def Held (us : List (List Ident)) (lists : List (List AiScript.Node)) : Prop :=
  ∀ ns ∈ lists, ∃ ids ∈ [] :: us, definedNames ns = namesOf ids

/-- Statements define what identifiers name, and the lists in them come from lists of the source. -/
structure Lands (us : List (List Ident)) (ids : List Ident) (ns : List AiScript.Node) : Prop where
  held : Held us (listsOf ns)
  names : definedNames ns = namesOf ids

section
variable {us : List (List Ident)} {ids more : List Ident} {ns ms : List AiScript.Node}
  {r : AiScript.Node} {lists lists' : List (List AiScript.Node)}

@[simp] theorem namesOf_append (ids more : List Ident) :
    namesOf (ids ++ more) = namesOf ids ++ namesOf more := by
  simp only [namesOf, List.map_append, List.filter_append]

@[simp] theorem definedNames_append (ns ms : List AiScript.Node) :
    definedNames (ns ++ ms) = definedNames ns ++ definedNames ms := by
  simp only [definedNames, List.flatMap_append, List.filter_append]

@[simp] theorem held_nil : Held us [] :=
  fun _ h => nomatch h

@[simp] theorem held_cons : Held us (ns :: lists) ↔
    (∃ ids ∈ [] :: us, definedNames ns = namesOf ids) ∧ Held us lists :=
  List.forall_mem_cons

@[simp] theorem held_append : Held us (lists ++ lists') ↔ Held us lists ∧ Held us lists' :=
  List.forall_mem_append

@[simp] theorem lands_nil : Lands us [] [] :=
  ⟨held_nil, rfl⟩

theorem Lands.append (h : Lands us ids ns) (h' : Lands us more ms) :
    Lands us (ids ++ more) (ns ++ ms) where
  held := by
    rw [AiScript.listsOf_append]
    exact held_append.mpr ⟨h.held, h'.held⟩
  names := by rw [definedNames_append, namesOf_append, h.names, h'.names]

/-- A node that defines nothing. -/
theorem Lands.single (h : Held us r.lists) (hr : r.defines = []) : Lands us [] [r] where
  held := by
    rw [listsOf, listsOf, List.append_nil]
    exact h
  names := by simp [definedNames, namesOf, hr]

theorem Lands.held_lists (h : Lands us ids [r]) : Held us r.lists := by
  have := h.held
  rwa [listsOf, listsOf, List.append_nil] at this

/-- Statements that define what a list of the source does can be a list of their own. -/
theorem Lands.held_cons (h : Lands us ids ns) (hi : ids ∈ [] :: us) : Held us (ns :: listsOf ns) :=
  Conversion.held_cons.mpr ⟨⟨ids, hi, h.names⟩, h.held⟩

theorem Lands.block (h : Lands us ids ns) (hi : ids ∈ [] :: us) : Lands us [] [.block {} ns] :=
  .single (h.held_cons hi) rfl

theorem Lands.loop (h : Lands us ids ns) (hi : ids ∈ [] :: us) : Lands us [] [.loop {} ns] :=
  .single (h.held_cons hi) rfl

/-- The definition of an identifier. -/
theorem Lands.define (i : Ident) (h : Held us r.lists) (isMutable : Bool) :
    Lands us [i] [define i.name r isMutable] where
  held := by
    rw [listsOf, listsOf, List.append_nil]
    exact h
  names := rfl

/-- The definition of a generated name. -/
theorem Lands.define_generated {name : String} (hn : isGenerated name = true) (h : Held us r.lists)
    (isMutable : Bool) : Lands us [] [Conversion.define name r isMutable] where
  held := by
    rw [listsOf, listsOf, List.append_nil]
    exact h
  names := by simp [definedNames, namesOf, Conversion.define, AiScript.Node.defines, isOrdinary, hn]

theorem lists_stamp (n : Node) (r : AiScript.Node) : (stamp n r).lists = r.lists := by
  unfold stamp
  split
  · exact r.lists_setLoc _
  · rfl

/-- Statements may be given places. -/
theorem Lands.stamp (n : Node) (h : Lands us ids ns) : Lands us ids (ns.map (stamp n)) where
  held := by
    have hlists : listsOf (ns.map (Conversion.stamp n)) = listsOf ns := by
      clear h
      induction ns with
      | nil => rfl
      | cons r ns ih => rw [List.map_cons, listsOf, listsOf, ih, lists_stamp]
    rw [hlists]
    exact h.held
  names := by
    rw [← h.names, definedNames, definedNames, List.flatMap_map]
    simp only [defines_stamp]

/-- Statements as one node. -/
theorem Lands.held_asOne (h : Lands us ids ns) (hi : ids ∈ [] :: us) : Held us (asOne ns).lists := by
  unfold asOne
  split
  · exact h.held_lists
  · exact h.held_cons hi

end

/-! ## Steps in a module of a program -/

/-- What a step gives in every module of a program satisfies a predicate. -/
abbrev Within {α : Type} (p : Program) (m : ConvertM α) (P : α → Prop) : Prop :=
  Carries (fun context _ => context.program = p) m P

section
variable {α β : Type} {p : Program} {m : ConvertM α} {P : α → Prop}

theorem Yields.within (h : Yields m P) : Within p m P :=
  fun c s a s' hI he => ⟨h c s a s' he, hI⟩

/-- A step whose value does not matter. -/
theorem within_bind {f : α → ConvertM β} {R : β → Prop} (hf : ∀ a, Within p (f a) R) :
    Within p (m >>= f) R :=
  Carries.next (Yields.within (yields_of_forall fun _ => trivial)) hf

theorem within_freshName : Within p freshName fun name => isGenerated name = true := by
  refine carries_freshName.mono ?_
  rintro _ ⟨k, rfl⟩
  exact isGenerated_generatedName k

/-- Whether a name is one of a type is known from the program. -/
theorem within_isTypeName (i : Ident) : Within p (isTypeName i) (· = isTypeIn p i) := by
  intro c s a s' hI he
  subst hI
  cases he
  exact ⟨rfl, rfl⟩

end

end ScriptBridge.Conversion
