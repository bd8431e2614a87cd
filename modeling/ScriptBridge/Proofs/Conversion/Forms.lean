import ScriptBridge.Proofs.AiScript.Everywhere
import ScriptBridge.Proofs.Conversion.SourceNames
import ScriptBridge.Proofs.Data.Assoc

/-!
# Forms of the output

What a conversion gives must have forms that can be read back: names that the output can read, known
operators, unique keys, and statements only where a statement can stand. `AiScript.Formed` says so of
one node and `AiScript.Everywhere` of all nodes of a tree; here are the forms that are built of such
trees, and the names that get into them.

* `isReadable`, `TypeScript.Node.named`: a source whose names can be read in the output.
* `isPath_generatedName`, `isPath_hostName`: so can the names that a conversion makes.
* `Valued`, `Stands`: trees that can stand anywhere, and those that can stand as statements.
-/

namespace ScriptBridge.Conversion

open AiScript (IsPath isSegment segmentsText keywords isNamePart)

/-! ## Names -/

/-- Whether a name of the source is a name of the output. -/
def isReadable (name : String) : Bool :=
  isSegment name.toList && !keywords.contains name

variable {name : String}

theorem isReadable_segment (h : isReadable name = true) : isSegment name.toList = true := by
  rw [isReadable, Bool.and_eq_true] at h
  exact h.1

theorem isPath_of_readable (h : isReadable name = true) : IsPath name := by
  rw [isReadable, Bool.and_eq_true, Bool.not_eq_true'] at h
  refine ⟨name.toList, [], by simp [segmentsText], h.1, nofun, ?_⟩
  rw [String.ofList_toList]
  exact h.2

/-- A member of a namespace of the host. -/
theorem isPath_hostName {space : String} (hs : IsPath space) (hn : isSegment name.toList = true) :
    IsPath (space ++ ":" ++ name) := by
  obtain ⟨first, more, htext, hfirst, hmore, hword⟩ := hs
  refine ⟨first, more ++ [name.toList], ?_, hfirst, ?_, hword⟩
  · simp [String.toList_append, htext, segmentsText]
  · intro s hs
    rcases List.mem_append.mp hs with hs | hs
    · exact hmore s hs
    · rwa [List.mem_singleton.mp hs]

theorem digits36_namePart (fuel n : Nat) : ∀ c ∈ digits36 fuel n, isNamePart c = true := by
  have hdigit : ∀ d < 36, isNamePart (digit36 d) = true := by decide
  fun_induction digits36 fuel n with
  | case1 => nofun
  | case2 _ n hn => simpa using hdigit n hn
  | case3 _ n hn ih =>
    exact List.forall_mem_cons.mpr ⟨hdigit _ (Nat.mod_lt _ (by decide)), ih⟩

theorem isPath_generatedName (n : Nat) : IsPath (generatedName n) := by
  refine isPath_of_readable ?_
  have htext : (generatedName n).toList = '_' :: ("_gen_".toList ++
      (List.replicate (5 - (digits36 (n + 1) n).reverse.length) '0' ++
        (digits36 (n + 1) n).reverse)) := by
    simp [generatedName, String.toList_append]
  have hgen : "_gen_".toList.all isNamePart = true := by decide
  have hwords : ∀ w ∈ keywords, w.toList.head? ≠ some '_' := by decide
  rw [isReadable, Bool.and_eq_true, Bool.not_eq_true', htext]
  constructor
  · simp only [isSegment, Bool.and_eq_true, List.all_append, List.all_eq_true]
    refine ⟨by decide, List.all_eq_true.mp hgen, fun c hc => ?_, fun c hc => ?_⟩
    · rw [List.eq_of_mem_replicate hc]
      decide
    · exact digits36_namePart _ _ c (List.mem_reverse.mp hc)
  · rw [List.contains_eq_mem, decide_eq_false_iff_not]
    exact fun hw => hwords _ hw (by rw [htext]; rfl)

end ScriptBridge.Conversion

namespace ScriptBridge.TypeScript.Node

open Conversion (isReadable)

/-! ## Names of the source -/

/-- Whether all names in a node can be read in the output. -/
def named (n : Node) : Bool :=
  n.fold fun n inside => inside.all (fun b => b) && match n with | .ident i => isReadable i.name | _ => true

/-- Nodes all of whose names can be read in the output. -/
def Named (ns : List Node) : Prop :=
  ∀ n ∈ ns, n.named = true

variable {n : Node} {ns ms : List Node}

theorem named_children (h : n.named = true) : Named n.children :=
  speak_children h

@[simp] theorem named_ident {i : Ident} : (ident i).named = isReadable i.name :=
  speaks_ident

@[simp] theorem named_nil : Named [] :=
  speak_nil

@[simp] theorem named_cons : Named (n :: ns) ↔ n.named = true ∧ Named ns :=
  speak_cons

@[simp] theorem named_append : Named (ns ++ ms) ↔ Named ns ∧ Named ms :=
  speak_append

@[simp] theorem named_modifiers (ms : List Modifier) : Named (ms.map Node.modifier) :=
  speak_modifiers ms

@[simp] theorem named_idents {o : Option Ident} :
    Named (o.toList.map Node.ident) ↔ ∀ i ∈ o, isReadable i.name = true :=
  speak_idents

theorem named_unwrap : n.unwrap.named = n.named :=
  speaks_unwrap

theorem named_setModifiers (ms : List Modifier) (h : n.named = true) :
    (n.setModifiers ms).named = true :=
  speaks_setModifiers ms h

/-- A pattern binds names of the source. -/
theorem named_bindingIdentifiers (n : Node) (h : n.named = true) :
    ∀ i ∈ Binding.bindingIdentifiers n, isReadable i.name = true :=
  speaks_bindingIdentifiers n h

theorem named_openTail (ns : List Node) (h : Named ns) : Named (Conversion.openTail ns) :=
  speak_openTail ns h

end ScriptBridge.TypeScript.Node

namespace ScriptBridge.Conversion

open AiScript (IsPath Everywhere Formed Loc Param Branch everywhereAll_iff everywhereEntries_iff
  formed_relocate)

/-! ## Trees of the right form -/

/-- A tree that has the right form as a value. -/
def Valued (n : AiScript.Node) : Prop :=
  Everywhere Formed ⟨.expression, false⟩ n

/-- A tree that has the right form as a statement. -/
def Stands (n : AiScript.Node) : Prop :=
  Everywhere Formed ⟨.statement, false⟩ n

/-- Trees that have the right form as statements. -/
def AllStand (ns : List AiScript.Node) : Prop :=
  ∀ n ∈ ns, Stands n

/-- A parameter of the right form. -/
def ParamFits : Param → Prop
  | .mk _ name _ fallback => IsPath name.text ∧ ∀ v ∈ fallback, Valued v

/-- A branch of the right form. -/
def BranchFits : Branch → Prop
  | .mk _ test body => Valued test ∧ Stands body

variable {l : Loc} {n target key value test body : AiScript.Node} {ns ms : List AiScript.Node}
  {name op : String}

/-- A value is also a statement. -/
theorem Valued.stands (h : Valued n) : Stands n :=
  formed_relocate h fun _ => rfl

@[simp] theorem allStand_nil : AllStand [] :=
  fun _ h => nomatch h

@[simp] theorem allStand_cons : AllStand (n :: ns) ↔ Stands n ∧ AllStand ns :=
  List.forall_mem_cons

@[simp] theorem allStand_append : AllStand (ns ++ ms) ↔ AllStand ns ∧ AllStand ms :=
  List.forall_mem_append

/-! ### Values -/

@[simp] theorem valued_ident : Valued (.ident l name) ↔ IsPath name :=
  Iff.rfl

@[simp] theorem valued_num {x : Double} : Valued (.num l x) :=
  trivial

@[simp] theorem valued_str : Valued (.str l name) :=
  trivial

@[simp] theorem valued_bool {b : Bool} : Valued (.bool l b) :=
  trivial

@[simp] theorem valued_null : Valued (.null l) :=
  trivial

@[simp] theorem valued_prop : Valued (.prop l target name) ↔ Valued target :=
  ⟨fun h => h.2, fun h => ⟨trivial, h⟩⟩

@[simp] theorem valued_index : Valued (.index l target key) ↔ Valued target ∧ Valued key :=
  ⟨fun h => h.2, fun h => ⟨trivial, h⟩⟩

@[simp] theorem valued_call : Valued (.call l target ns) ↔ Valued target ∧ ∀ n ∈ ns, Valued n :=
  ⟨fun h => ⟨h.2.1, everywhereAll_iff.mp h.2.2⟩, fun h => ⟨trivial, h.1, everywhereAll_iff.mpr h.2⟩⟩

@[simp] theorem valued_unary : Valued (.unary l op value) ↔ op ∈ ["!", "+", "-"] ∧ Valued value :=
  Iff.rfl

@[simp] theorem valued_binary : Valued (.binary l op target value) ↔
    op ∈ AiScript.binaryOperators ∧ Valued target ∧ Valued value :=
  Iff.rfl

@[simp] theorem valued_arr : Valued (.arr l ns) ↔ ∀ n ∈ ns, Valued n :=
  ⟨fun h => everywhereAll_iff.mp h.2, fun h => ⟨trivial, everywhereAll_iff.mpr h⟩⟩

@[simp] theorem valued_obj {es : List (String × AiScript.Node)} :
    Valued (.obj l es) ↔ (es.map Prod.fst).Nodup ∧ ∀ e ∈ es, Valued e.2 :=
  ⟨fun h => ⟨h.1, everywhereEntries_iff.mp h.2⟩, fun h => ⟨h.1, everywhereEntries_iff.mpr h.2⟩⟩

theorem valued_tmpl (h : ∀ n ∈ ns, Valued n) : Valued (.tmpl l ns) :=
  ⟨trivial, AiScript.everywhereParts_of_forall fun n hn => formed_relocate (h n hn) fun _ => rfl⟩

theorem valued_fn {ps : List Param} (hp : ∀ p ∈ ps, ParamFits p) (hs : AllStand ns) :
    Valued (.fn l ps ns) := by
  have hparams : AiScript.EverywhereParams Formed ⟨.expression, false⟩ ps := by
    induction ps with
    | nil => trivial
    | cons p ps ih =>
      obtain ⟨_, name, _, fallback⟩ := p
      obtain ⟨hfits, hps⟩ := List.forall_mem_cons.mp hp
      cases fallback with
      | none => exact ⟨trivial, ih hps⟩
      | some v => exact ⟨hfits.2 v rfl, ih hps⟩
  refine ⟨fun p hmem => ?_, hparams, everywhereAll_iff.mpr hs⟩
  obtain ⟨_, _, _, _⟩ := p
  exact (hp _ hmem).1

@[simp] theorem valued_block : Valued (.block l ns) ↔ AllStand ns :=
  ⟨fun h => everywhereAll_iff.mp h.2, fun h => ⟨trivial, everywhereAll_iff.mpr h⟩⟩

theorem valued_cond {bs : List Branch} {otherwise : Option AiScript.Node} (ht : Valued test)
    (hb : Stands body) (hbs : ∀ b ∈ bs, BranchFits b) (ho : ∀ n ∈ otherwise, Stands n) :
    Valued (.cond l test body bs otherwise) := by
  have hbody {n : AiScript.Node} (h : Stands n) : Everywhere Formed ⟨.body, false⟩ n :=
    formed_relocate h nofun
  refine ⟨trivial, ht, hbody hb, ?_, ?_⟩
  · induction bs with
    | nil => trivial
    | cons b bs ih =>
      obtain ⟨_, test, body⟩ := b
      obtain ⟨hfits, hbs⟩ := List.forall_mem_cons.mp hbs
      exact ⟨hfits.1, hbody hfits.2, ih hbs⟩
  · cases otherwise with
    | none => trivial
    | some n => exact hbody (ho n rfl)

/-! ### Statements -/

@[simp] theorem stands_define {isMutable : Bool} :
    Stands (define name value isMutable) ↔ IsPath name ∧ Valued value :=
  ⟨fun h => ⟨h.1.1, h.2⟩, fun h => ⟨⟨h.1, nofun⟩, h.2⟩⟩

@[simp] theorem stands_assign : Stands (.assign l target value) ↔ Valued target ∧ Valued value :=
  ⟨fun h => h.2, fun h => ⟨nofun, h⟩⟩

@[simp] theorem stands_update : Stands (.update l op target value) ↔
    op ∈ ["+=", "-="] ∧ Valued target ∧ Valued value :=
  ⟨fun h => ⟨h.1.1, h.2⟩, fun h => ⟨⟨h.1, nofun⟩, h.2⟩⟩

@[simp] theorem stands_ret : Stands (.ret l value) ↔ Valued value :=
  ⟨fun h => h.2, fun h => ⟨nofun, h⟩⟩

@[simp] theorem stands_exit : Stands (.exit l) :=
  nofun

@[simp] theorem stands_next : Stands (.next l) :=
  nofun

@[simp] theorem stands_loop : Stands (.loop l ns) ↔ AllStand ns :=
  ⟨fun h => everywhereAll_iff.mp h.2, fun h => ⟨nofun, everywhereAll_iff.mpr h⟩⟩

@[simp] theorem stands_block : Stands (.block l ns) ↔ AllStand ns :=
  ⟨fun h => everywhereAll_iff.mp h.2, fun h => ⟨trivial, everywhereAll_iff.mpr h⟩⟩

theorem stands_each {item : AiScript.Name} (hn : IsPath item.text) (hv : Valued value)
    (hb : Stands body) : Stands (.each l item value body) :=
  ⟨⟨hn, nofun⟩, hv, formed_relocate hb nofun⟩

/-! ### Places -/

theorem formed_setLoc {s : AiScript.Site} :
    Everywhere Formed s (n.setLoc l) ↔ Everywhere Formed s n := by
  cases n with
  | loneParam x | loneBranch x | loneArm x => cases x; exact Iff.rfl
  | _ => exact Iff.rfl

@[simp] theorem valued_stamp {source : TypeScript.Node} : Valued (stamp source n) ↔ Valued n := by
  unfold stamp
  split
  · exact formed_setLoc
  · exact Iff.rfl

@[simp] theorem allStand_stamp {source : TypeScript.Node} :
    AllStand (ns.map (stamp source)) ↔ AllStand ns := by
  have hstamp (n : AiScript.Node) : Stands (stamp source n) ↔ Stands n := by
    unfold stamp
    split
    · exact formed_setLoc
    · exact Iff.rfl
  simp only [AllStand, List.forall_mem_map, hstamp]

/-! ### What constructs are built of -/

theorem stands_asOne (h : AllStand ns) : Stands (asOne ns) := by
  unfold asOne
  split
  · exact h _ (List.mem_singleton.mpr rfl)
  · exact stands_block.mpr h

theorem valued_member (h : Valued value) : Valued (member value name) := by
  unfold member
  split <;> simpa using h

theorem valued_element {i : Nat} (h : Valued value) : Valued (element value i) := by
  simpa [element] using h

theorem valued_anyOf (hf : Valued n) (hr : ∀ n ∈ ns, Valued n) : Valued (anyOf n ns) := by
  induction ns generalizing n with
  | nil => exact hf
  | cons next rest ih =>
    obtain ⟨hn, hr⟩ := List.forall_mem_cons.mp hr
    exact ih (valued_binary.mpr ⟨by decide, hf, hn⟩) hr

theorem stands_stepBy (operator : String) (h : Valued target) : Stands (stepBy operator target) := by
  refine stands_update.mpr ⟨?_, h, valued_num⟩
  unfold stepOperator
  split <;> decide

/-- The first round of a loop and all later ones. -/
theorem stands_afterFirst (hn : IsPath name) (h : AllStand ns) : Stands (afterFirst name ns) := by
  refine Valued.stands (valued_cond (valued_ident.mpr hn) ?_ (by simp) ?_)
  · simp [hn]
  · rintro _ ⟨⟩
    exact stands_block.mpr h

theorem binaryOperators_of_table {operator : String} (h : operatorTable.lookup operator = some op) :
    op ∈ AiScript.binaryOperators := by
  have htable : ∀ e ∈ operatorTable, e.2 ∈ AiScript.binaryOperators := by decide
  exact htable _ (Assoc.mem_of_lookup h)

theorem binaryOperators_of_expanded {operator : String}
    (h : expandedAssignments.lookup operator = some op) : op ∈ AiScript.binaryOperators := by
  have htable : ∀ e ∈ expandedAssignments, e.2 ∈ AiScript.binaryOperators := by decide
  exact htable _ (Assoc.mem_of_lookup h)

theorem valued_templateText (text : String) : ∀ n ∈ templateText text, Valued n := by
  unfold templateText
  split <;> simp

/-- The cases of a switch have the right form. -/
structure Cases.Fit (cases : Cases) : Prop where
  branches : ∀ b ∈ cases.branches, Valued b.1 ∧ Stands b.2
  default : AllStand cases.default
  pending : ∀ n ∈ cases.pending, Valued n

theorem Cases.Fit.statements {cases : Cases} (h : cases.Fit) : AllStand cases.statements := by
  unfold Cases.statements
  split
  · exact h.default
  · rename_i test body rest hb
    have hbranches := h.branches
    rw [hb] at hbranches
    obtain ⟨⟨htest, hbody⟩, hrest⟩ := List.forall_mem_cons.mp hbranches
    refine allStand_cons.mpr ⟨(valued_cond htest hbody ?_ ?_).stands, allStand_nil⟩
    · simp only [List.forall_mem_map]
      exact fun b hb => hrest b hb
    · split
      · nofun
      · rintro n ⟨⟩
        exact stands_block.mpr h.default

theorem valued_exportTable {table : List (String × String)} (hk : (table.map Prod.fst).Nodup)
    (hn : ∀ e ∈ table, IsPath e.2) : Valued (exportTable table) := by
  refine valued_obj.mpr ⟨?_, ?_⟩
  · rw [List.map_map]
    exact hk
  · simp only [List.forall_mem_map]
    exact fun e he => valued_ident.mpr (hn e he)

end ScriptBridge.Conversion
