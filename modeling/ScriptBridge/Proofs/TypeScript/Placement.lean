import ScriptBridge.Proofs.TypeScript.Children

/-!
# How the regions of a tree lie

The region of a node holds those of its children, and siblings have nothing in common. There are nodes
whose region ends early: it is taken when only what stands before the last child has been read. A node
built around a left operand starts where the operand does; the accesses in the head of a `new` expression
or a type query start with its first word instead.

* `Node.Nests`: a node and its children.
* `Node.headAccesses`: the accesses that start with a first word.
* `Placed`: a whole tree, from the outside in.
* `Placed.of_mem_preorder`: what it says of the nodes of the tree.
-/

namespace ScriptBridge.TypeScript

/-- One region lies in another one. -/
structure Span.Inside (inner outer : Span) : Prop where
  start_le : outer.start ≤ inner.start
  stop_le : inner.stop ≤ outer.stop

/-- Two regions have nothing in common. -/
def Span.Apart (a b : Span) : Prop :=
  a.stop ≤ b.start ∨ b.stop ≤ a.start

theorem Span.Apart.symm {a b : Span} (h : a.Apart b) : b.Apart a :=
  Or.symm h

namespace Node

/-- Whether the region of a node ends before its last child: operators that are words, spread properties,
and handlers. -/
def endsEarly : Node → Bool
  | typeOf .. | voidOf .. | deleteOf .. | awaitOf .. | spreadProperty .. | catchClause .. => true
  | _ => false

/-- The children that the region of a node holds. -/
def held (n : Node) : List Node :=
  if n.endsEarly then n.children.dropLast else n.children

/-- A node holds its children, which have nothing in common; if it ends early, its last child is behind
it. -/
structure Nests (n : Node) : Prop where
  ordered : n.span.start ≤ n.span.stop
  apart : n.children.Pairwise fun a b => a.span.Apart b.span
  inside : ∀ c ∈ n.held, c.span.Inside n.span
  behind : n.endsEarly = true → ∃ c, n.children.getLast? = some c ∧ n.span.stop ≤ c.span.start

/-- The left operand that a node is built around. -/
def leftOperand? : Node → Option Node
  | propertyAccess _ e _ _ | elementAccess _ e _ _ | call _ e _ _ | postfixUnary _ e _
  | binary _ e _ _ | conditional _ e _ _ | asType _ e _ | satisfiesType _ e _ | nonNull _ e => some e
  | _ => none

/-- The accesses at the left end of an expression, from the outermost one inwards. -/
def accessChain : Node → List Node
  | n@(propertyAccess _ e _ _) | n@(elementAccess _ e _ _) => n :: e.accessChain
  | _ => []

/-- The accesses in the head of a `new` expression or a type query. -/
def headAccesses : Node → List Node
  | construct _ e _ | typeQuery _ e => e.accessChain
  | _ => []

/-- Where accesses at the left end of the first child can start, if those of the node itself can start at
`head`. -/
def headFor : Node → Option Nat → Option Nat
  | construct m _ _, _ | typeQuery m _, _ => some m.span.start
  | propertyAccess .., head | elementAccess .., head => head
  | _, _ => none

variable {n c e : Node} {head : Option Nat} {offset : Nat}

theorem headFor_eq (n : Node) (head : Option Nat) :
    n.headFor head = head ∨ ∀ other, n.headFor other = n.headFor head := by
  cases n <;> first
    | exact .inr fun _ => rfl
    | exact .inl rfl

/-- Accesses of the first child that can start elsewhere are in the head of the node, or at its left end. -/
theorem accessChain_of_headFor (hc : n.children.head? = some c) (h : n.headFor head = some offset) :
    n.headAccesses = c.accessChain ∧ offset = n.span.start ∨
      n.accessChain = n :: c.accessChain ∧ head = some offset := by
  unfold headFor at h
  split at h <;> cases h <;> cases hc
  · exact .inl ⟨rfl, rfl⟩
  · exact .inl ⟨rfl, rfl⟩
  · exact .inr ⟨rfl, rfl⟩
  · exact .inr ⟨rfl, rfl⟩

/-- Of the nodes built around a left operand, only accesses can start elsewhere. -/
theorem mem_accessChain_of_headFor (he : e ∈ n.leftOperand?) (h : n.headFor head = some offset) :
    n ∈ n.accessChain ∧ head = some offset := by
  unfold headFor at h
  split at h <;> cases h <;> cases he
  · exact ⟨List.mem_cons_self, rfl⟩
  · exact ⟨List.mem_cons_self, rfl⟩

/-- The left operand of a node is its first child. -/
theorem head?_of_leftOperand (he : e ∈ n.leftOperand?) : n.children.head? = some e := by
  unfold leftOperand? at he
  split at he <;> cases he <;> rfl

/-- A node that ends early has a last child. -/
theorem children_ne_nil_of_endsEarly (h : n.endsEarly = true) : n.children ≠ [] := by
  -- the children of a form are read off by computation; their equations would be slow to make
  unfold endsEarly at h
  split at h <;> first
    | exact List.cons_ne_nil _ _
    | exact List.append_ne_nil_of_right_ne_nil _ (List.cons_ne_nil _ _)
    | cases h

theorem held_of_whole (h : n.endsEarly = false) : n.held = n.children := by
  rw [held, h]
  rfl

theorem held_of_endsEarly (h : n.endsEarly = true) : n.held = n.children.dropLast := by
  rw [held, h]
  rfl

/-- A node without children. -/
theorem Nests.of_leaf (ordered : n.span.start ≤ n.span.stop) (h : n.children = []) : n.Nests where
  ordered := ordered
  apart := by simp [h]
  inside := by simp [held, h]
  behind hearly := absurd h (children_ne_nil_of_endsEarly hearly)

end Node

/-- A node and all nodes inside it lie as they should; the accesses at its left end may start at the
given offset. -/
inductive Placed : Option Nat → Node → Prop
  | intro {head : Option Nat} {n : Node} (nests : n.Nests)
      (starts : ∀ e ∈ n.leftOperand?, n.span.start = e.span.start ∨ n.headFor head = some n.span.start)
      (first : ∀ c ∈ n.children.head?, Placed (n.headFor head) c)
      (others : ∀ c ∈ n.children.tail, Placed none c) : Placed head n

namespace Placed

variable {n k : Node} {head : Option Nat}

theorem nests : Placed head n → n.Nests
  | intro nests .. => nests

theorem ordered (h : Placed head n) : n.span.start ≤ n.span.stop :=
  h.nests.ordered

/-- Where no access starts elsewhere, it does not matter where it could. -/
theorem mono (h : Placed none n) (head : Option Nat) : Placed head n := by
  generalize hnone : none = other at h
  induction h generalizing head with
  | @intro other n nests starts first others ihfirst =>
    subst hnone
    obtain heq | hsame := n.headFor_eq none
    · refine .intro nests (fun e he => ?_) (fun c hc => ihfirst c hc _ heq.symm) others
      obtain hstart | hhead := starts e he
      · exact .inl hstart
      · rw [heq] at hhead
        cases hhead
    · exact .intro nests (fun e he => hsame head ▸ starts e he) (fun c hc => hsame head ▸ first c hc)
        others

/-- A node whose accesses start where they should. -/
theorem of_children (nests : n.Nests) (starts : ∀ e ∈ n.leftOperand?, n.span.start = e.span.start)
    (h : ∀ c ∈ n.children, Placed none c) : Placed none n :=
  .intro nests (fun e he => .inl (starts e he)) (fun c hc => (h c (List.mem_of_mem_head? hc)).mono _)
    fun c hc => h c (List.mem_of_mem_tail hc)

/-- A node without children. -/
theorem of_leaf (ordered : n.span.start ≤ n.span.stop) (h : n.children = []) : Placed none n := by
  refine .of_children (.of_leaf ordered h) (fun e he => ?_) (by simp [h])
  have hhead := Node.head?_of_leftOperand he
  rw [h] at hhead
  cases hhead

/-- A placed tree nests, and nodes built around a left operand start where it does, if they are not among
the accesses that start elsewhere. -/
theorem of_mem_preorder (h : Placed head n) (hk : k ∈ n.preorder) :
    k.Nests ∧ ∀ e ∈ k.leftOperand?, k.span.start = e.span.start ∨
      (∃ q ∈ n.preorder, k ∈ q.headAccesses ∧ k.span.start = q.span.start) ∨
      k ∈ n.accessChain ∧ head = some k.span.start := by
  induction h with
  | @intro head n nests starts first others ihfirst ihothers =>
    obtain rfl | ⟨c, hc, hk⟩ := Node.mem_preorder.mp hk
    · refine ⟨nests, fun e he => ?_⟩
      obtain hstart | hhead := starts e he
      · exact .inl hstart
      · exact .inr (.inr (Node.mem_accessChain_of_headFor he hhead))
    have hup {q : Node} (hq : q ∈ c.preorder) : q ∈ n.preorder := Node.mem_preorder_of_children hc hq
    cases hchildren : n.children with
    | nil =>
      rw [hchildren] at hc
      cases hc
    | cons d rest =>
      rw [hchildren] at first others ihfirst ihothers hc
      obtain rfl | hrest := List.mem_cons.mp hc
      · obtain ⟨hnests, hstarts⟩ := ihfirst c rfl hk
        refine ⟨hnests, fun e he => ?_⟩
        obtain hstart | ⟨q, hq, hhead⟩ | ⟨hchain, hhead⟩ := hstarts e he
        · exact .inl hstart
        · exact .inr (.inl ⟨q, hup hq, hhead⟩)
        obtain ⟨haccesses, hoffset⟩ | ⟨haccesses, hoffset⟩ :=
          Node.accessChain_of_headFor (by rw [hchildren]; rfl) hhead
        · exact .inr (.inl ⟨n, Node.mem_preorder_self n, haccesses ▸ hchain, hoffset⟩)
        · exact .inr (.inr ⟨haccesses ▸ List.mem_cons_of_mem n hchain, hoffset⟩)
      · obtain ⟨hnests, hstarts⟩ := ihothers c hrest hk
        refine ⟨hnests, fun e he => ?_⟩
        obtain hstart | ⟨q, hq, hhead⟩ | ⟨-, hhead⟩ := hstarts e he
        · exact .inl hstart
        · exact .inr (.inl ⟨q, hup hq, hhead⟩)
        · cases hhead

end Placed

end ScriptBridge.TypeScript
