import Mathlib.Data.List.Nodup
import Mathlib.Logic.Relation

/-!
# Depth-first walks

A walk over a graph keeps what it has seen and the order in which it was done with it: a node is seen
before the nodes after it are walked, and it is put into the order when they all are. `Walk` is the
walk as a relation, so that functions which carry it out in different ways can be compared.

* `Walk.congr`: a walk over the same edges is the same walk.
* `Walked`, `Walk.walked`: what a walk adds to what it has seen, and in which order.
* `Walk.order_spec`: the order of a walk from one node: all nodes that it reaches, once each, the node
  itself last, and every node behind those after it unless they lead back to it.
-/

namespace ScriptBridge

variable {α : Type} {next next' : α → List α}

/-- A walk to nodes one after the other: what was seen before and the order so far, and both
afterwards. -/
inductive Walk (next : α → List α) : List α → List α × List α → List α × List α → Prop
  | done (trail : List α × List α) : Walk next [] trail trail
  | skip {node : α} {rest : List α} {before after : List α × List α} (seen : node ∈ before.1)
      (others : Walk next rest before after) : Walk next (node :: rest) before after
  | visit {node : α} {rest seen order seen' order' : List α} {after : List α × List α}
      (isNew : node ∉ seen) (inner : Walk next (next node) (node :: seen, order) (seen', order'))
      (others : Walk next rest (seen', order' ++ [node]) after) :
      Walk next (node :: rest) (seen, order) after

/-- A node leads to another one. -/
abbrev Leads (next : α → List α) : α → α → Prop :=
  Relation.ReflTransGen fun u v => v ∈ next u

namespace Walk

variable {nodes : List α} {before after : List α × List α}

theorem append {more : List α} {last : List α × List α} (h : Walk next nodes before after)
    (h' : Walk next more after last) : Walk next (nodes ++ more) before last := by
  induction h with
  | done => exact h'
  | skip hseen _ ih => exact .skip hseen (ih h')
  | visit hnew inner _ _ ih => exact .visit hnew inner (ih h')

/-- Nodes that were seen are passed over. -/
theorem skip_all (h : ∀ node ∈ nodes, node ∈ before.1) : Walk next nodes before before := by
  induction nodes with
  | nil => exact .done before
  | cons node nodes ih =>
    exact .skip (h node List.mem_cons_self) (ih fun u hu => h u (List.mem_cons_of_mem node hu))

/-- What is seen is put in front of what was seen before. -/
theorem seen_suffix (h : Walk next nodes before after) : before.1 <:+ after.1 := by
  induction h with
  | done => exact List.suffix_rfl
  | skip _ _ ih => exact ih
  | visit _ _ _ ihInner ihOthers => exact (List.suffix_cons _ _).trans (ihInner.trans ihOthers)

theorem seen_mono (h : Walk next nodes before after) : before.1 ⊆ after.1 :=
  h.seen_suffix.subset

/-- A walk from one node sees that node first. -/
theorem singleton_suffix {node : α} {order : List α} (h : Walk next [node] ([], order) after) :
    [node] <:+ after.1 := by
  cases h with
  | skip hseen _ => exact absurd hseen List.not_mem_nil
  | visit _ inner others => exact inner.seen_suffix.trans others.seen_suffix

/-- A walk only looks at the edges from nodes that it has seen in the end. -/
theorem congr (h : Walk next nodes before after) (heq : ∀ u ∈ after.1, next u = next' u) :
    Walk next' nodes before after := by
  induction h with
  | done trail => exact .done trail
  | skip hseen _ ih => exact .skip hseen (ih heq)
  | visit hnew hinner hothers ihInner ihOthers =>
    have hsub := hothers.seen_mono
    have inner := ihInner fun u hu => heq u (hsub hu)
    rw [heq _ (hsub (hinner.seen_mono List.mem_cons_self))] at inner
    exact .visit hnew inner (ihOthers heq)

end Walk

/-! ## What a walk adds -/

/-- What a walk to `nodes` adds: nodes that were not seen before, each once and reached from `nodes`.
In the end the walk has seen `nodes` and all that comes after what it added. A node that comes after
an added one was seen before, or was added before it, or leads back to it. -/
structure Walked (next : α → List α) (nodes seen seen' added : List α) : Prop where
  mem_seen : ∀ u, u ∈ seen' ↔ u ∈ seen ∨ u ∈ added
  nodup : added.Nodup
  fresh : ∀ u ∈ added, u ∉ seen
  covers : ∀ u ∈ nodes, u ∈ seen'
  closed : ∀ u ∈ added, ∀ v ∈ next u, v ∈ seen'
  reached : ∀ v ∈ added, ∃ u ∈ nodes, Leads next u v
  ordered : ∀ u ∈ added, ∀ v ∈ next u, v ∈ seen ∨ [v, u].Sublist added ∨ Leads next v u

theorem pair_sublist {u v : α} {front back : List α} (hv : v ∈ front) (hu : u ∈ back) :
    [v, u].Sublist (front ++ back) :=
  (List.singleton_sublist.mpr hv).append (List.singleton_sublist.mpr hu)

namespace Walked

variable {node : α} {rest seen seen₁ seen' inner others : List α}

theorem nil (seen : List α) : Walked next [] seen seen [] := by
  constructor <;> simp

theorem skip (hnode : node ∈ seen) (h : Walked next rest seen seen' others) :
    Walked next (node :: rest) seen seen' others := by
  refine ⟨h.mem_seen, h.nodup, h.fresh, ?_, h.closed, ?_, h.ordered⟩
  · intro u hu
    rcases List.mem_cons.mp hu with rfl | hu
    · exact (h.mem_seen u).mpr (.inl hnode)
    · exact h.covers u hu
  · intro v hv
    obtain ⟨u, hu, hl⟩ := h.reached v hv
    exact ⟨u, List.mem_cons_of_mem _ hu, hl⟩

/-- A new node is added behind all that the walk from it adds, and before what comes later. -/
theorem visit (hnew : node ∉ seen) (hi : Walked next (next node) (node :: seen) seen₁ inner)
    (ho : Walked next rest seen₁ seen' others) :
    Walked next (node :: rest) seen seen' (inner ++ [node] ++ others) := by
  have hlater : ∀ v, v ∈ seen₁ ↔ v ∈ seen ∨ v ∈ inner ++ [node] := by
    intro v
    rw [hi.mem_seen]
    simp only [List.mem_cons, List.mem_append, List.not_mem_nil, or_false]
    tauto
  have hfrom : ∀ v ∈ inner ++ [node], Leads next node v := by
    intro v hv
    rcases List.mem_append.mp hv with hv | hv
    · obtain ⟨u, hu, hl⟩ := hi.reached v hv
      exact .head hu hl
    · rw [List.mem_singleton.mp hv]
  refine ⟨?_, ?_, ?_, ?_, ?_, ?_, ?_⟩
  · intro u
    simp only [ho.mem_seen, hlater, List.mem_append, or_assoc]
  · refine List.nodup_append.mpr ⟨?_, ho.nodup, ?_⟩
    · refine List.nodup_append.mpr ⟨hi.nodup, List.nodup_singleton node, fun u hu v hv huv => ?_⟩
      refine hi.fresh u hu ?_
      rw [huv, List.mem_singleton.mp hv]
      exact List.mem_cons_self
    · intro u hu v hv huv
      exact ho.fresh v hv ((hlater v).mpr (.inr (huv ▸ hu)))
  · intro u hu hs
    rcases List.mem_append.mp hu with hu | hu
    · rcases List.mem_append.mp hu with hu | hu
      · exact hi.fresh u hu (List.mem_cons_of_mem _ hs)
      · exact hnew (List.mem_singleton.mp hu ▸ hs)
    · exact ho.fresh u hu ((hlater u).mpr (.inl hs))
  · intro u hu
    rcases List.mem_cons.mp hu with rfl | hu
    · exact (ho.mem_seen u).mpr (.inl ((hlater u).mpr (.inr (by simp))))
    · exact ho.covers u hu
  · intro u hu v hv
    rcases List.mem_append.mp hu with hu | hu
    · refine (ho.mem_seen v).mpr (.inl ?_)
      rcases List.mem_append.mp hu with hu | hu
      · exact hi.closed u hu v hv
      · exact hi.covers v (List.mem_singleton.mp hu ▸ hv)
    · exact ho.closed u hu v hv
  · intro v hv
    rcases List.mem_append.mp hv with hv | hv
    · exact ⟨node, List.mem_cons_self, hfrom v hv⟩
    · obtain ⟨u, hu, hl⟩ := ho.reached v hv
      exact ⟨u, List.mem_cons_of_mem _ hu, hl⟩
  · intro u hu v hv
    rcases List.mem_append.mp hu with hf | hu
    · rcases List.mem_append.mp hf with hu | hu
      · -- Below the new node: what was seen before may also be the new node, which leads here.
        rcases hi.ordered u hu v hv with h | h | h
        · rcases List.mem_cons.mp h with h | h
          · exact .inr (.inr (h ▸ hfrom u hf))
          · exact .inl h
        · refine .inr (.inl (h.trans ?_))
          rw [List.append_assoc]
          exact List.sublist_append_left _ _
        · exact .inr (.inr h)
      · -- The new node itself: all after it was seen when its turn came.
        rw [List.mem_singleton.mp hu] at hv ⊢
        rcases (hi.mem_seen v).mp (hi.covers v hv) with h | h
        · rcases List.mem_cons.mp h with rfl | h
          · exact .inr (.inr .refl)
          · exact .inl h
        · exact .inr (.inl ((pair_sublist h List.mem_cons_self).trans
            (List.sublist_append_left _ _)))
    · -- Later nodes: all that was added so far is before them.
      rcases ho.ordered u hu v hv with h | h | h
      · rcases (hlater v).mp h with h | h
        · exact .inl h
        · exact .inr (.inl (pair_sublist h hu))
      · exact .inr (.inl (h.trans (List.sublist_append_right _ _)))
      · exact .inr (.inr h)

end Walked

namespace Walk

theorem walked {nodes : List α} {before after : List α × List α}
    (h : Walk next nodes before after) :
    ∃ added, after.2 = before.2 ++ added ∧ Walked next nodes before.1 after.1 added := by
  induction h with
  | done trail => exact ⟨[], (List.append_nil _).symm, .nil _⟩
  | skip hseen _ ih =>
    obtain ⟨added, horder, hw⟩ := ih
    exact ⟨added, horder, .skip hseen hw⟩
  | visit hnew _ _ ihInner ihOthers =>
    obtain ⟨inner, hi, hwi⟩ := ihInner
    obtain ⟨others, ho, hwo⟩ := ihOthers
    refine ⟨inner ++ [_] ++ others, ?_, .visit hnew hwi hwo⟩
    rw [ho]
    dsimp only at hi ⊢
    rw [hi]
    simp only [List.append_assoc]

/-- A walk from nothing puts into its order what it has seen. -/
theorem mem_order_iff {nodes seen order : List α} (h : Walk next nodes ([], []) (seen, order))
    {u : α} : u ∈ order ↔ u ∈ seen := by
  obtain ⟨added, horder, hw⟩ := h.walked
  obtain rfl : order = added := horder
  simpa using (hw.mem_seen u).symm

/-- The order of a walk from one node. -/
theorem order_spec {entry : α} {seen order : List α} (h : Walk next [entry] ([], []) (seen, order)) :
    order.Nodup ∧ (∀ v, v ∈ order ↔ Leads next entry v) ∧ order.getLast? = some entry ∧
      ∀ u ∈ order, ∀ v ∈ next u, ¬ Leads next v u → [v, u].Sublist order := by
  obtain ⟨added, horder, hw⟩ := h.walked
  obtain rfl : order = added := horder
  refine ⟨hw.nodup, fun v => ⟨fun hv => ?_, fun hv => ?_⟩, ?_, fun u hu v hv hback => ?_⟩
  · obtain ⟨u, hu, hl⟩ := hw.reached v hv
    exact List.mem_singleton.mp hu ▸ hl
  · induction hv with
    | refl => exact h.mem_order_iff.mpr (hw.covers entry (List.mem_singleton.mpr rfl))
    | tail _ he ih => exact h.mem_order_iff.mpr (hw.closed _ ih _ he)
  · cases h with
    | skip hs _ => exact absurd hs List.not_mem_nil
    | visit _ _ others =>
      cases others
      exact List.getLast?_concat
  · rcases hw.ordered u hu v hv with h | h | h
    · exact absurd h List.not_mem_nil
    · exact h
    · exact absurd h hback

end Walk

end ScriptBridge
