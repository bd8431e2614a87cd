import ScriptBridge.Data.Assoc
import Mathlib.Data.List.Nodup

/-!
# Keys of tables

`Assoc.set` keeps the keys of a table unique, and a list of pairs with unique keys is a table as it is.
What is set is what a lookup finds.
-/

namespace ScriptBridge.Assoc

variable {α : Type} {key : String} {value : α} {table : List (String × α)}

theorem set_of_not_mem (h : key ∉ table.map Prod.fst) :
    set key value table = table ++ [(key, value)] := by
  induction table with
  | nil => rfl
  | cons e table ih =>
    obtain ⟨k, v⟩ := e
    simp only [List.map_cons, List.mem_cons, not_or] at h
    rw [set, if_neg (Ne.symm h.1), ih h.2, List.cons_append]

theorem lookup_cons {κ : Type} [BEq κ] [LawfulBEq κ] [DecidableEq κ] (k other : κ) (value : α) (table : List (κ × α)) :
    ((k, value) :: table).lookup other = if other = k then some value else table.lookup other := by
  by_cases h : other = k
  · rw [if_pos h, List.lookup_cons, beq_iff_eq.mpr h]
  · rw [if_neg h, List.lookup_cons, beq_eq_false_iff_ne.mpr h]

/-- What stands behind a table does not hide what is in it. -/
theorem lookup_append_of_some {κ : Type} [BEq κ] {k : κ} {value : α}
    {table : List (κ × α)} (h : table.lookup k = some value) (more : List (κ × α)) :
    (table ++ more).lookup k = some value := by
  rw [List.lookup_append, h, Option.some_or]

theorem isSome_lookup_iff {κ : Type} [BEq κ] [LawfulBEq κ] [DecidableEq κ] {k : κ}
    {table : List (κ × α)} : (table.lookup k).isSome ↔ k ∈ table.map Prod.fst := by
  induction table with
  | nil => simp
  | cons e table ih =>
    rw [lookup_cons, List.map_cons, List.mem_cons, ← ih]
    split <;> simp_all

theorem lookup_set (other : String) :
    (set key value table).lookup other = if other = key then some value else table.lookup other := by
  induction table with
  | nil => exact lookup_cons key other value []
  | cons e table ih =>
    obtain ⟨k, v⟩ := e
    by_cases hk : k = key
    · subst hk
      by_cases h : other = k <;> simp [set, lookup_cons, h]
    · rw [set, if_neg hk, lookup_cons, lookup_cons, ih]
      by_cases h : other = k
      · subst h
        simp [hk]
      · simp [h]

theorem mem_of_lookup {κ : Type} [BEq κ] [LawfulBEq κ] {k : κ} {table : List (κ × α)}
    (h : table.lookup k = some value) : (k, value) ∈ table := by
  obtain ⟨before, after, rfl, -⟩ := List.lookup_eq_some_iff.mp h
  simp

/-- In a table with unique keys every pair is found. -/
theorem lookup_of_mem {κ : Type} [BEq κ] [LawfulBEq κ] [DecidableEq κ] {k : κ}
    {table : List (κ × α)} (hkeys : (table.map Prod.fst).Nodup) (h : (k, value) ∈ table) :
    table.lookup k = some value := by
  obtain ⟨found, hfound⟩ :=
    Option.isSome_iff_exists.mp (isSome_lookup_iff.mpr (List.mem_map_of_mem h))
  have hsame := List.inj_on_of_nodup_map hkeys (mem_of_lookup hfound) h rfl
  rw [hfound, (Prod.mk.inj hsame).2]

theorem keys_set_of_mem (h : key ∈ table.map Prod.fst) :
    (set key value table).map Prod.fst = table.map Prod.fst := by
  induction table with
  | nil => cases h
  | cons e table ih =>
    obtain ⟨k, v⟩ := e
    by_cases hk : k = key
    · rw [set, if_pos hk, List.map_cons, List.map_cons]
    · rw [List.map_cons, List.mem_cons] at h
      rw [set, if_neg hk, List.map_cons, List.map_cons, ih (h.resolve_left (Ne.symm hk))]

theorem nodup_set (h : (table.map Prod.fst).Nodup) : ((set key value table).map Prod.fst).Nodup := by
  by_cases hk : key ∈ table.map Prod.fst
  · rwa [keys_set_of_mem hk]
  · rw [set_of_not_mem hk, List.map_append, List.nodup_append]
    refine ⟨h, by simp, fun k hmem k' hk' heq => ?_⟩
    obtain rfl : k' = key := by simpa using hk'
    exact hk (heq ▸ hmem)

/-- What holds of all values of a table and of a value that is set holds of all values after that. -/
theorem forall_mem_set {P : α → Prop} (h : ∀ e ∈ table, P e.2) (hv : P value) :
    ∀ e ∈ set key value table, P e.2 := by
  induction table with
  | nil => simpa [set] using hv
  | cons e table ih =>
    obtain ⟨k, v⟩ := e
    obtain ⟨he, hrest⟩ := List.forall_mem_cons.mp h
    rw [set]
    split
    · exact List.forall_mem_cons.mpr ⟨hv, hrest⟩
    · exact List.forall_mem_cons.mpr ⟨he, ih hrest⟩

theorem ofPairs_of_nodup {pairs : List (String × α)} (h : (pairs.map Prod.fst).Nodup) :
    ofPairs pairs = pairs := by
  have hfold : ∀ (rest table : List (String × α)), ((table ++ rest).map Prod.fst).Nodup →
      rest.foldl (fun table e => set e.1 e.2 table) table = table ++ rest := by
    intro rest
    induction rest with
    | nil => simp
    | cons e rest ih =>
      obtain ⟨k, v⟩ := e
      intro table hn
      have hnot : k ∉ table.map Prod.fst := by
        rw [List.map_append, List.nodup_append] at hn
        exact fun hm => hn.2.2 k hm k (by simp) rfl
      simp only [List.foldl_cons, set_of_not_mem hnot]
      rw [ih _ (by simpa using hn), List.append_assoc, List.singleton_append]
  exact hfold pairs [] h

end ScriptBridge.Assoc
