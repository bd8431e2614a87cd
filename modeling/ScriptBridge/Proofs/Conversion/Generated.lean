import ScriptBridge.Conversion.Access

/-!
# Generated names

A generated name spells its number, so names of different numbers are different. None of them is the
name of something in a namespace of the host.

* `generatedName_injective`: different numbers have different names.
* `host_ne_generatedName`: names of the host are not generated.
-/

namespace ScriptBridge.Conversion

/-- The value of a digit of base 36. -/
def digitValue (c : Char) : Nat :=
  if c.toNat < 'a'.toNat then c.toNat - '0'.toNat else c.toNat - 'a'.toNat + 10

theorem digitValue_digit36 : ∀ n < 36, digitValue (digit36 n) = n := by
  decide

/-- The number that digits of base 36 spell. -/
def numberOf (digits : List Char) : Nat :=
  digits.foldl (fun n c => 36 * n + digitValue c) 0

theorem numberOf_concat (digits : List Char) (c : Char) :
    numberOf (digits ++ [c]) = 36 * numberOf digits + digitValue c := by
  rw [numberOf, List.foldl_append]
  rfl

theorem numberOf_replicate_append (k : Nat) (digits : List Char) :
    numberOf (List.replicate k '0' ++ digits) = numberOf digits := by
  induction k with
  | zero => rfl
  | succ k ih => exact ih

theorem numberOf_digits36 {fuel n : Nat} (h : n < fuel) :
    numberOf (digits36 fuel n).reverse = n := by
  induction fuel generalizing n with
  | zero => exact absurd h (Nat.not_lt_zero n)
  | succ fuel ih =>
    unfold digits36
    split
    · rename_i hn
      rw [List.reverse_singleton, ← List.nil_append [_], numberOf_concat, digitValue_digit36 n hn]
      exact Nat.zero_add n
    · rw [List.reverse_cons, numberOf_concat, ih (by omega),
        digitValue_digit36 _ (Nat.mod_lt n (by decide)), Nat.div_add_mod]

theorem toList_generatedName (n : Nat) : ∃ digits, numberOf digits = n ∧
    (generatedName n).toList = "__gen_".toList ++ digits := by
  have hvalue := numberOf_digits36 (Nat.lt_succ_self n)
  generalize hdigits : (digits36 (n + 1) n).reverse = digits at hvalue
  refine ⟨List.replicate (5 - digits.length) '0' ++ digits, ?_, ?_⟩
  · rw [numberOf_replicate_append, hvalue]
  · rw [generatedName, String.toList_append, hdigits]
    exact congrArg _ String.toList_ofList

theorem generatedName_injective : Function.Injective generatedName := by
  intro m n h
  obtain ⟨digits, hm, htext⟩ := toList_generatedName m
  obtain ⟨digits', hn, htext'⟩ := toList_generatedName n
  rw [h] at htext
  rw [← hm, ← hn, List.append_cancel_left (htext.symm.trans htext')]

/-- Generated names start with a mark that the namespaces of the host do not start with. -/
theorem host_ne_generatedName {space : String} (h : hostSpaces.contains space = true) (name : String)
    (n : Nat) : space ++ ":" ++ name ≠ generatedName n := by
  intro heq
  obtain ⟨digits, -, htext⟩ := toList_generatedName n
  have hheads : ∀ space ∈ hostSpaces, space.toList ≠ [] ∧ space.toList.head? ≠ some '_' := by
    decide
  obtain ⟨hne, hmark⟩ := hheads space (List.contains_iff_mem.mp h)
  obtain ⟨c, rest, hc⟩ := List.exists_cons_of_ne_nil hne
  rw [← heq, String.toList_append, String.toList_append, hc] at htext
  exact hmark (hc ▸ congrArg some (List.cons.inj htext).1)

end ScriptBridge.Conversion
