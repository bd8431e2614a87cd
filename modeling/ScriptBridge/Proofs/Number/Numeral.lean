import ScriptBridge.Number.Layout
import ScriptBridge.Number.Reading
import ScriptBridge.Proofs.Number.Shortest

/-!
# Numerals

A `Numeral` is a decimal taken apart: digits before the point, digits after it, and an exponent. What
a layout writes is a numeral, and `Double.ofText?` reads a numeral as the double nearest to it. So a
finite double is read back from its text.

* `Numeral.toDouble`: the double nearest to a numeral.
* `Numeral.ofText?_text`: a numeral is read as that double.
* `writeMagnitude_numeral`: what is written of a finite double is a numeral for its magnitude.
-/

namespace ScriptBridge

/-- Characters that are decimal digits. -/
def AllDigits (ds : List Char) : Prop :=
  ∀ c ∈ ds, isDigit c = true

/-- A decimal: digits before and after the point, and the sign and digits of its exponent. -/
structure Numeral where
  whole : List Char
  part : List Char := []
  exponent : Option (Bool × List Char) := none
  whole_ne_nil : whole ≠ []
  whole_digits : AllDigits whole
  part_digits : AllDigits part
  exponent_digits : ∀ e ∈ exponent, e.2 ≠ [] ∧ AllDigits e.2

namespace Numeral

/-- The part of a numeral after its point, with the point. -/
def partText (n : Numeral) : List Char :=
  if n.part.isEmpty then [] else '.' :: n.part

/-- The exponent of a numeral as it is written. -/
def exponentText (n : Numeral) : List Char :=
  match n.exponent with
  | none => []
  | some (negative, ds) => 'e' :: (if negative then '-' else '+') :: ds

/-- A numeral as it is written. -/
def text (n : Numeral) : List Char :=
  n.whole ++ n.partText ++ n.exponentText

/-- All digits before the exponent as one number. -/
def digits (n : Numeral) : Nat :=
  Nat.ofDigitChars 10 (n.whole ++ n.part) 0

/-- The power of ten of the last digit before the exponent. -/
def power (n : Numeral) : Int :=
  (match n.exponent with
    | none => 0
    | some (negative, ds) =>
      if negative then -(Nat.ofDigitChars 10 ds 0 : Int) else Nat.ofDigitChars 10 ds 0) -
    n.part.length

/-- The number that a numeral stands for. -/
def toDecimal (n : Numeral) : Decimal :=
  ⟨n.digits, n.power⟩

/-- The double nearest to a numeral. -/
def toDouble (n : Numeral) : Double :=
  Double.ofDecimal false n.digits n.power

end Numeral

/-! ## Digits -/

theorem isDigit_iff {c : Char} : isDigit c = true ↔ c.isDigit = true := by
  simp only [isDigit, Char.isDigit, Bool.and_eq_true, decide_eq_true_eq, ge_iff_le]
  exact Iff.rfl

theorem allDigits_toDigits (n : Nat) : AllDigits (Nat.toDigits 10 n) :=
  fun _ hc => isDigit_iff.mpr (Nat.isDigit_of_mem_toDigits (by decide) (by decide) hc)

theorem AllDigits.append {xs ys : List Char} (hx : AllDigits xs) (hy : AllDigits ys) :
    AllDigits (xs ++ ys) :=
  fun c hc => (List.mem_append.mp hc).elim (hx c) (hy c)

theorem allDigits_zeros (k : Nat) : AllDigits (List.replicate k '0') :=
  fun _ hc => List.eq_of_mem_replicate hc ▸ rfl

theorem isDigit_range {c : Char} (h : isDigit c = true) : 48 ≤ c.toNat ∧ c.toNat ≤ 57 := by
  simp only [isDigit, Bool.and_eq_true, decide_eq_true_eq] at h
  exact h

theorem hexDigit?_digit {c : Char} (h : isDigit c = true) :
    hexDigit? c = some (c.toNat - '0'.toNat) := by
  simp only [isDigit, Bool.and_eq_true, decide_eq_true_eq] at h
  exact if_pos h

/-- Digits are read as the number they spell. -/
theorem natOfDigits?_digits {ds : List Char} (h : AllDigits ds) (acc : Nat) :
    natOfDigits? 10 acc ds = some (Nat.ofDigitChars 10 ds acc) := by
  induction ds generalizing acc with
  | nil => rfl
  | cons c ds ih =>
    have hc := h c (by simp)
    have hr := isDigit_range hc
    rw [natOfDigits?, hexDigit?_digit hc, Nat.ofDigitChars_cons, Nat.mul_comm 10]
    have hlt : c.toNat - '0'.toNat < 10 := by
      simp only [Char.reduceToNat]
      omega
    simp only [hlt, if_true]
    exact ih (fun c hc => h c (List.mem_cons_of_mem _ hc)) _

theorem takeWhile_digits {ds rest : List Char} (h : AllDigits ds)
    (hr : ∀ c, rest.head? = some c → isDigit c = false) :
    (ds ++ rest).takeWhile isDigit = ds ∧ (ds ++ rest).dropWhile isDigit = rest := by
  rw [List.takeWhile_append_of_pos h, List.dropWhile_append_of_pos h]
  cases rest with
  | nil => simp
  | cons c cs => simp [hr c rfl]

/-! ## Plain text -/

theorem plainDigit_digit {c : Char} (h : isDigit c = true) : plainDigit c = c := by
  have hr := isDigit_range h
  have hz : decimalZeros.find? (fun z => z ≤ c.toNat && c.toNat < z + 10) = some 48 := by
    rw [decimalZeros, List.find?_cons_of_pos]
    simp only [Bool.and_eq_true, decide_eq_true_eq]
    omega
  rw [plainDigit, decimalDigit?, hz]
  simp only [Option.map_some, Char.reduceToNat]
  rw [show 48 + (c.toNat - 48) = c.toNat by omega, Char.ofNat_toNat]

/-- The characters that numerals are written with. -/
def isNumeralChar (c : Char) : Bool :=
  isDigit c || c == '.' || c == 'e' || c == '+' || c == '-'

theorem plainDigit_numeral {c : Char} (h : isNumeralChar c = true) : plainDigit c = c := by
  simp only [isNumeralChar, Bool.or_eq_true, beq_iff_eq] at h
  rcases h with (((h | rfl) | rfl) | rfl) | rfl
  · exact plainDigit_digit h
  all_goals decide

theorem isBlank_numeral {c : Char} (h : isNumeralChar c = true) : isBlank c = false := by
  have hr : 0x21 ≤ c.toNat ∧ c.toNat < 0x85 := by
    simp only [isNumeralChar, Bool.or_eq_true, beq_iff_eq] at h
    rcases h with (((h | rfl) | rfl) | rfl) | rfl
    · have := isDigit_range h
      omega
    all_goals decide
  simp only [isBlank, CharSet.contains, blankTable, List.any_toArray, List.any_cons, List.any_nil,
    Bool.or_false, Bool.or_eq_false_iff, Bool.and_eq_false_iff, decide_eq_false_iff_not]
  omega

theorem plainNumeral_eq {cs : List Char} (h : ∀ c ∈ cs, isNumeralChar c = true) :
    plainNumeral cs = cs := by
  have drop {cs : List Char} (h : ∀ c ∈ cs, isNumeralChar c = true) : cs.dropWhile isBlank = cs := by
    cases cs with
    | nil => rfl
    | cons c cs => rw [List.dropWhile_cons, if_neg (by simp [isBlank_numeral (h c (by simp))])]
  rw [plainNumeral, drop h, drop (by simpa using h), List.reverse_reverse]
  exact (List.map_congr_left fun c hc => plainDigit_numeral (h c hc)).trans (List.map_id cs)

namespace Numeral

theorem text_chars (n : Numeral) : ∀ c ∈ n.text, isNumeralChar c = true := by
  have digit {c : Char} (h : isDigit c = true) : isNumeralChar c = true := by
    simp [isNumeralChar, h]
  intro c hc
  unfold text partText exponentText at hc
  rw [List.mem_append, List.mem_append] at hc
  rcases hc with (hc | hc) | hc
  · exact digit (n.whole_digits c hc)
  · split at hc
    · cases hc
    · rcases List.mem_cons.mp hc with rfl | hc
      · rfl
      · exact digit (n.part_digits c hc)
  · split at hc
    · cases hc
    · rename_i negative ds he
      rcases List.mem_cons.mp hc with rfl | hc
      · rfl
      rcases List.mem_cons.mp hc with rfl | hc
      · cases negative <;> rfl
      · exact digit ((n.exponent_digits _ he).2 c hc)

/-- A numeral starts with a digit. -/
theorem text_eq_cons (n : Numeral) : ∃ c cs, n.text = c :: cs ∧ isDigit c = true := by
  obtain ⟨c, cs, hw⟩ := List.exists_cons_of_ne_nil n.whole_ne_nil
  refine ⟨c, cs ++ n.partText ++ n.exponentText, by simp [text, hw], ?_⟩
  exact n.whole_digits c (by simp [hw])

/-- What follows the digits before the point does not go on with a digit. -/
theorem exponentText_head (n : Numeral) (c : Char) (h : n.exponentText.head? = some c) :
    c = 'e' := by
  unfold exponentText at h
  split at h
  · cases h
  · exact (Option.some.inj h).symm

theorem exponentOf?_text (n : Numeral) :
    Double.exponentOf? n.exponentText = some (n.power + n.part.length) := by
  unfold exponentText power
  split
  · rw [Int.sub_add_cancel]
    rfl
  · rename_i negative ds he
    obtain ⟨hne, hds⟩ := n.exponent_digits _ he
    have hs : splitSign ((if negative = true then '-' else '+') :: ds) = (negative, ds) := by
      cases negative <;> rfl
    have he : ds.isEmpty = false := by simpa using hne
    simp [Double.exponentOf?, hs, natOfDigits?_digits hds, he]

theorem ofUnsigned?_text (n : Numeral) : Double.ofUnsigned? false n.text = some n.toDouble := by
  have hexp (c : Char) (h : n.exponentText.head? = some c) : isDigit c = false := by
    rw [n.exponentText_head c h]
    rfl
  have hne : n.whole.isEmpty = false := by simpa using n.whole_ne_nil
  have hdigits := natOfDigits?_digits (n.whole_digits.append n.part_digits) 0
  have hexponent := n.exponentOf?_text
  unfold toDouble digits text partText
  by_cases hp : n.part = []
  · obtain ⟨ht, hd⟩ := takeWhile_digits n.whole_digits hexp
    rw [hp, List.append_nil] at hdigits
    rw [hp] at hexponent ⊢
    simp only [List.isEmpty_nil, if_true, List.append_nil]
    rw [Double.ofUnsigned?, ht, hd]
    rcases he : n.exponentText with _ | ⟨c, cs⟩
    · rw [he] at hexponent
      simp [hne, hdigits, hexponent]
    · obtain rfl := n.exponentText_head c (by rw [he]; rfl)
      rw [he] at hexponent
      simp [hne, hdigits, hexponent]
  · obtain ⟨ht, hd⟩ := takeWhile_digits n.whole_digits
      (show ∀ c, ('.' :: (n.part ++ n.exponentText)).head? = some c → isDigit c = false by
        rintro c ⟨⟩
        rfl)
    obtain ⟨ht', hd'⟩ := takeWhile_digits n.part_digits hexp
    have hp' : n.part.isEmpty = false := by simpa using hp
    simp only [hp', Bool.false_eq_true, if_false, List.append_assoc, List.cons_append]
    rw [Double.ofUnsigned?, ht, hd]
    simp [ht', hd', hne, hdigits, hexponent]

/-- A numeral is read as the double nearest to it. -/
theorem ofText?_text (n : Numeral) : Double.ofText? (String.ofList n.text) = some n.toDouble := by
  obtain ⟨c, cs, hc, hd⟩ := n.text_eq_cons
  have hr := isDigit_range hd
  have hsign : splitSign n.text = (false, n.text) := by
    rw [hc]
    unfold splitSign
    split
    · rename_i h
      cases h
      simp at hr
    · rename_i h
      cases h
      simp at hr
    · rfl
  have hlower : c.toLower = c := by
    unfold Char.toLower
    rw [dif_neg]
    rintro ⟨h, -⟩
    have h : 65 ≤ c.toNat := h
    omega
  have hword (w : String) (hw : w.toList.head?.all (!isDigit ·) = true) :
      (String.ofList (n.text.map Char.toLower) == w) = false := by
    rw [beq_eq_false_iff_ne]
    rintro rfl
    simp [hc, hlower, hd] at hw
  unfold Double.ofText?
  rw [String.toList_ofList, plainNumeral_eq n.text_chars, hsign]
  simp only
  rw [hword "inf" (by decide), hword "infinity" (by decide), hword "nan" (by decide)]
  exact n.ofUnsigned?_text

end Numeral

namespace Double

variable {x : Double}

/-! ## Rounding a decimal -/

theorem exponent_le (h : x.isFinite = true) : x.exponent ≤ 971 := by
  have h : x.biased < 2047 := by simpa [isFinite] using h
  unfold exponent
  omega

/-- The numbers in the interval of a finite double are neither huge nor tiny. -/
theorem Holds.range {q : ℚ} (hx : x.isZero = false) (hf : x.isFinite = true) (h : x.Holds q) :
    (10 : ℚ) ^ (-331 : Int) < q ∧ q < 10 ^ (330 : Int) := by
  obtain ⟨hlow, hhigh, -, -⟩ := h.bounds hx
  have hm : (1 : ℚ) ≤ x.significand := by exact_mod_cast significand_pos hx
  have hm' : (x.significand : ℚ) + 1 ≤ 2 ^ 53 := by exact_mod_cast x.significand_lt
  have hpos : (0 : ℚ) < 2 ^ x.exponent := by positivity
  rw [le_div_iff₀ hpos] at hlow
  rw [div_le_iff₀ hpos] at hhigh
  have he : (2 : ℚ) ^ (-1074 : Int) ≤ 2 ^ x.exponent :=
    zpow_le_zpow_right₀ (by norm_num) x.le_exponent
  have he' : (2 : ℚ) ^ x.exponent ≤ 2 ^ (971 : Int) :=
    zpow_le_zpow_right₀ (by norm_num) (exponent_le hf)
  have hsmall : (2 : ℚ) * 2 ^ 1074 < 10 ^ 331 := by
    exact_mod_cast (by decide +kernel : 2 * 2 ^ 1074 < 10 ^ 331)
  have hlarge : (2 : ℚ) ^ 53 * 2 ^ 971 < 10 ^ 330 := by
    exact_mod_cast (by decide +kernel : 2 ^ 53 * 2 ^ 971 < 10 ^ 330)
  constructor
  · calc (10 : ℚ) ^ (-331 : Int) < 1 / 2 * 2 ^ (-1074 : Int) := by
          rw [zpow_neg, zpow_neg, one_div, ← mul_inv]
          exact inv_strictAnti₀ (by positivity) hsmall
      _ ≤ 1 / 2 * 2 ^ x.exponent := by gcongr
      _ ≤ q := by nlinarith
  · calc q ≤ (x.significand + 1 / 2) * 2 ^ x.exponent := hhigh
      _ ≤ 2 ^ 53 * 2 ^ (971 : Int) := by
          gcongr
          linarith
      _ < 10 ^ (330 : Int) := hlarge

/-- A decimal in the interval of a double rounds to it. -/
theorem ofDecimal_eq {negative : Bool} {digits : Nat} {power : Int} (hx : x.isZero = false)
    (hf : x.isFinite = true) (h : x.Holds (digits * 10 ^ power)) :
    ofDecimal negative digits power = ofMagnitude negative x.magnitude := by
  obtain ⟨hlow, hhigh⟩ := h.range hx hf
  have hd : digits ≠ 0 := by
    rintro rfl
    have : (0 : ℚ) < 10 ^ (-331 : Int) := by positivity
    simp only [Nat.cast_zero, zero_mul] at hlow
    linarith
  obtain ⟨hd₁, hd₂⟩ := digitCount_bounds hd
  have hc : 0 < digitCount digits := Nat.length_toDigits_pos
  have hd₁ : (10 : ℚ) ^ ((digitCount digits : Int) - 1) ≤ digits := by
    rw [show (digitCount digits : Int) - 1 = ((digitCount digits - 1 : Nat) : Int) by omega,
      zpow_natCast]
    exact_mod_cast hd₁
  have hd₂ : (digits : ℚ) < 10 ^ (digitCount digits : Int) := by
    rw [zpow_natCast]
    exact_mod_cast hd₂
  have hpos : (0 : ℚ) < 10 ^ power := by positivity
  have hbottom : ¬ power + digitCount digits < -330 := by
    intro hlt
    have hle : (10 : ℚ) ^ (power + digitCount digits) ≤ 10 ^ (-331 : Int) :=
      zpow_le_zpow_right₀ (by norm_num) (by omega)
    rw [zpow_add₀ (by norm_num)] at hle
    nlinarith
  have htop : ¬ 330 < power + digitCount digits := by
    intro hlt
    have hle : (10 : ℚ) ^ (330 : Int) ≤ 10 ^ (power + ((digitCount digits : Int) - 1)) :=
      zpow_le_zpow_right₀ (by norm_num) (by omega)
    rw [zpow_add₀ (by norm_num)] at hle
    nlinarith
  unfold ofDecimal
  dsimp only
  rw [if_neg (by simp [hd, hbottom]), if_neg htop]
  split
  · rename_i hp
    refine ofRatio_eq negative hx hf (Nat.pow_pos (by decide)).ne' ?_
    obtain ⟨k, rfl⟩ : ∃ k : Nat, power = -k := ⟨power.natAbs, by omega⟩
    rw [zpow_neg, zpow_natCast] at h
    simpa [div_eq_mul_inv] using h
  · rename_i hp
    refine ofRatio_eq negative hx hf (by decide) ?_
    obtain ⟨k, rfl⟩ : ∃ k : Nat, power = k := ⟨power.toNat, by omega⟩
    rw [zpow_natCast] at h
    simpa using h

theorem magnitude_abs (x : Double) : x.abs.magnitude = x.magnitude := by
  have : x.magnitude < Nat.pow 2 63 := Nat.mod_lt _ (by decide)
  simp only [Nat.pow_eq] at this
  simp only [abs, ofMagnitude, magnitude, UInt64.toNat_ofNat', Nat.pow_eq] at this ⊢
  simp

theorem abs_of_not_negative (h : x.negative = false) : x.abs = x := by
  have hlt : x.bits.toNat < 2 ^ 63 := by simpa [negative] using h
  have hbits : UInt64.ofNat x.bits.toNat = x.bits := UInt64.ofNat_toNat
  simp only [abs, ofMagnitude, magnitude, Nat.pow_eq, Nat.mod_eq_of_lt hlt, Bool.false_eq_true, if_false,
    Nat.add_zero, hbits]

theorem neg_abs_of_negative (h : x.negative = true) : x.abs.neg = x := by
  have hle : 2 ^ 63 ≤ x.bits.toNat := by simpa [negative] using h
  have hlt := x.bits.toNat_lt
  have hnot : x.abs.negative = false := by
    have : x.magnitude < 2 ^ 63 := Nat.mod_lt _ (by decide)
    simp only [abs, ofMagnitude, negative, Nat.pow_eq, UInt64.toNat_ofNat', Bool.false_eq_true, if_false,
      Nat.add_zero, decide_eq_false_iff_not]
    omega
  have hbits : UInt64.ofNat x.bits.toNat = x.bits := UInt64.ofNat_toNat
  have hmag : x.bits.toNat % 2 ^ 63 + 2 ^ 63 = x.bits.toNat := by omega
  rw [neg, hnot, magnitude_abs, ofMagnitude, magnitude]
  simp only [Bool.not_false, if_true, Nat.pow_eq, hmag, hbits]

theorem isNaN_of_finite (h : x.isFinite = true) : x.isNaN = false := by
  simp only [isFinite, decide_eq_true_eq] at h
  simp only [isNaN, Bool.and_eq_false_iff, beq_eq_false_iff_ne]
  exact .inl (by omega)

theorem isFinite_abs (h : x.isFinite = true) : x.abs.isFinite = true := by
  rwa [isFinite, biased, magnitude_abs]

/-- A number that is not below zero is its magnitude, up to the sign of zero. -/
theorem numEq_abs (hf : x.isFinite = true) (h : x.isNegative = false) : x.abs.numEq x = true := by
  have hnan := isNaN_of_finite hf
  cases hn : x.negative with
  | false =>
    rw [abs_of_not_negative hn]
    simp [numEq, hnan]
  | true =>
    have hzero : x.isZero = true := by simpa [isNegative, hn, hnan] using h
    have hzero' : x.abs.isZero = true := by rwa [isZero, magnitude_abs]
    simp [numEq, hnan, isNaN_of_finite (isFinite_abs hf), hzero, hzero']

theorem numEq_neg_abs (hf : x.isFinite = true) (h : x.isNegative = true) :
    x.abs.neg.numEq x = true := by
  have hn : x.negative = true := by
    simp only [isNegative, Bool.and_eq_true] at h
    exact h.1.1
  rw [neg_abs_of_negative hn]
  simp [numEq, isNaN_of_finite hf]

end Double

/-! ## Writing -/

theorem ofDigitChars_zeros_append (k : Nat) (ds : List Char) :
    Nat.ofDigitChars 10 (List.replicate k '0' ++ ds) 0 = Nat.ofDigitChars 10 ds 0 := by
  rw [Nat.ofDigitChars_append, Nat.ofDigitChars_replicate_zero, Nat.mul_zero]

namespace Layout

/-- Positional notation is a numeral for its digits. -/
theorem positional_numeral (l : Layout) {ds : List Char} (hne : ds ≠ []) (hds : AllDigits ds)
    (whole : Int) :
    ∃ n : Numeral, l.positional ds whole = String.ofList n.text ∧
      n.toDecimal.value = Nat.ofDigitChars 10 ds 0 * 10 ^ (whole - ds.length) := by
  unfold positional
  split
  · refine ⟨⟨['0'], List.replicate whole.natAbs '0' ++ ds, none, by simp, by simp [AllDigits, isDigit],
      (allDigits_zeros _).append hds, nofun⟩, ?_, ?_⟩
    · simp [Numeral.text, Numeral.partText, Numeral.exponentText, hne, ← String.toList_inj]
    · simp only [Numeral.toDecimal, Decimal.value, Numeral.digits, Numeral.power, List.cons_append,
        List.nil_append, List.length_append, List.length_replicate]
      rw [← List.cons_append, ← List.replicate_succ, ofDigitChars_zeros_append]
      congr 2
      omega
  · obtain ⟨w, rfl⟩ : ∃ w : Nat, whole = w := ⟨whole.toNat, by omega⟩
    dsimp only
    rw [Int.toNat_natCast]
    split
    · have hvalue : (Nat.ofDigitChars 10 (ds ++ List.replicate (w - ds.length) '0') 0 : ℚ) =
          Nat.ofDigitChars 10 ds 0 * 10 ^ ((w : Int) - ds.length) := by
        rw [Nat.ofDigitChars_append, Nat.ofDigitChars_replicate_zero,
          show (w : Int) - ds.length = ((w - ds.length : Nat) : Int) by omega, zpow_natCast]
        push_cast
        ring
      split
      · refine ⟨⟨ds ++ List.replicate (w - ds.length) '0', ['0'], none, by simp [hne],
          hds.append (allDigits_zeros _), by simp [AllDigits, isDigit], nofun⟩, ?_, ?_⟩
        · simp [Numeral.text, Numeral.partText, Numeral.exponentText, ← String.toList_inj]
        · simp only [Numeral.toDecimal, Decimal.value, Numeral.digits, Numeral.power]
          rw [Nat.ofDigitChars_append, ← hvalue]
          simp [Nat.ofDigitChars_cons]
          ring
      · refine ⟨⟨ds ++ List.replicate (w - ds.length) '0', [], none, by simp [hne],
          hds.append (allDigits_zeros _), by simp [AllDigits], nofun⟩, ?_, ?_⟩
        · simp [Numeral.text, Numeral.partText, Numeral.exponentText]
        · simp only [Numeral.toDecimal, Decimal.value, Numeral.digits, Numeral.power, List.append_nil]
          rw [← hvalue]
          simp
    · refine ⟨⟨ds.take w, ds.drop w, none, ?_, fun c hc => hds c (List.mem_of_mem_take hc),
        fun c hc => hds c (List.mem_of_mem_drop hc), nofun⟩, ?_, ?_⟩
      · simp only [ne_eq, List.take_eq_nil_iff, not_or]
        exact ⟨by omega, hne⟩
      · have : ds.drop w ≠ [] := by
          simp only [ne_eq, List.drop_eq_nil_iff]
          omega
        simp [Numeral.text, Numeral.partText, Numeral.exponentText, this, ← String.toList_inj]
      · simp only [Numeral.toDecimal, Decimal.value, Numeral.digits, Numeral.power,
          List.take_append_drop, List.length_drop]
        congr 2
        omega

/-- Scientific notation is a numeral for its digits. -/
theorem scientific_numeral (l : Layout) {ds : List Char} (hne : ds ≠ []) (hds : AllDigits ds)
    (leading : Int) :
    ∃ n : Numeral, l.scientific ds leading = String.ofList n.text ∧
      n.toDecimal.value = Nat.ofDigitChars 10 ds 0 * 10 ^ (leading + 1 - ds.length) := by
  obtain ⟨d, rest, rfl⟩ := List.exists_cons_of_ne_nil hne
  let zeros := List.replicate (l.exponentWidth - (Nat.toDigits 10 leading.natAbs).length) '0'
  refine ⟨⟨[d], rest, some (decide (leading < 0), zeros ++ Nat.toDigits 10 leading.natAbs), by simp,
    fun c hc => hds c (by simp_all), fun c hc => hds c (List.mem_cons_of_mem _ hc), ?_⟩, ?_, ?_⟩
  · rintro e ⟨⟩
    exact ⟨by simp [Nat.toDigits_ne_nil], (allDigits_zeros _).append (allDigits_toDigits _)⟩
  · unfold scientific padded
    rcases rest with _ | ⟨d', rest⟩ <;>
      by_cases h : leading < 0 <;>
      simp [Numeral.text, Numeral.partText, Numeral.exponentText, h, zeros, ← String.toList_inj]
  · simp only [Numeral.toDecimal, Decimal.value, Numeral.digits, Numeral.power, zeros,
      ofDigitChars_zeros_append, Nat.ofDigitChars_ten_toDigits, List.singleton_append,
      List.length_cons, decide_eq_true_eq]
    congr 2
    split <;> omega

/-- The shortest decimal of a positive finite double is written as a numeral for it. -/
theorem writeShortest_numeral (l : Layout) {x : Double} (hx : x.isZero = false)
    (hf : x.isFinite = true) :
    ∃ n : Numeral, l.writeShortest x = String.ofList n.text ∧
      n.toDouble = .ofMagnitude false x.magnitude := by
  have hvalue : ((Nat.ofDigitChars 10 (Nat.toDigits 10 x.shortest.digits) 0 : ℚ) *
      10 ^ (x.shortest.leading + 1 - (Nat.toDigits 10 x.shortest.digits).length)) =
        x.shortest.value := by
    rw [Nat.ofDigitChars_ten_toDigits, Decimal.value]
    congr 2
    simp only [Decimal.leading, Double.digitCount]
    omega
  have reads {n : Numeral} (h : n.toDecimal.value = x.shortest.value) :
      n.toDouble = .ofMagnitude false x.magnitude :=
    Double.ofDecimal_eq hx hf (show x.Holds n.toDecimal.value from h ▸ Double.shortest_holds hx)
  unfold writeShortest
  rw [hx, if_neg (by decide)]
  dsimp only
  split
  · obtain ⟨n, ht, hn⟩ := l.positional_numeral Nat.toDigits_ne_nil (allDigits_toDigits _) _
    exact ⟨n, ht, reads (hn.trans hvalue)⟩
  · obtain ⟨n, ht, hn⟩ := l.scientific_numeral Nat.toDigits_ne_nil (allDigits_toDigits _) _
    exact ⟨n, ht, reads (hn.trans hvalue)⟩

end Layout

namespace Double

variable {x : Double}

theorem natAbs?_eq {n : Nat} (h : x.natAbs? = some n) :
    (n : ℚ) = x.significand * 2 ^ x.exponent := by
  unfold natAbs? at h
  split at h
  · cases h
  split at h
  · rename_i he
    cases h
    obtain ⟨k, hk⟩ : ∃ k : Nat, x.exponent = k := ⟨x.exponent.toNat, by omega⟩
    rw [hk, zpow_natCast]
    push_cast
    simp
  · rename_i he
    dsimp only at h
    split at h
    · rename_i hmod
      cases h
      obtain ⟨k, hk⟩ : ∃ k : Nat, x.exponent = -k := ⟨x.exponent.natAbs, by omega⟩
      simp only [hk, Int.natAbs_neg, Int.natAbs_natCast, Nat.pow_eq] at hmod ⊢
      have hdvd := Nat.div_mul_cancel (Nat.dvd_of_mod_eq_zero hmod)
      have hdvd : ((x.significand / 2 ^ k : Nat) : ℚ) * 2 ^ k = x.significand := by
        exact_mod_cast hdvd
      rw [zpow_neg, zpow_natCast, ← hdvd]
      field_simp
    · cases h

/-- The value of a double lies in its interval. -/
theorem holds_value (hx : x.isZero = false) : x.Holds (x.significand * 2 ^ x.exponent) := by
  obtain ⟨hlow, hhigh⟩ := low_lt_high hx
  unfold Holds
  dsimp only
  split
  · exact ⟨hlow.le, hhigh.le⟩
  · exact ⟨hlow, hhigh⟩

end Double

/-- Every digit of a whole double is a numeral for it. -/
theorem exact_numeral {x : Double} (hf : x.isFinite = true) {k : Nat} (hk : x.natAbs? = some k) :
    ∃ n : Numeral, n.text = Nat.toDigits 10 k ∧ n.toDouble = x.abs := by
  refine ⟨⟨Nat.toDigits 10 k, [], none, Nat.toDigits_ne_nil, allDigits_toDigits k,
    by simp [AllDigits], nofun⟩, by simp [Numeral.text, Numeral.partText, Numeral.exponentText], ?_⟩
  simp only [Numeral.toDouble, Numeral.digits, Numeral.power, List.append_nil,
    Nat.ofDigitChars_ten_toDigits, List.length_nil, Nat.cast_zero, Int.sub_zero]
  have hv := Double.natAbs?_eq hk
  by_cases hx : x.isZero = true
  · have hm : x.magnitude = 0 := by simpa [Double.isZero] using hx
    have hs : x.significand = 0 := by
      simp [Double.significand, Double.biased, Double.fraction, hm]
    rw [hs] at hv
    have hk : k = 0 := by simpa using hv
    simp [Double.ofDecimal, hk, Double.abs, hm]
  · rw [Bool.not_eq_true] at hx
    refine Double.ofDecimal_eq hx hf ?_
    rw [zpow_zero, mul_one, hv]
    exact Double.holds_value hx

/-- The magnitude of a finite double is written as a numeral for it, in every layout. -/
theorem writeMagnitude_numeral (l : Layout) {x : Double} (hf : x.isFinite = true) :
    ∃ n : Numeral, l.writeMagnitude x = String.ofList n.text ∧ n.toDouble = x.abs := by
  have hz : x.abs.isZero = x.isZero := by simp [Double.isZero, Double.magnitude_abs]
  have hfa : x.abs.isFinite = true := by
    rw [Double.isFinite, Double.biased, Double.magnitude_abs]
    exact hf
  have hshortest : ∃ n : Numeral, l.writeShortest x.abs = String.ofList n.text ∧
      n.toDouble = x.abs := by
    by_cases hx : x.isZero = true
    · have hm : x.magnitude = 0 := by simpa [Double.isZero] using hx
      obtain ⟨n, ht, hn⟩ := l.positional_numeral (List.cons_ne_nil '0' []) (by simp [AllDigits, isDigit]) 1
      refine ⟨n, by rw [Layout.writeShortest, hz, hx, if_pos rfl, ht], ?_⟩
      have hd : n.digits = 0 := by
        have h0 : n.toDecimal.value = 0 := by simpa [Nat.ofDigitChars_cons] using hn
        have hp : (10 : ℚ) ^ n.power ≠ 0 := by positivity
        rw [Numeral.toDecimal, Decimal.value, mul_eq_zero] at h0
        exact_mod_cast h0.resolve_right hp
      simp [Numeral.toDouble, Double.ofDecimal, hd, Double.abs, hm]
    · rw [Bool.not_eq_true] at hx
      obtain ⟨n, ht, hn⟩ := l.writeShortest_numeral (hz.trans hx) hfa
      exact ⟨n, ht, hn.trans (by rw [Double.magnitude_abs]; rfl)⟩
  unfold Layout.writeMagnitude
  dsimp only
  split
  · rename_i k hk
    have choice (b : Bool) : ∃ n : Numeral, (if b then String.ofList (Nat.toDigits 10 k)
        else l.writeShortest x.abs) = String.ofList n.text ∧ n.toDouble = x.abs := by
      cases b with
      | false => exact hshortest
      | true =>
        obtain ⟨n, ht, hn⟩ := exact_numeral hf hk
        exact ⟨n, by rw [ht]; rfl, hn⟩
    exact choice _
  · exact hshortest

end ScriptBridge
