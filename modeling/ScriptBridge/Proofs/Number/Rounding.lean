import Mathlib.Algebra.Order.Field.Power
import Mathlib.Data.Rat.Cast.Order
import Mathlib.Tactic.FieldSimp
import Mathlib.Tactic.Linarith
import Mathlib.Tactic.Positivity
import Mathlib.Tactic.Ring
import ScriptBridge.Number.Shortest

/-!
# Rounding to the nearest double

The quotients that round to a positive finite double form an interval around its value: half a unit of
the last place to either side, and a quarter of it below a power of two. The ends belong to it if the
significand is even.

* `Double.Holds x q`: the quotient `q` lies in the interval of `x`.
* `Double.ofRatio_eq`: every quotient in the interval of `x` rounds to `x`.
-/

namespace ScriptBridge.Double

/-! ## Division -/

/-- A quotient in the half-open unit around `m` rounds to `m`; a tie does so if `m` is even. -/
theorem roundDiv_eq {n d m : Nat} (hd : 0 < d) (hlow : 2 * m * d ≤ 2 * n + d)
    (hhigh : 2 * n ≤ 2 * m * d + d)
    (htie : m % 2 = 0 ∨ (2 * m * d < 2 * n + d ∧ 2 * n < 2 * m * d + d)) : roundDiv n d = m := by
  have hn : d * (n / d) + n % d = n := Nat.div_add_mod n d
  have hr : n % d < d := Nat.mod_lt n hd
  unfold roundDiv
  dsimp only
  generalize n / d = q at hn ⊢
  generalize n % d = r at hn hr ⊢
  have hm : m = q ∨ m = q + 1 := by
    have h₁ : q ≤ m := by
      by_contra h
      have : d * (m + 1) ≤ d * q := Nat.mul_le_mul_left d (by omega)
      nlinarith
    have h₂ : m ≤ q + 1 := by
      by_contra h
      have : d * (q + 2) ≤ d * m := Nat.mul_le_mul_left d (by omega)
      nlinarith
    omega
  rcases hm with rfl | rfl
  · have hle : 2 * r ≤ d := by nlinarith
    rcases htie with h | ⟨-, h⟩
    · rw [if_neg (show ¬ d < 2 * r by omega), h, Nat.add_zero, ite_self]
    · have : 2 * r < d := by nlinarith
      rw [if_pos this]
  · have hle : d ≤ 2 * r := by nlinarith
    rw [if_neg (show ¬ 2 * r < d by omega)]
    rcases htie with h | ⟨h, -⟩
    · split
      · rfl
      · omega
    · have : d < 2 * r := by nlinarith
      rw [if_pos this]

theorem roundDiv_ratio {n d m : Nat} (hd : 0 < d) (hlow : (m : ℚ) - 1 / 2 ≤ (n : ℚ) / d)
    (hhigh : (n : ℚ) / d ≤ m + 1 / 2)
    (htie : m % 2 = 0 ∨ ((m : ℚ) - 1 / 2 < (n : ℚ) / d ∧ (n : ℚ) / d < m + 1 / 2)) :
    roundDiv n d = m := by
  have hpos : (0 : ℚ) < d := by exact_mod_cast hd
  rw [le_div_iff₀ hpos] at hlow
  rw [div_le_iff₀ hpos] at hhigh
  rw [lt_div_iff₀ hpos, div_lt_iff₀ hpos] at htie
  refine roundDiv_eq hd ?_ ?_ ?_
  · have : (2 * m * d : ℚ) ≤ 2 * n + d := by linarith
    exact_mod_cast this
  · have : (2 * n : ℚ) ≤ 2 * m * d + d := by linarith
    exact_mod_cast this
  · rcases htie with h | ⟨h₁, h₂⟩
    · exact .inl h
    · have h₁ : (2 * m * d : ℚ) < 2 * n + d := by linarith
      have h₂ : (2 * n : ℚ) < 2 * m * d + d := by linarith
      exact .inr ⟨by exact_mod_cast h₁, by exact_mod_cast h₂⟩

/-! ## Scaling -/

theorem scaleDown_den_pos (num : Nat) {den : Nat} (h : 0 < den) (shift : Int) :
    0 < (scaleDown num den shift).2 := by
  unfold scaleDown
  split
  · exact h
  · exact Nat.mul_pos h (Nat.pow_pos (by decide))

theorem scaleDown_ratio (num den : Nat) (shift : Int) :
    ((scaleDown num den shift).1 : ℚ) / (scaleDown num den shift).2 =
      (num / den : ℚ) / 2 ^ shift := by
  unfold scaleDown
  split
  · rename_i h
    obtain ⟨k, rfl⟩ : ∃ k : Nat, shift = -k := ⟨shift.natAbs, by omega⟩
    rw [zpow_neg, zpow_natCast]
    simp only [Int.natAbs_neg, Int.natAbs_natCast, Nat.pow_eq, Nat.cast_mul, Nat.cast_pow,
      Nat.cast_ofNat]
    rw [div_inv_eq_mul, mul_div_right_comm]
  · rename_i h
    obtain ⟨k, rfl⟩ : ∃ k : Nat, shift = k := ⟨shift.toNat, by omega⟩
    rw [zpow_natCast]
    simp only [Int.toNat_natCast, Nat.pow_eq, Nat.cast_mul, Nat.cast_pow, Nat.cast_ofNat]
    rw [div_div]

/-- A quotient is below a natural number iff its floor is. -/
theorem div_lt_iff_ratio {n d k : Nat} (hd : 0 < d) : n / d < k ↔ (n : ℚ) / d < k := by
  rw [Nat.div_lt_iff_lt_mul hd, div_lt_iff₀ (by exact_mod_cast hd)]
  exact_mod_cast Iff.rfl

theorem log2_bounds {n : Nat} (h : n ≠ 0) :
    (2 : ℚ) ^ (Nat.log2 n : Int) ≤ n ∧ (n : ℚ) < 2 ^ ((Nat.log2 n : Int) + 1) := by
  constructor
  · rw [zpow_natCast]
    exact_mod_cast Nat.log2_self_le h
  · rw [show (Nat.log2 n : Int) + 1 = ((Nat.log2 n + 1 : Nat) : Int) by simp, zpow_natCast]
    exact_mod_cast Nat.lt_log2_self

/-- The first guess at a binade is at most one too high. -/
theorem guess_bounds {num den : Nat} (hn : num ≠ 0) (hd : den ≠ 0) :
    (2 : ℚ) ^ ((Nat.log2 num : Int) - Nat.log2 den - 1) < num / den ∧
      (num / den : ℚ) < 2 ^ ((Nat.log2 num : Int) - Nat.log2 den + 1) := by
  obtain ⟨hn₁, hn₂⟩ := log2_bounds hn
  obtain ⟨hd₁, hd₂⟩ := log2_bounds hd
  have hpos : (0 : ℚ) < den := by exact_mod_cast Nat.pos_of_ne_zero hd
  constructor
  · rw [lt_div_iff₀ hpos]
    calc (2 : ℚ) ^ ((Nat.log2 num : Int) - Nat.log2 den - 1) * den
        < 2 ^ ((Nat.log2 num : Int) - Nat.log2 den - 1) * 2 ^ ((Nat.log2 den : Int) + 1) := by
          gcongr
      _ = 2 ^ (Nat.log2 num : Int) := by
          rw [← zpow_add₀ (by norm_num)]
          congr 1
          omega
      _ ≤ num := hn₁
  · rw [div_lt_iff₀ hpos]
    calc (num : ℚ) < 2 ^ ((Nat.log2 num : Int) + 1) := hn₂
      _ = 2 ^ ((Nat.log2 num : Int) - Nat.log2 den + 1) * 2 ^ (Nat.log2 den : Int) := by
          rw [← zpow_add₀ (by norm_num)]
          congr 1
          omega
      _ ≤ 2 ^ ((Nat.log2 num : Int) - Nat.log2 den + 1) * den := by gcongr

/-- The binade of a quotient: below its top, above its bottom unless it is the lowest one. -/
theorem binade_spec {num den : Nat} (hn : num ≠ 0) (hd : den ≠ 0) :
    -1074 ≤ binade num den ∧ (num / den : ℚ) < 2 ^ (binade num den + 53) ∧
      (-1074 < binade num den → (2 : ℚ) ^ (binade num den + 52) ≤ num / den) := by
  obtain ⟨hlow, hhigh⟩ := guess_bounds hn hd
  set guess : Int := (Nat.log2 num : Int) - Nat.log2 den - 52 with hg
  have hd₀ : 0 < den := Nat.pos_of_ne_zero hd
  have htest : (scaleDown num den guess).1 / (scaleDown num den guess).2 < Nat.pow 2 52 ↔
      (num / den : ℚ) < 2 ^ (guess + 52) := by
    rw [div_lt_iff_ratio (scaleDown_den_pos num hd₀ guess), scaleDown_ratio,
      div_lt_iff₀ (by positivity), zpow_add₀ (by norm_num)]
    norm_num [mul_comm]
  have hb : binade num den =
      max (if (num / den : ℚ) < 2 ^ (guess + 52) then guess - 1 else guess) (-1074) := by
    unfold binade
    simp only [← hg, htest]
  rw [hb]
  refine ⟨le_max_right _ _, ?_, ?_⟩
  · have hle : (num / den : ℚ) <
        2 ^ ((if (num / den : ℚ) < 2 ^ (guess + 52) then guess - 1 else guess) + 53) := by
      split
      · rename_i h
        rwa [show guess - 1 + 53 = guess + 52 by ring]
      · rwa [show guess + 53 = (Nat.log2 num : Int) - Nat.log2 den + 1 by rw [hg]; ring]
    refine lt_of_lt_of_le hle (zpow_le_zpow_right₀ (by norm_num) ?_)
    exact Int.add_le_add_right (le_max_left _ _) 53
  · intro h
    by_cases hlt : (num / den : ℚ) < 2 ^ (guess + 52)
    · rw [if_pos hlt] at h ⊢
      rw [max_eq_left (by omega)]
      rw [show guess - 1 + 52 = (Nat.log2 num : Int) - Nat.log2 den - 1 by rw [hg]; ring]
      exact hlow.le
    · rw [if_neg hlt] at h ⊢
      rw [max_eq_left (by omega)]
      exact not_lt.mp hlt

/-- The bounds of a binade determine it. -/
theorem binade_eq {num den : Nat} {e : Int} (hn : num ≠ 0) (hd : den ≠ 0) (he : -1074 ≤ e)
    (htop : (num / den : ℚ) < 2 ^ (e + 53)) (hbottom : -1074 < e → (2 : ℚ) ^ (e + 52) ≤ num / den) :
    binade num den = e := by
  obtain ⟨hb, hb₁, hb₂⟩ := binade_spec hn hd
  by_contra hne
  rcases lt_or_gt_of_ne hne with h | h
  · have := lt_of_le_of_lt (hbottom (by omega)) hb₁
    have := (zpow_lt_zpow_iff_right₀ (by norm_num : (1 : ℚ) < 2)).mp this
    omega
  · have := lt_of_le_of_lt (hb₂ (by omega)) htop
    have := (zpow_lt_zpow_iff_right₀ (by norm_num : (1 : ℚ) < 2)).mp this
    omega

/-! ## The fields of a finite double -/

variable {x : Double}

theorem le_exponent (x : Double) : -1074 ≤ x.exponent := by
  unfold exponent
  omega

theorem significand_lt (x : Double) : x.significand < 2 ^ 53 := by
  have : x.fraction < Nat.pow 2 52 := Nat.mod_lt _ (by decide)
  unfold significand
  split <;> simp only [Nat.pow_eq] at * <;> omega

theorem le_significand (h : -1074 < x.exponent) : 2 ^ 52 ≤ x.significand := by
  unfold exponent at h
  rw [significand, if_neg (by omega)]
  simp only [Nat.pow_eq]
  omega

theorem significand_pos (h : x.isZero = false) : 0 < x.significand := by
  simp only [isZero, beq_eq_false_iff_ne] at h
  unfold significand biased fraction
  simp only [Nat.pow_eq]
  split <;> omega

/-- The exponent and the significand spell the pattern. -/
theorem magnitude_eq (x : Double) :
    (x.exponent + 1074).toNat * 2 ^ 52 + x.significand = x.magnitude := by
  unfold exponent significand biased fraction
  simp only [Nat.pow_eq]
  split <;> omega

theorem magnitude_lt (h : x.isFinite = true) : x.magnitude < 2047 * 2 ^ 52 := by
  have h : x.biased < 2047 := by simpa [isFinite] using h
  simp only [biased, Nat.pow_eq] at h
  omega

/-- The spacing halves below a power of two, except for the lowest ones. -/
theorem fraction_eq_zero_iff (x : Double) :
    (x.fraction = 0 ∧ 1 < x.biased) ↔ (x.significand = 2 ^ 52 ∧ -1074 < x.exponent) := by
  unfold exponent significand
  simp only [Nat.pow_eq]
  split <;> omega

/-! ## The interval of a double -/

/-- A quotient that rounds to a positive finite double, ends included if its significand is even. -/
def Holds (x : Double) (q : ℚ) : Prop :=
  let unit : ℚ := 2 ^ (x.exponent - 2)
  if x.neighbourhood.closed then
    x.neighbourhood.low * unit ≤ q ∧ q ≤ x.neighbourhood.high * unit
  else x.neighbourhood.low * unit < q ∧ q < x.neighbourhood.high * unit

theorem neighbourhood_den_pos (x : Double) : 0 < x.neighbourhood.den :=
  scaleDown_den_pos 1 (by decide) _

/-- The scale of a neighbourhood is a quarter of the last place. -/
theorem neighbourhood_scale (x : Double) :
    (x.neighbourhood.num : ℚ) / x.neighbourhood.den = 2 ^ (x.exponent - 2) := by
  have := scaleDown_ratio 1 1 (2 - x.exponent)
  rw [Nat.cast_one, div_one, one_div, ← zpow_neg, neg_sub] at this
  exact this

theorem quarter_eq (x : Double) : (2 : ℚ) ^ (x.exponent - 2) = 2 ^ x.exponent / 4 := by
  rw [zpow_sub₀ (by norm_num)]
  norm_num

theorem low_eq (x : Double) : x.neighbourhood.low =
    if x.significand = 2 ^ 52 ∧ -1074 < x.exponent then 4 * x.significand - 1
    else 4 * x.significand - 2 := by
  simp only [neighbourhood, fraction_eq_zero_iff]

/-- The interval in units of the last place. -/
theorem Holds.bounds {q : ℚ} (hx : x.isZero = false) (h : x.Holds q) :
    (x.significand : ℚ) - 1 / 2 ≤ q / 2 ^ x.exponent ∧ q / 2 ^ x.exponent ≤ x.significand + 1 / 2 ∧
      (x.significand % 2 = 0 ∨ (x.significand : ℚ) - 1 / 2 < q / 2 ^ x.exponent ∧
        q / 2 ^ x.exponent < x.significand + 1 / 2) ∧
      (x.significand = 2 ^ 52 → -1074 < x.exponent →
        (x.significand : ℚ) - 1 / 4 ≤ q / 2 ^ x.exponent) := by
  have hm := significand_pos hx
  have hpos : (0 : ℚ) < 2 ^ x.exponent := by positivity
  have hlow : ((4 * x.significand - 2 : Nat) : ℚ) = 4 * x.significand - 2 := by
    rw [Nat.cast_sub (by omega)]
    norm_num
  have hlow' : ((4 * x.significand - 1 : Nat) : ℚ) = 4 * x.significand - 1 := by
    rw [Nat.cast_sub (by omega)]
    norm_num
  have hle : (4 * x.significand - 2 : ℚ) ≤ x.neighbourhood.low := by
    rw [low_eq]
    split
    · rw [hlow']
      linarith
    · rw [hlow]
  have hhigh : (x.neighbourhood.high : ℚ) = 4 * x.significand + 2 := by
    simp [neighbourhood]
  have hq : q = q / 2 ^ x.exponent * 2 ^ x.exponent := (div_mul_cancel₀ q hpos.ne').symm
  generalize q / 2 ^ x.exponent = z at hq ⊢
  have hbounds : (x.neighbourhood.low : ℚ) ≤ 4 * z ∧ 4 * z ≤ x.neighbourhood.high ∧
      (x.significand % 2 = 0 ∨ (x.neighbourhood.low : ℚ) < 4 * z ∧ 4 * z < x.neighbourhood.high) := by
    have hscale (y : ℚ) : y * 2 ^ (x.exponent - 2) = y / 4 * 2 ^ x.exponent := by
      rw [quarter_eq]
      ring
    unfold Holds at h
    dsimp only at h
    simp only [hscale] at h
    rw [hq] at h
    split at h
    · rename_i hc
      simp only [mul_le_mul_iff_left₀ hpos] at h
      have hc : x.significand % 2 = 0 := by simpa [neighbourhood] using hc
      exact ⟨by linarith, by linarith, .inl hc⟩
    · simp only [mul_lt_mul_iff_left₀ hpos] at h
      exact ⟨by linarith, by linarith, .inr ⟨by linarith, by linarith⟩⟩
  obtain ⟨h₁, h₂, h₃⟩ := hbounds
  rw [hhigh] at h₂ h₃
  refine ⟨by linarith, by linarith, ?_, ?_⟩
  · rcases h₃ with h₃ | h₃
    · exact .inl h₃
    · exact .inr ⟨by linarith, by linarith⟩
  · intro hs he
    rw [low_eq, if_pos ⟨hs, he⟩, hlow'] at h₁
    linarith

/-- Every quotient in the interval of a double rounds to it. -/
theorem ofRatio_eq {num den : Nat} (negative : Bool) (hx : x.isZero = false)
    (hf : x.isFinite = true) (hd : den ≠ 0) (h : x.Holds (num / den)) :
    ofRatio negative num den = ofMagnitude negative x.magnitude := by
  obtain ⟨hlow, hhigh, htie, hquarter⟩ := h.bounds hx
  have hm := significand_pos hx
  have hm' : (x.significand : ℚ) + 1 ≤ 2 ^ 53 := by exact_mod_cast x.significand_lt
  have he := x.le_exponent
  have hpos : (0 : ℚ) < 2 ^ x.exponent := by positivity
  have hn : num ≠ 0 := by
    rintro rfl
    have : (1 : ℚ) ≤ x.significand := by exact_mod_cast hm
    simp at hlow
    linarith
  have hround (e : Int) (m : Nat) (hb : binade num den = e)
      (hr : roundDiv (scaleDown num den e).1 (scaleDown num den e).2 = m)
      (hmag : (e + 1074).toNat * 2 ^ 52 + m = x.magnitude) :
      ofRatio negative num den = ofMagnitude negative x.magnitude := by
    rw [ofRatio, if_neg hn]
    simp only [hb, hr, Nat.pow_eq, hmag]
    exact if_pos (magnitude_lt hf)
  have hd₀ := Nat.pos_of_ne_zero hd
  by_cases hlt : -1074 < x.exponent ∧ (num / den : ℚ) < 2 ^ (x.exponent + 52)
  · -- The quotient lies below the power of two that is the value, in the binade below.
    obtain ⟨he', hlt⟩ := hlt
    have hz : (num / den : ℚ) / 2 ^ x.exponent < 2 ^ 52 := by
      rw [div_lt_iff₀ hpos, mul_comm]
      rwa [zpow_add₀ (by norm_num)] at hlt
    have hs : x.significand = 2 ^ 52 := by
      have hge := le_significand he'
      by_contra hne
      have : (2 ^ 52 + 1 : ℚ) ≤ x.significand := by exact_mod_cast (by omega : 2 ^ 52 + 1 ≤ x.significand)
      linarith
    have hq := hquarter hs he'
    rw [hs] at hq
    push_cast at hq
    have hhalf : (num / den : ℚ) / 2 ^ (x.exponent - 1) = 2 * ((num / den : ℚ) / 2 ^ x.exponent) := by
      rw [zpow_sub₀ (by norm_num)]
      field_simp
    have hb : binade num den = x.exponent - 1 := by
      refine binade_eq hn hd (by omega) ?_ fun _ => ?_
      · rwa [show x.exponent - 1 + 53 = x.exponent + 52 by ring]
      · rw [zpow_add₀ (by norm_num), mul_comm, ← le_div_iff₀ (by positivity), hhalf]
        norm_num
        linarith
    have hr : roundDiv (scaleDown num den (x.exponent - 1)).1 (scaleDown num den (x.exponent - 1)).2 =
        2 ^ 53 := by
      refine roundDiv_ratio (scaleDown_den_pos num hd₀ _) ?_ ?_ (.inl (by norm_num))
      · rw [scaleDown_ratio, hhalf]
        push_cast
        linarith
      · rw [scaleDown_ratio, hhalf]
        push_cast
        linarith
    refine hround _ _ hb hr ?_
    rw [← x.magnitude_eq, hs]
    omega
  · have hb : binade num den = x.exponent := by
      refine binade_eq hn hd he ?_ fun h => not_lt.mp fun hlt' => hlt ⟨h, hlt'⟩
      rw [zpow_add₀ (by norm_num), mul_comm, ← div_lt_iff₀ hpos]
      norm_num at hm' ⊢
      linarith
    have hr : roundDiv (scaleDown num den x.exponent).1 (scaleDown num den x.exponent).2 =
        x.significand := by
      refine roundDiv_ratio (scaleDown_den_pos num hd₀ _) ?_ ?_ ?_
      · rwa [scaleDown_ratio]
      · rwa [scaleDown_ratio]
      · rwa [scaleDown_ratio]
    exact hround _ _ hb hr x.magnitude_eq

end ScriptBridge.Double
