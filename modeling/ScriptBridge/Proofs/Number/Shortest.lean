import ScriptBridge.Proofs.Number.Rounding

/-!
# The shortest decimal rounds back

On every decimal grid the search of `Double.shortest` looks at the two neighbours of the value and takes
one only if it lies in the interval of the double. On a grid of seventeen digits one of them always
does: the grid is finer than the spacing of doubles there. So the decimal that is found rounds to the
double it came from.

* `Decimal.value`: the number that a decimal stands for.
* `Double.gridHit_seventeen`: seventeen digits are enough.
* `Double.shortest_holds`: the shortest decimal lies in the interval of its double.
-/

namespace ScriptBridge

/-! ## Decimals -/

/-- The number that a decimal stands for. -/
def Decimal.value (d : Decimal) : ℚ :=
  d.digits * 10 ^ d.power

theorem Decimal.value_trim_go (n : Nat) (d : Decimal) : (Decimal.trim.go n d).value = d.value := by
  induction n generalizing d with
  | zero => rfl
  | succ n ih =>
    unfold Decimal.trim.go
    split
    · rename_i h
      rw [ih]
      unfold Decimal.value
      dsimp only
      have hd : (d.digits : ℚ) = (d.digits / 10 : Nat) * 10 := by
        exact_mod_cast (Nat.div_mul_cancel (Nat.dvd_of_mod_eq_zero h.2)).symm
      rw [hd, zpow_add₀ (by norm_num)]
      ring
    · rfl

theorem Decimal.value_trim (d : Decimal) : d.trim.value = d.value :=
  Decimal.value_trim_go _ d

namespace Double

/-- The number of digits tells the size of a number. -/
theorem digitCount_bounds {n : Nat} (h : n ≠ 0) :
    10 ^ (digitCount n - 1) ≤ n ∧ n < 10 ^ digitCount n := by
  have hpos : 0 < digitCount n := Nat.length_toDigits_pos
  have hiff (k : Nat) (hk : 0 < k) : digitCount n ≤ k ↔ n < 10 ^ k :=
    Nat.length_toDigits_le_iff (by decide) hk
  refine ⟨?_, (hiff _ hpos).mp (Nat.le_refl _)⟩
  by_cases h₁ : digitCount n - 1 = 0
  · rw [h₁]
    exact Nat.pos_of_ne_zero h
  · by_contra hlt
    have := (hiff _ (Nat.pos_of_ne_zero h₁)).mpr (by omega)
    omega

/-- The place of a positive quotient is no higher than the quotient. -/
theorem decimalPlace_le {num den : Nat} (hn : num ≠ 0) (hd : den ≠ 0) :
    (10 : ℚ) ^ (decimalPlace num den - 1) ≤ num / den := by
  have hn' : (0 : ℚ) < num := by exact_mod_cast Nat.pos_of_ne_zero hn
  have hd' : (0 : ℚ) < den := by exact_mod_cast Nat.pos_of_ne_zero hd
  unfold decimalPlace
  split
  · rename_i h
    have hq : num / den ≠ 0 := (Nat.div_pos h (Nat.pos_of_ne_zero hd)).ne'
    obtain ⟨hlow, -⟩ := digitCount_bounds hq
    have hpos : 0 < digitCount (num / den) := Nat.length_toDigits_pos
    rw [show (digitCount (num / den) : Int) - 1 = ((digitCount (num / den) - 1 : Nat) : Int) by omega,
      zpow_natCast, le_div_iff₀ hd']
    calc (10 : ℚ) ^ (digitCount (num / den) - 1) * den ≤ (num / den : Nat) * den := by
          gcongr
          exact_mod_cast hlow
      _ ≤ num := by exact_mod_cast Nat.div_mul_le_self num den
  · rename_i h
    have hq : den / num ≠ 0 := (Nat.div_pos (by omega) (Nat.pos_of_ne_zero hn)).ne'
    obtain ⟨-, hhigh⟩ := digitCount_bounds hq
    have hpos : 0 < digitCount (den / num) := Nat.length_toDigits_pos
    set l := digitCount (den / num)
    dsimp only
    split
    · rename_i hl
      have hl : (num : ℚ) * 10 ^ (l - 1) = den := by exact_mod_cast hl
      rw [show (2 : Int) - l - 1 = -((l - 1 : Nat) : Int) by omega, zpow_neg, zpow_natCast, ← hl]
      apply le_of_eq
      field_simp
    · rw [show (1 : Int) - l - 1 = -(l : Int) by omega, zpow_neg, zpow_natCast,
        inv_le_comm₀ (by positivity) (by positivity), inv_div, div_le_iff₀ hn']
      have : den < 10 ^ l * num := (Nat.div_lt_iff_lt_mul (Nat.pos_of_ne_zero hn)).mp hhigh
      exact_mod_cast this.le

/-! ## Grids -/

variable {x : Double}

/-- The numerator of a quarter of the last place in units of a grid. -/
def gridNum (s : Neighbourhood) (power : Int) : Nat :=
  s.num * (if power < 0 then Nat.pow 10 power.natAbs else 1)

/-- The denominator of a quarter of the last place in units of a grid. -/
def gridDen (s : Neighbourhood) (power : Int) : Nat :=
  s.den * (if power < 0 then 1 else Nat.pow 10 power.toNat)

theorem gridDen_pos (x : Double) (power : Int) : 0 < gridDen x.neighbourhood power := by
  refine Nat.mul_pos x.neighbourhood_den_pos ?_
  split
  · decide
  · exact Nat.pow_pos (by decide)

theorem grid_ratio (x : Double) (power : Int) :
    (gridNum x.neighbourhood power : ℚ) / gridDen x.neighbourhood power =
      2 ^ (x.exponent - 2) / 10 ^ power := by
  rw [← neighbourhood_scale]
  unfold gridNum gridDen
  split
  · obtain ⟨k, rfl⟩ : ∃ k : Nat, power = -k := ⟨power.natAbs, by omega⟩
    rw [zpow_neg, zpow_natCast]
    simp only [Int.natAbs_neg, Int.natAbs_natCast, Nat.pow_eq, Nat.cast_mul, Nat.cast_pow,
      Nat.cast_ofNat, Nat.mul_one, div_inv_eq_mul]
    rw [mul_div_right_comm]
  · obtain ⟨k, rfl⟩ : ∃ k : Nat, power = k := ⟨power.toNat, by omega⟩
    rw [zpow_natCast]
    simp only [Int.toNat_natCast, Nat.pow_eq, Nat.cast_mul, Nat.cast_pow, Nat.cast_ofNat,
      Nat.mul_one]
    rw [div_div]

/-- Comparison with a point of a grid. -/
theorem grid_le (x : Double) (power : Int) (k c : Nat) :
    k * gridNum x.neighbourhood power ≤ c * gridDen x.neighbourhood power ↔
      (k : ℚ) * 2 ^ (x.exponent - 2) ≤ c * 10 ^ power := by
  have hb : (0 : ℚ) < gridDen x.neighbourhood power := by exact_mod_cast gridDen_pos x power
  have hp : (0 : ℚ) < 10 ^ power := by positivity
  rw [← Nat.cast_le (α := ℚ), Nat.cast_mul, Nat.cast_mul, ← div_le_iff₀ hb, mul_div_assoc,
    grid_ratio, ← mul_div_assoc, div_le_iff₀ hp]

/-- Comparison of a point of a grid. -/
theorem le_grid (x : Double) (power : Int) (k c : Nat) :
    c * gridDen x.neighbourhood power ≤ k * gridNum x.neighbourhood power ↔
      (c : ℚ) * 10 ^ power ≤ k * 2 ^ (x.exponent - 2) := by
  have hb : (0 : ℚ) < gridDen x.neighbourhood power := by exact_mod_cast gridDen_pos x power
  have hp : (0 : ℚ) < 10 ^ power := by positivity
  rw [← Nat.cast_le (α := ℚ), Nat.cast_mul, Nat.cast_mul, ← le_div_iff₀ hb, mul_div_assoc,
    grid_ratio, ← mul_div_assoc, le_div_iff₀ hp]

/-- Whether a point of a grid rounds to the value. -/
def gridInside (s : Neighbourhood) (power : Int) (c : Nat) : Bool :=
  if s.closed then
    s.low * gridNum s power ≤ c * gridDen s power && c * gridDen s power ≤ s.high * gridNum s power
  else s.low * gridNum s power < c * gridDen s power && c * gridDen s power < s.high * gridNum s power

theorem gridInside_iff (x : Double) (power : Int) (c : Nat) :
    gridInside x.neighbourhood power c = true ↔ x.Holds (c * 10 ^ power) := by
  unfold gridInside Holds
  dsimp only
  split
  · rw [Bool.and_eq_true, decide_eq_true_eq, decide_eq_true_eq, grid_le, le_grid]
  · rw [Bool.and_eq_true, decide_eq_true_eq, decide_eq_true_eq, ← not_le, ← not_le, le_grid,
      grid_le, not_le, not_le]

/-- The point of a grid just below the value. -/
def gridBelow (s : Neighbourhood) (power : Int) : Nat :=
  s.value * gridNum s power / gridDen s power

/-- A search on a grid gives one of the two neighbours of the value if any rounds to it. -/
theorem gridHit_cases (s : Neighbourhood) (power : Int) :
    (gridHit s power = none ∧ gridInside s power (gridBelow s power) = false ∧
        gridInside s power (gridBelow s power + 1) = false) ∨
      ∃ c, gridHit s power = some c ∧ gridInside s power c = true := by
  unfold gridHit
  dsimp only
  split
  · rename_i hbelow _
    exact .inr ⟨_, rfl, hbelow⟩
  · rename_i _ habove
    exact .inr ⟨_, rfl, habove⟩
  · rename_i hbelow habove
    -- Of two that are equally near, the even one is taken.
    have hpick (p q : Prop) [Decidable p] [Decidable q] (k : Nat) :
        (if p then k else if q then k + 1 else k + k % 2) = k ∨
          (if p then k else if q then k + 1 else k + k % 2) = k + 1 := by
      split_ifs <;> omega
    let rest := 2 * (s.value * gridNum s power - gridBelow s power * gridDen s power)
    refine .inr ⟨_, rfl, ?_⟩
    rcases hpick (rest < gridDen s power) (gridDen s power < rest) (gridBelow s power) with hk | hk
    · exact (congrArg (gridInside s power) hk).trans hbelow
    · exact (congrArg (gridInside s power) hk).trans habove
  · rename_i hbelow habove
    exact .inl ⟨rfl, hbelow, habove⟩

theorem gridHit_holds {power : Int} {c : Nat} (h : gridHit x.neighbourhood power = some c) :
    x.Holds (c * 10 ^ power) := by
  rcases gridHit_cases x.neighbourhood power with ⟨hn, -⟩ | ⟨c', hc, hi⟩
  · rw [hn] at h
    cases h
  · rw [hc] at h
    cases h
    exact (gridInside_iff x power c).mp hi

/-- The two points of a grid around the value. -/
theorem gridBelow_spec (x : Double) (power : Int) :
    (gridBelow x.neighbourhood power : ℚ) * 10 ^ power ≤ x.significand * 2 ^ x.exponent ∧
      x.significand * 2 ^ x.exponent < (gridBelow x.neighbourhood power + 1 : ℚ) * 10 ^ power := by
  have hv : (x.neighbourhood.value : ℚ) * 2 ^ (x.exponent - 2) = x.significand * 2 ^ x.exponent := by
    rw [quarter_eq]
    simp only [neighbourhood, Nat.cast_mul, Nat.cast_ofNat]
    ring
  rw [← hv]
  constructor
  · rw [← le_grid]
    exact Nat.div_mul_le_self _ _
  · rw [← not_le, show (gridBelow x.neighbourhood power + 1 : ℚ) =
      (gridBelow x.neighbourhood power + 1 : Nat) by push_cast; rfl, ← le_grid, not_le]
    exact Nat.lt_mul_of_div_lt (Nat.lt_succ_self _) (gridDen_pos x power)

/-- The value of a double lies strictly inside its interval. -/
theorem low_lt_high (hx : x.isZero = false) :
    (x.neighbourhood.low : ℚ) * 2 ^ (x.exponent - 2) < x.significand * 2 ^ x.exponent ∧
      (x.significand : ℚ) * 2 ^ x.exponent < x.neighbourhood.high * 2 ^ (x.exponent - 2) := by
  have hm := significand_pos hx
  have hpos : (0 : ℚ) < 2 ^ x.exponent := by positivity
  have hlow : (x.neighbourhood.low : ℚ) < 4 * x.significand := by
    have : x.neighbourhood.low < 4 * x.significand := by
      rw [low_eq]
      split <;> omega
    exact_mod_cast this
  have hhigh : (x.neighbourhood.high : ℚ) = 4 * x.significand + 2 := by simp [neighbourhood]
  rw [quarter_eq, hhigh]
  constructor
  · nlinarith
  · nlinarith

/-- A point below the value that does not round to it is half a place away, or a quarter. -/
theorem not_holds_below {q : ℚ} (hx : x.isZero = false) (h : ¬ x.Holds q)
    (hq : q ≤ x.significand * 2 ^ x.exponent) :
    q ≤ (x.significand - 1 / 2) * 2 ^ x.exponent ∨
      (x.significand = 2 ^ 52 ∧ q ≤ (x.significand - 1 / 4) * 2 ^ x.exponent) := by
  have hm := significand_pos hx
  obtain ⟨-, hhigh⟩ := low_lt_high hx
  have hlow : q ≤ x.neighbourhood.low * 2 ^ (x.exponent - 2) := by
    by_contra hlt
    rw [not_le] at hlt
    apply h
    unfold Holds
    dsimp only
    split
    · exact ⟨hlt.le, (hq.trans_lt hhigh).le⟩
    · exact ⟨hlt, hq.trans_lt hhigh⟩
  rw [low_eq, quarter_eq] at hlow
  split at hlow
  · rename_i hs
    rw [Nat.cast_sub (by omega)] at hlow
    push_cast at hlow
    exact .inr ⟨hs.1, by linarith⟩
  · rw [Nat.cast_sub (by omega)] at hlow
    push_cast at hlow
    exact .inl (by linarith)

/-- A point above the value that does not round to it is half a place away. -/
theorem not_holds_above {q : ℚ} (hx : x.isZero = false) (h : ¬ x.Holds q)
    (hq : x.significand * 2 ^ x.exponent < q) : (x.significand + 1 / 2) * 2 ^ x.exponent ≤ q := by
  obtain ⟨hlow, -⟩ := low_lt_high hx
  have hhigh : x.neighbourhood.high * 2 ^ (x.exponent - 2) ≤ q := by
    by_contra hlt
    rw [not_le] at hlt
    apply h
    unfold Holds
    dsimp only
    split
    · exact ⟨(hlow.trans hq).le, hlt.le⟩
    · exact ⟨hlow.trans hq, hlt⟩
  have he : (x.neighbourhood.high : ℚ) = 4 * x.significand + 2 := by simp [neighbourhood]
  rw [he, quarter_eq] at hhigh
  linarith

/-- On a grid that has seventeen digits of the value, one of its neighbours rounds to it. -/
theorem gridHit_seventeen (power : Int) (hx : x.isZero = false)
    (h : (10 : ℚ) ^ (power + 16) ≤ x.significand * 2 ^ x.exponent) :
    ∃ c, gridHit x.neighbourhood power = some c := by
  rcases gridHit_cases x.neighbourhood power with ⟨-, hno, hno'⟩ | ⟨c, hc, -⟩
  · exfalso
    rw [← Bool.not_eq_true, gridInside_iff] at hno hno'
    obtain ⟨hbelow, habove⟩ := gridBelow_spec x power
    have hb := not_holds_below hx hno hbelow
    have ha := not_holds_above hx hno' (by push_cast; exact habove)
    have hpos : (0 : ℚ) < 2 ^ x.exponent := by positivity
    have hm : (x.significand : ℚ) * 2 ^ x.exponent ≤ 2 ^ 53 * 2 ^ x.exponent := by
      refine mul_le_mul_of_nonneg_right ?_ hpos.le
      exact_mod_cast x.significand_lt.le
    rw [zpow_add₀ (by norm_num)] at h
    norm_num at h
    push_cast at ha
    -- The grid is narrower than the spacing: a half above and a half or a quarter below do not fit.
    rcases hb with hb | ⟨hs, hb⟩
    · linarith
    · rw [hs] at h hb ha
      push_cast at h hb ha
      linarith
  · exact ⟨c, hc⟩

/-! ## The search -/

theorem shortest_go_holds (hx : x.isZero = false) {place : Int}
    (h : (10 : ℚ) ^ (place - 1) ≤ x.significand * 2 ^ x.exponent) (fuel n : Nat)
    (hn : n + fuel = 18) (hf : fuel ≠ 0) :
    x.Holds (shortest.go x.neighbourhood place fuel n).value := by
  induction fuel generalizing n with
  | zero => exact absurd rfl hf
  | succ fuel ih =>
    unfold shortest.go
    split
    · rename_i c hc
      rw [Decimal.value_trim]
      exact gridHit_holds hc
    · rename_i hc
      by_cases hf : fuel = 0
      · obtain ⟨c, hc'⟩ := gridHit_seventeen (place - n) hx (by
          rwa [show place - (n : Int) + 16 = place - 1 by omega])
        rw [hc'] at hc
        cases hc
      · exact ih (n + 1) (by omega) hf

/-- The shortest decimal of a double rounds to it. -/
theorem shortest_holds (hx : x.isZero = false) : x.Holds x.shortest.value := by
  refine shortest_go_holds hx ?_ 17 1 rfl (by decide)
  have hm := significand_pos hx
  have hv : ((x.neighbourhood.value * x.neighbourhood.num : Nat) : ℚ) / x.neighbourhood.den =
      x.significand * 2 ^ x.exponent := by
    rw [Nat.cast_mul, mul_div_assoc, neighbourhood_scale, quarter_eq]
    simp only [neighbourhood, Nat.cast_mul, Nat.cast_ofNat]
    ring
  have hnum : x.neighbourhood.value * x.neighbourhood.num ≠ 0 := by
    intro h0
    have hpos : (0 : ℚ) < x.significand * 2 ^ x.exponent := by positivity
    rw [← hv, h0] at hpos
    simp at hpos
  rw [← hv]
  exact decimalPlace_le hnum x.neighbourhood_den_pos.ne'

end Double

end ScriptBridge
