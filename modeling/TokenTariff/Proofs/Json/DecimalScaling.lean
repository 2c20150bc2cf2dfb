import TokenTariff.Json.NumberReader
import TokenTariff.Proofs.DoubleArithmetic
/-!
# Decimals as doubles

A significand and a power of ten are made into a double by operations each of which rounds. What
comes out is therefore not always the double nearest to the decimal, but a rounding of a rational
that lies close to it.

* `IsWithin`: a rational differs from another by a part of it;
* `IsReading`: a rational to which the operations come before they round for the last time.
-/

namespace TokenTariff.Json
set_option autoImplicit false

open Double

/-! ## Relative differences -/

/-- A rational differs from another one by at most a part of that. -/
def IsWithin (part a v : ℚ) : Prop :=
  |a - v| ≤ part * v

section
variable {part part' a b v w : ℚ}

theorem IsWithin.bounds (h : IsWithin part a v) : v * (1 - part) ≤ a ∧ a ≤ v * (1 + part) := by
  obtain ⟨low, high⟩ := abs_le.1 h
  constructor <;> linarith

theorem IsWithin.mono (h : IsWithin part a v) (positive : 0 < v) (le : part ≤ part') :
    IsWithin part' a v :=
  h.trans (by gcongr)

theorem IsWithin.mul (ha : IsWithin part a v) (hb : IsWithin part' b w) (hv : 0 < v) (hw : 0 < w)
    (least : 0 ≤ part) : IsWithin (part + part' + part * part') (a * b) (v * w) := by
  have split : a * b - v * w = (a - v) * (b - w) + ((a - v) * w + v * (b - w)) := by ring
  rw [IsWithin, split]
  calc |(a - v) * (b - w) + ((a - v) * w + v * (b - w))|
      ≤ |a - v| * |b - w| + (|a - v| * w + v * |b - w|) := by
        rw [← abs_mul, ← abs_of_pos hw, ← abs_mul, abs_of_pos hw, ← abs_of_pos hv, ← abs_mul,
          abs_of_pos hv]
        exact (abs_add_le _ _).trans (by gcongr; exact abs_add_le _ _)
    _ ≤ part * v * (part' * w) + (part * v * w + v * (part' * w)) := by
        gcongr
        · exact ha
        · exact hb
        · exact ha
        · exact hb
    _ = (part + part' + part * part') * (v * w) := by ring

theorem IsWithin.div (ha : IsWithin part a v) (hb : IsWithin part' b w) (hv : 0 < v) (hw : 0 < w)
    (small : part' < 1) :
    IsWithin ((part + part') / (1 - part')) (a / b) (v / w) := by
  obtain ⟨low, -⟩ := hb.bounds
  have positive : 0 < w * (1 - part') := mul_pos hw (by linarith)
  have hb' : 0 < b := positive.trans_le low
  have split : a / b - v / w = ((a - v) * w - v * (b - w)) / (b * w) := by
    field_simp
    ring
  have size : |(a - v) * w - v * (b - w)| ≤ (part + part') * (v * w) := by
    calc |(a - v) * w - v * (b - w)| ≤ |(a - v) * w| + |v * (b - w)| := abs_sub _ _
      _ = |a - v| * w + v * |b - w| := by rw [abs_mul, abs_mul, abs_of_pos hv, abs_of_pos hw]
      _ ≤ part * v * w + v * (part' * w) := by
        gcongr
        · exact ha
        · exact hb
      _ = (part + part') * (v * w) := by ring
  have nonneg : 0 ≤ (part + part') * (v * w) := (abs_nonneg _).trans size
  rw [IsWithin, split, abs_div, abs_of_pos (mul_pos hb' hw)]
  calc |(a - v) * w - v * (b - w)| / (b * w) ≤ (part + part') * (v * w) / (w * (1 - part') * w) := by
        gcongr
    _ = (part + part') / (1 - part') * (v / w) := by
        have : 1 - part' ≠ 0 := by linarith
        field_simp

end

/-! ## Significands and powers -/

/-- A whole number that a double holds exactly. -/
def IsExact (n : Nat) : Prop :=
  ∃ m k, m < 2 ^ 53 ∧ n = m * 2 ^ k

theorem isExact_iff {n : Nat} : IsExact n ↔ 2 ^ (n.log2 - 52) ∣ n := by
  by_cases zero : n = 0
  · subst zero
    exact iff_of_true ⟨0, 0, by decide, rfl⟩ (Nat.dvd_zero _)
  constructor
  · rintro ⟨m, k, narrow, rfl⟩
    have nonzero : m ≠ 0 := left_ne_zero_of_mul zero
    have bits : m.log2 < 53 := (Nat.log2_lt nonzero).2 narrow
    rw [Nat.mul_comm m, log2_two_pow_mul nonzero]
    exact (Nat.pow_dvd_pow 2 (by omega)).mul_right m
  · rintro ⟨m, split⟩
    refine ⟨m, n.log2 - 52, ?_, split.trans (Nat.mul_comm _ _)⟩
    have high : n < 2 ^ (53 + (n.log2 - 52)) :=
      Nat.lt_log2_self.trans_le (Nat.pow_le_pow_right (by decide) (by omega))
    rw [Nat.pow_add, Nat.mul_comm] at high
    generalize n.log2 - 52 = k at split high
    subst split
    exact Nat.lt_of_mul_lt_mul_left high

instance (n : Nat) : Decidable (IsExact n) :=
  decidable_of_iff _ isExact_iff.symm

theorem significand_value {n : Nat} (positive : 0 < n) (narrow : n < significandLimit) :
    ∃ m e, IsPositive (Float.ofNat n) m e ∧ 2 ^ 52 ≤ m ∧
      IsWithin (1 / 2 ^ 53) (m * 2 ^ e) n ∧ (IsExact n → (m * 2 ^ e : ℚ) = n) := by
  have rounded := isRounded_ofNat positive narrow
  obtain ⟨m, e, positive', value, bits, -⟩ := isNormal_ofNat positive narrow
  have isPositive : IsPositive (Float.ofNat n) m e := ⟨positive', value⟩
  have one : (1 : ℚ) ≤ n := by exact_mod_cast positive
  refine ⟨m, e, isPositive, ((Nat.log2_eq_iff positive'.ne').1 bits).1, ?_, ?_⟩
  · refine (rounded.error isPositive).trans (max_le (le_of_eq (by ring)) ?_)
    have := halfLeast_mul_le (show 53 ≤ 1075 by decide)
    linarith
  · rintro ⟨k, j, few, rfl⟩
    have exact := Rounded.exact few rounded
    rwa [value, magnitude_finite] at exact

theorem power_value {n : Nat} (h : n ≤ greatestPower) :
    ∃ m e, IsPositive (powerOfTen n) m e ∧ IsWithin (1 / 2 ^ 53) (m * 2 ^ e) (10 ^ n) ∧
      (n ≤ 22 → (m * 2 ^ e : ℚ) = 10 ^ n) := by
  by_cases small : n ≤ 22
  · obtain ⟨m, e, positive, exact⟩ := exists_power_exact small
    refine ⟨m, e, positive, ?_, fun _ => exact⟩
    rw [IsWithin, exact, sub_self, abs_zero]
    positivity
  · obtain ⟨m, e, positive, error⟩ := exists_power h
    exact ⟨m, e, positive, error.trans (le_of_eq (by ring)), fun small' => absurd small' small⟩

theorem isCloseTo_greatestPower :
    isCloseTo (powerOfTen greatestPower) (10 ^ greatestPower) 1 (2 ^ 56) = true := by
  decide +kernel

/-- The greatest power of ten that is a double is very close to its value. -/
theorem greatestPower_value : ∃ m e, IsPositive (powerOfTen greatestPower) m e ∧
    IsWithin (1 / 2 ^ 56) (m * 2 ^ e) (10 ^ greatestPower) := by
  obtain ⟨m, e, positive, close⟩ :=
    exists_positive_of_isCloseTo (Nat.two_pow_pos 56) isCloseTo_greatestPower
  refine ⟨m, e, positive, ?_⟩
  rw [Nat.cast_pow, Nat.cast_pow] at close
  refine close.trans (le_of_eq ?_)
  push_cast
  ring

/-! ## Scaling -/

/-- What the operations come to before they round for the last time. -/
structure IsReading (significand : Nat) (power : Int) (p : ℚ) : Prop where
  close : |p - significand * 10 ^ power| ≤
    9 / 4 / 2 ^ 53 * (significand * 10 ^ power) + halfLeast / 10
  exact : IsExact significand → power.natAbs ≤ 22 → p = significand * 10 ^ power

theorem not_isZero {x : Float} {m : Nat} {e : Int} (h : IsPositive x m e) : (x == 0) = false := by
  obtain ⟨positive, value⟩ := h
  rw [Bool.eq_false_iff, ne_eq, beq_zero_iff, value]
  exact Bool.false_ne_true

theorem not_isInf {p : ℚ} {x : Float} (h : IsRounded p x) (small : p < overflow) :
    x.isInf = false := by
  change x.toModel.unpack.isInf = false
  rcases Rounded.cases h small with zero | ⟨m, e, positive, value, -⟩
  · rw [zero]
    rfl
  · rw [value]
    rfl

section
variable {significand : Nat} {power : Int}

theorem scaleByTen_up (positive : 0 < significand) (narrow : significand < significandLimit)
    (up : 0 ≤ power) (few : power.natAbs ≤ greatestPower) (steps : Nat) :
    ∃ p, IsReading significand power p ∧
      (p < overflow → ∃ x, scaleByTen steps (Float.ofNat significand) power = some x ∧
        IsRounded p x) := by
  obtain ⟨n, rfl⟩ := Int.eq_ofNat_of_zero_le up
  rw [Int.natAbs_natCast] at few
  obtain ⟨m, e, hx, wide, within, exact⟩ := significand_value positive narrow
  obtain ⟨m', e', hy, within', exact'⟩ := power_value few
  have hv : (0 : ℚ) < significand := by exact_mod_cast positive
  have hw : (0 : ℚ) < 10 ^ n := by positivity
  have product := within.mul within' hv hw (by norm_num)
  refine ⟨m * 2 ^ e * (m' * 2 ^ e'), ⟨?_, fun isExact small => ?_⟩, fun small => ?_⟩
  · rw [zpow_natCast]
    have close := product.mono (mul_pos hv hw) (show _ ≤ (9 / 4 / 2 ^ 53 : ℚ) by norm_num)
    have := halfLeast_pos
    rw [IsWithin] at close
    linarith
  · rw [exact isExact, exact' small, zpow_natCast]
  · have rounded := hx.mul hy wide small
    refine ⟨_, ?_, rounded⟩
    unfold scaleByTen
    rw [Int.natAbs_natCast, if_pos few, if_pos up]
    simp only [not_isInf rounded small]
    rfl

theorem scaleByTen_of_neg (steps : Nat) (x : Float) {n : Nat} (positive : 0 < n)
    (few : n ≤ greatestPower) : scaleByTen steps x (-n) = some (x / powerOfTen n) := by
  unfold scaleByTen
  rw [Int.natAbs_neg, Int.natAbs_natCast, if_pos few, if_neg (by omega)]

theorem scaleByTen_down (positive : 0 < significand) (narrow : significand < significandLimit)
    {n : Nat} (down : 0 < n) (few : n ≤ greatestPower) (steps : Nat) :
    ∃ p, IsReading significand (-n) p ∧
      (p < overflow → ∃ x, scaleByTen steps (Float.ofNat significand) (-n) = some x ∧
        IsRounded p x) := by
  obtain ⟨m, e, hx, -, within, exact⟩ := significand_value positive narrow
  obtain ⟨m', e', hy, within', exact'⟩ := power_value few
  have hv : (0 : ℚ) < significand := by exact_mod_cast positive
  have hw : (0 : ℚ) < 10 ^ n := by positivity
  have value : (significand : ℚ) * 10 ^ (-n : Int) = significand / 10 ^ n := by
    rw [zpow_neg, zpow_natCast, div_eq_mul_inv]
  refine ⟨m * 2 ^ e / (m' * 2 ^ e'), ⟨?_, fun isExact small => ?_⟩, fun small =>
    ⟨_, scaleByTen_of_neg steps _ down few, hx.div hy small⟩⟩
  · have quotient := within.div within' hv hw (by norm_num)
    have close := quotient.mono (div_pos hv hw) (show _ ≤ (9 / 4 / 2 ^ 53 : ℚ) by norm_num)
    have := halfLeast_pos
    rw [IsWithin] at close
    rw [value]
    linarith
  · rw [Int.natAbs_neg, Int.natAbs_natCast] at small
    rw [exact isExact, exact' small, value]

/-- A significand over the greatest power of ten is neither too small nor too large. -/
theorem first_quotient (positive : 0 < significand) (narrow : significand < significandLimit) :
    2 * 2 ^ (-1074 : Int) ≤ (significand : ℚ) / 10 ^ greatestPower ∧
      2 * ((significand : ℚ) / 10 ^ greatestPower) < overflow := by
  have hv : (1 : ℚ) ≤ significand := by exact_mod_cast positive
  have one : (1 : ℚ) ≤ 10 ^ greatestPower := one_le_pow₀ (by norm_num)
  constructor
  · obtain ⟨k, few, ten⟩ : ∃ k, k + 2 ≤ 1075 ∧ 10 ^ greatestPower ≤ 2 ^ k :=
      ⟨1024, by decide, by decide +kernel⟩
    have ten' : (10 : ℚ) ^ greatestPower ≤ 2 ^ k := by exact_mod_cast ten
    have least := halfLeast_mul_le few
    rw [pow_add] at least
    rw [least_eq_two_mul, le_div_iff₀ (by linarith)]
    have := mul_le_mul_of_nonneg_left ten' halfLeast_pos.le
    linarith
  · have less : (significand : ℚ) / 10 ^ greatestPower ≤ significand :=
      div_le_self (by linarith) one
    have limit : ((2 * significand : Nat) : ℚ) < overflow := by
      refine lt_overflow (lt_of_lt_of_le (show _ < 2 * significandLimit by omega) ?_)
      decide +kernel
    push_cast at limit
    linarith

/-- What lies below the least power of ten that is a double is divided in two steps, and the double
in between may have few bits. -/
theorem scaleByTen_twice (positive : 0 < significand) (narrow : significand < significandLimit)
    {n : Nat} (down : 0 < n) (few : n ≤ 22) (steps : Nat) :
    ∃ p, IsReading significand (-(greatestPower + n : Nat)) p ∧
      (p < overflow → ∃ x,
        scaleByTen (steps + 1) (Float.ofNat significand) (-(greatestPower + n : Nat)) = some x ∧
        IsRounded p x) := by
  obtain ⟨m, e, hx, -, within, -⟩ := significand_value positive narrow
  obtain ⟨m', e', hy, within'⟩ := greatestPower_value
  have hv : (1 : ℚ) ≤ significand := by exact_mod_cast positive
  have hw : (0 : ℚ) < 10 ^ greatestPower := by positivity
  -- the first quotient
  have quotient := within.div within' (by linarith) hw (by norm_num)
  have close := quotient.mono (by positivity) (show _ ≤ (6 / 5 / 2 ^ 53 : ℚ) by norm_num)
  obtain ⟨below, above⟩ := first_quotient positive narrow
  generalize first : (significand : ℚ) / 10 ^ greatestPower = v at close
  generalize between : (m * 2 ^ e : ℚ) / (m' * 2 ^ e') = p at close
  obtain ⟨low, high⟩ := close.bounds
  rw [first] at below above
  have hv' : 0 < v := (two_zpow_pos _).trans_le (by linarith [two_zpow_pos (-1074)])
  have small : p < overflow := by linarith
  have large : (2 : ℚ) ^ (-1074 : Int) ≤ p := by linarith
  have rounded := hx.div hy (by rwa [between])
  rw [between] at rounded
  obtain ⟨m₁, e₁, hx₁⟩ := rounded.exists_positive large small
  have error := rounded.error hx₁
  obtain ⟨m₂, e₂, hy₂, -, exact⟩ := power_value (few.trans (by decide))
  refine ⟨m₁ * 2 ^ e₁ / (m₂ * 2 ^ e₂), ⟨?_, fun _ small => ?_⟩, fun small => ?_⟩
  · have value : (significand : ℚ) * 10 ^ (-(greatestPower + n : Nat) : Int) = v / 10 ^ n := by
      rw [zpow_neg, zpow_natCast, pow_add, ← first]
      field_simp
    have ten : (10 : ℚ) ≤ 10 ^ n := by
      calc (10 : ℚ) = 10 ^ 1 := (pow_one 10).symm
        _ ≤ 10 ^ n := pow_le_pow_right₀ (by norm_num) down
    have distance : |(m₁ * 2 ^ e₁ : ℚ) - v| ≤ 9 / 4 / 2 ^ 53 * v + halfLeast := by
      calc |(m₁ * 2 ^ e₁ : ℚ) - v| ≤ |m₁ * 2 ^ e₁ - p| + |p - v| := abs_sub_le _ _ _
        _ ≤ (p / 2 ^ 53 + halfLeast) + 6 / 5 / 2 ^ 53 * v := by
          refine add_le_add (error.trans (max_le ?_ ?_)) close
          · linarith [halfLeast_pos]
          · have : 0 < p / 2 ^ 53 := div_pos (by linarith) (by norm_num)
            linarith
        _ ≤ 9 / 4 / 2 ^ 53 * v + halfLeast := by linarith
    rw [value, exact few, ← sub_div, abs_div, abs_of_pos (by linarith : (0 : ℚ) < 10 ^ n)]
    calc |(m₁ * 2 ^ e₁ : ℚ) - v| / 10 ^ n ≤ (9 / 4 / 2 ^ 53 * v + halfLeast) / 10 ^ n := by gcongr
      _ = 9 / 4 / 2 ^ 53 * (v / 10 ^ n) + halfLeast / 10 ^ n := by ring
      _ ≤ 9 / 4 / 2 ^ 53 * (v / 10 ^ n) + halfLeast / 10 := by
        have := halfLeast_pos.le
        gcongr
  · rw [Int.natAbs_neg, Int.natAbs_natCast, greatestPower] at small
    omega
  · refine ⟨_, ?_, hx₁.div hy₂ small⟩
    unfold scaleByTen
    rw [Int.natAbs_neg, Int.natAbs_natCast, if_neg (by omega), not_isZero hx, if_neg (by simp),
      if_neg (by omega)]
    have power : (-(greatestPower + n : Nat) : Int) + greatestPower = -n := by omega
    simp only [power]
    exact scaleByTen_of_neg steps _ down (few.trans (by decide))

/-- A significand with a power of ten that doubles reach is read by rounding what lies close to the
decimal. -/
theorem scaleByTen_reading (positive : 0 < significand) (narrow : significand < significandLimit)
    (low : -330 ≤ power) (high : power ≤ greatestPower) :
    ∃ p, IsReading significand power p ∧
      (p < overflow → ∃ x, scaleByTen scaleSteps (Float.ofNat significand) power = some x ∧
        IsRounded p x) := by
  rw [greatestPower] at high
  by_cases up : 0 ≤ power
  · exact scaleByTen_up positive narrow up (by rw [greatestPower]; omega) scaleSteps
  by_cases few : power.natAbs ≤ greatestPower
  · obtain ⟨n, rfl⟩ : ∃ n : Nat, power = -n := ⟨power.natAbs, by omega⟩
    rw [Int.natAbs_neg, Int.natAbs_natCast] at few
    exact scaleByTen_down positive narrow (by omega) few scaleSteps
  · rw [greatestPower] at few
    obtain ⟨n, rfl⟩ : ∃ n : Nat, power = -(greatestPower + n : Nat) :=
      ⟨power.natAbs - 308, by rw [greatestPower]; omega⟩
    rw [greatestPower] at few low
    exact scaleByTen_twice positive narrow (by omega) (by omega) 3

end

/-! ## Decimals around a double -/

section
variable {significand m : Nat} {power e : Int} {p : ℚ}

/-- How far a reading may lie from a double around which the decimal lies, in units of its last
place. -/
theorem IsReading.distance (reading : IsReading significand power p) (canonical : IsCanonical m e)
    (around : IsAround (significand * 10 ^ power) m e) : |p / 2 ^ e - m| ≤ 14 / 5 := by
  have unit := two_zpow_pos e
  have close := reading.close
  have nearest := around.nearest
  generalize (significand * 10 ^ power : ℚ) = v at close nearest
  have least : halfLeast ≤ 2 ^ e / 2 := by
    have := two_zpow_le.2 canonical.least
    rw [least_eq_two_mul] at this
    linarith
  have narrow : (m : ℚ) + 1 ≤ 2 ^ 53 := by exact_mod_cast canonical.narrow
  have whole : v / 2 ^ e ≤ 2 ^ 53 := by linarith [nearest.high]
  have part : |p / 2 ^ e - v / 2 ^ e| ≤ 9 / 4 + 1 / 20 := by
    rw [← sub_div, abs_div, abs_of_pos unit, div_le_iff₀ unit]
    rw [div_le_iff₀ unit] at whole
    linarith
  obtain ⟨low, high⟩ := abs_le.1 part
  rw [abs_le]
  constructor <;> linarith [nearest.low, nearest.high]

/-- What is read differs from the double by less than four units of its last place. -/
theorem IsReading.near {s : Float.Model.UnpackedFloat.Sign} {u : Float.Model.UnpackedFloat}
    (reading : IsReading significand power p) (canonical : IsCanonical m e)
    (around : IsAround (significand * 10 ^ power) m e) (rounded : Rounded p s u) :
    |magnitude u - m * 2 ^ e| < 4 * 2 ^ e := by
  have unit := two_zpow_pos e
  have distance := reading.distance canonical around
  have least : halfLeast ≤ 2 ^ e / 2 := by
    have := two_zpow_le.2 canonical.least
    rw [least_eq_two_mul] at this
    linarith
  have narrow : (m : ℚ) + 1 ≤ 2 ^ 53 := by exact_mod_cast canonical.narrow
  have error : |magnitude u - p| ≤ 11 / 10 * 2 ^ e := by
    refine rounded.error.trans (max_le ?_ (by linarith))
    have high : p / 2 ^ e ≤ 2 ^ 53 + 2 := by linarith [(abs_le.1 distance).2]
    rw [div_le_iff₀ unit] at high
    linarith
  have distance' : |p - m * 2 ^ e| ≤ 14 / 5 * 2 ^ e := by
    have split : p - m * 2 ^ e = (p / 2 ^ e - m) * 2 ^ e := by field_simp
    rw [split, abs_mul, abs_of_pos unit]
    gcongr
  calc |magnitude u - m * 2 ^ e| ≤ |magnitude u - p| + |p - m * 2 ^ e| := abs_sub_le _ _ _
    _ < 4 * 2 ^ e := by linarith

/-- Only above the three greatest doubles may a reading be infinite. -/
theorem IsReading.lt_overflow (reading : IsReading significand power p)
    (canonical : IsCanonical m e) (around : IsAround (significand * 10 ^ power) m e)
    (small : e < 971 ∨ e = 971 ∧ m + 3 < 2 ^ 53) : p < overflow := by
  have unit := two_zpow_pos e
  have high := (abs_le.1 (reading.distance canonical around)).2
  have less : p / 2 ^ e ≤ m + 14 / 5 := by linarith
  rw [div_le_iff₀ unit] at less
  refine less.trans_lt ?_
  rw [overflow]
  rcases small with below | ⟨rfl, below⟩
  · have narrow : (m : ℚ) + 1 ≤ 2 ^ 53 := by exact_mod_cast canonical.narrow
    calc ((m : ℚ) + 14 / 5) * 2 ^ e < (2 ^ 53 - 1 / 2) * 2 * 2 ^ e := by
          gcongr
          linarith
      _ = (2 ^ 53 - 1 / 2) * 2 ^ (e + 1) := by
          rw [zpow_add_one₀ (by norm_num)]
          ring
      _ ≤ (2 ^ 53 - 1 / 2) * 2 ^ (971 : Int) := by
          gcongr
          · norm_num
          · omega
  · have narrow : (m : ℚ) + 4 ≤ 2 ^ 53 := by exact_mod_cast below
    gcongr
    linarith

end

end TokenTariff.Json
