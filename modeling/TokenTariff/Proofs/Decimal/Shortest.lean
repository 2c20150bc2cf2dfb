import TokenTariff.Decimal.Shortest
import TokenTariff.Proofs.DoubleBits
/-!
# The shortest decimal lies around its double

The search for the shortest decimal finds one, since no grid is searched that is finer than a
quarter of the last binary place; so it has few digits and a power of ten within the range of the
doubles, and it lies where decimals are rounded to the double (`shortest_spec`).
-/

namespace TokenTariff.Decimal
set_option autoImplicit false

open Double

/-- A rational lies in the interval, in units of its exponent. -/
def Interval.Contains (i : Interval) (q : ℚ) : Prop :=
  i.low ≤ q ∧ q ≤ i.high ∧ (i.closed = false → i.low < q ∧ q < i.high)

section
variable {i : Interval} {power : Int}

theorem Interval.holds_iff {n scale : Nat} (positive : 0 < scale) :
    i.holds n scale = true ↔ i.Contains (n / scale) := by
  have scale' : (0 : ℚ) < scale := by exact_mod_cast positive
  have low : (i.low : ℚ) ≤ n / scale ↔ i.low * scale ≤ n := by
    rw [le_div_iff₀ scale']
    exact_mod_cast Iff.rfl
  have high : (n / scale : ℚ) ≤ i.high ↔ n ≤ i.high * scale := by
    rw [div_le_iff₀ scale']
    exact_mod_cast Iff.rfl
  have low' : (i.low : ℚ) < n / scale ↔ i.low * scale < n := by
    rw [lt_div_iff₀ scale']
    exact_mod_cast Iff.rfl
  have high' : (n / scale : ℚ) < i.high ↔ n < i.high * scale := by
    rw [div_lt_iff₀ scale']
    exact_mod_cast Iff.rfl
  rw [Contains, low, high, low', high', holds]
  cases i.closed <;> simp
  omega

/-- The steps of the grid, as whole numbers with a scale, are the powers of ten. -/
theorem step_div_scale (power exponent : Int) :
    ((Nat.pow 10 power.toNat * Nat.pow 2 (-exponent).toNat : Nat) : ℚ) /
      (Nat.pow 10 (-power).toNat * Nat.pow 2 exponent.toNat : Nat) = 10 ^ power / 2 ^ exponent := by
  rw [zpow_eq_div (by norm_num : (10 : ℚ) ≠ 0), zpow_eq_div (by norm_num : (2 : ℚ) ≠ 0)]
  simp only [Nat.pow_eq]
  push_cast
  field_simp

theorem Interval.contains_of_multiple {digits : Nat} (h : i.multiple? power = some digits) :
    i.Contains (digits * 10 ^ power / 2 ^ i.exponent) := by
  have step := step_div_scale power i.exponent
  rw [multiple?] at h
  simp only at h
  generalize Nat.pow 10 power.toNat * Nat.pow 2 (-i.exponent).toNat = n at h step
  have positive : 0 < Nat.pow 10 (-power).toNat * Nat.pow 2 i.exponent.toNat :=
    Nat.mul_pos (Nat.pow_pos (by decide)) (Nat.pow_pos (by decide))
  generalize Nat.pow 10 (-power).toNat * Nat.pow 2 i.exponent.toNat = scale at h step positive
  have inside : i.holds (digits * n) scale = true := by
    split at h
    · cases h
    · cases h; assumption
    · cases h; assumption
    · split at h
      · cases h; assumption
      · split at h
        · cases h; assumption
        · split at h <;> (cases h; assumption)
  have contains := (holds_iff positive).1 inside
  rwa [Nat.cast_mul, mul_div_assoc, step, ← mul_div_assoc] at contains

/-- A grid that is finer than the way from the value to both ends has a point in the interval. -/
theorem Interval.exists_multiple (below : i.low + 1 ≤ i.value) (above : i.value < i.high)
    (fine : (10 : ℚ) ^ power ≤ 2 ^ i.exponent) : ∃ digits, i.multiple? power = some digits := by
  have step := step_div_scale power i.exponent
  rw [multiple?]
  simp only
  have positive' : 0 < Nat.pow 10 power.toNat * Nat.pow 2 (-i.exponent).toNat :=
    Nat.mul_pos (Nat.pow_pos (by decide)) (Nat.pow_pos (by decide))
  generalize Nat.pow 10 power.toNat * Nat.pow 2 (-i.exponent).toNat = n at step positive'
  have positive : 0 < Nat.pow 10 (-power).toNat * Nat.pow 2 i.exponent.toNat :=
    Nat.mul_pos (Nat.pow_pos (by decide)) (Nat.pow_pos (by decide))
  generalize Nat.pow 10 (-power).toNat * Nat.pow 2 i.exponent.toNat = scale at step positive
  have less : n ≤ scale := by
    have : (n : ℚ) / scale ≤ 1 := by
      rw [step]
      exact (div_le_one (two_zpow_pos _)).2 fine
    rw [div_le_one (by exact_mod_cast positive)] at this
    exact_mod_cast this
  have inside : i.holds (i.value * scale / n * n) scale = true := by
    have floor := Nat.div_add_mod' (i.value * scale) n
    have rest := Nat.mod_lt (i.value * scale) positive'
    have low : (i.low + 1) * scale ≤ i.value * scale := Nat.mul_le_mul_right _ below
    have high : i.value * scale < i.high * scale := Nat.mul_lt_mul_of_pos_right above positive
    rw [Nat.add_mul, Nat.one_mul] at low
    rw [holds]
    split <;> simp only [Bool.and_eq_true, decide_eq_true_eq] <;> omega
  rw [inside]
  cases i.holds ((i.value * scale / n + 1) * n) scale with
  | false => exact ⟨_, rfl⟩
  | true =>
    simp only
    split
    · exact ⟨_, rfl⟩
    · split
      · exact ⟨_, rfl⟩
      · split <;> exact ⟨_, rfl⟩

/-! ## The search -/

/-- The search misses at the power before the one it finds, unless it begins there. -/
theorem Interval.search_spec {found : Digits} : ∀ {steps : Nat} {power : Int},
    i.search steps power = some found →
      i.multiple? found.power = some found.number ∧ found.power ≤ power ∧
        (found.power = power ∨ i.multiple? (found.power + 1) = none)
  | 0, _, h => by cases h
  | steps + 1, power, h => by
    rw [search] at h
    split at h
    · next digits hit =>
      cases h
      exact ⟨hit, le_rfl, .inl rfl⟩
    · next miss =>
      obtain ⟨hit, le, before⟩ := search_spec h
      refine ⟨hit, by omega, .inr ?_⟩
      rcases before with first | before
      · rwa [first, Int.sub_add_cancel]
      · exact before

theorem Interval.exists_search {k : Nat} : ∀ {steps : Nat} {power : Int}, k < steps →
    (∃ digits, i.multiple? (power - k) = some digits) → ∃ found, i.search steps power = some found
  | steps + 1, power, less, h => by
    rw [search]
    split
    · exact ⟨_, rfl⟩
    · next miss =>
      cases k with
      | zero =>
        obtain ⟨digits, hit⟩ := h
        rw [Int.natCast_zero, Int.sub_zero, miss] at hit
        cases hit
      | succ k =>
        refine exists_search (k := k) (by omega) ?_
        rwa [show power - 1 - k = power - (k + 1 : Nat) by omega]

end

/-! ## Doubles -/

section
variable {m : Nat} {e : Int}

theorem low_bounds (positive : 0 < m) :
    4 * m ≤ (Interval.ofBinary (binaryOf m e)).low + 2 ∧
      (Interval.ofBinary (binaryOf m e)).low + 1 ≤ 4 * m := by
  have bounds (tight : Bool) : 4 * m ≤ (4 * m - if tight then 1 else 2) + 2 ∧
      (4 * m - if tight then 1 else 2) + 1 ≤ 4 * m := by
    cases tight <;> simp <;> omega
  exact bounds _

theorem isAround_of_contains {v : ℚ}
    (h : (Interval.ofBinary (binaryOf m e)).Contains (v / 2 ^ (e - 2))) (positive : 0 < m) :
    IsAround v m e := by
  have quarters : v / 2 ^ (e - 2) = 4 * (v / 2 ^ e) := by
    rw [zpow_sub₀ (by norm_num)]
    have := two_zpow_pos e
    field_simp
    norm_num
  rw [quarters] at h
  obtain ⟨low, high, inside⟩ := h
  have top : ((Interval.ofBinary (binaryOf m e)).high : ℚ) = 4 * m + 2 := by
    simp [Interval.ofBinary, binaryOf]
  have bottom : 4 * (m : ℚ) ≤ (Interval.ofBinary (binaryOf m e)).low + 2 := by
    exact_mod_cast (low_bounds positive).1
  refine ⟨⟨by linarith, by linarith, fun ends => ?_⟩, ?_⟩
  · by_contra odd
    have strict := inside (beq_false_of_ne odd)
    rcases ends with ends | ends <;> linarith
  · rintro rfl notLeast
    have tight : (Interval.ofBinary (binaryOf (2 ^ 52) e)).low = 4 * 2 ^ 52 - 1 := by
      simp [Interval.ofBinary, binaryOf, notLeast]
    rw [tight] at low
    norm_num at low ⊢
    linarith

theorem exists_multiple_binaryOf (positive : 0 < m) {power : Int}
    (fine : (10 : ℚ) ^ power ≤ 2 ^ (e - 2)) :
    ∃ digits, (Interval.ofBinary (binaryOf m e)).multiple? power = some digits := by
  have above : 4 * m < 4 * m + 2 := by omega
  exact Interval.exists_multiple (low_bounds positive).2 above fine

theorem ten_zpow_le {power power' : Int} : (10 : ℚ) ^ power ≤ 10 ^ power' ↔ power ≤ power' :=
  zpow_le_zpow_iff_right₀ (by norm_num)

/-- Below the last decimal place of all doubles the grid is fine enough. -/
theorem ten_zpow_le_quarter (least : -1074 ≤ e) (power : Int) (low : power ≤ -324) :
    (10 : ℚ) ^ power ≤ 2 ^ (e - 2) := by
  obtain ⟨j, k, j_eq, k_eq, powers⟩ :
      ∃ j k : Nat, (j : Int) = 1076 ∧ (k : Int) = 324 ∧ 2 ^ j ≤ 10 ^ k :=
    ⟨1076, 324, rfl, rfl, by decide +kernel⟩
  have powers' : (2 : ℚ) ^ j ≤ 10 ^ k := by exact_mod_cast powers
  calc (10 : ℚ) ^ power ≤ 10 ^ (-(k : Int)) := ten_zpow_le.2 (by omega)
    _ ≤ 2 ^ (-(j : Int)) := by
      rw [zpow_neg, zpow_neg, zpow_natCast, zpow_natCast]
      gcongr
    _ ≤ 2 ^ (e - 2) := two_zpow_le.2 (by omega)

theorem lt_of_isAround {v : ℚ} (canonical : IsCanonical m e) (around : IsAround v m e) :
    v < 2 ^ 53 * 2 ^ e := by
  have narrow : (m : ℚ) + 1 ≤ 2 ^ 53 := by exact_mod_cast canonical.narrow
  rw [← div_lt_iff₀ (two_zpow_pos e)]
  linarith [around.nearest.high]

theorem pos_of_isAround {v : ℚ} (canonical : IsCanonical m e) (around : IsAround v m e) :
    0 < v := by
  have positive : (1 : ℚ) ≤ m := by exact_mod_cast canonical.positive
  have unit := two_zpow_pos e
  have := around.nearest.low
  rw [le_div_iff₀ unit] at this
  nlinarith

/-- All doubles lie below the power of ten at which the search begins. -/
theorem lt_ten_zpow_top {v : ℚ} (canonical : IsCanonical m e) (high : e ≤ 971)
    (around : IsAround v m e) {power : Int} (top : topPower ≤ power) : v < 10 ^ power := by
  obtain ⟨j, k, j_eq, k_eq, powers⟩ :
      ∃ j k : Nat, (j : Int) = topPower ∧ (k : Int) = 971 ∧ 2 ^ 53 * 2 ^ k ≤ 10 ^ j :=
    ⟨309, 971, rfl, rfl, by decide +kernel⟩
  have powers' : (2 ^ 53 * 2 ^ k : ℚ) ≤ 10 ^ j := by exact_mod_cast powers
  calc v < 2 ^ 53 * 2 ^ e := lt_of_isAround canonical around
    _ ≤ 2 ^ 53 * 2 ^ (k : Int) := by
      gcongr
      · norm_num
      · omega
    _ = 2 ^ 53 * 2 ^ k := by rw [zpow_natCast]
    _ ≤ 10 ^ j := powers'
    _ = 10 ^ (j : Int) := (zpow_natCast ..).symm
    _ ≤ 10 ^ power := ten_zpow_le.2 (by omega)

/-- The shortest decimal of a double lies around it, and has few digits and a power of ten within
the range of the doubles. -/
theorem shortest_spec (canonical : IsCanonical m e) (high : e ≤ 971) {found : Digits}
    (h : shortest (binaryOf m e) = found) :
    0 < found.number ∧ found.number < 10 * 2 ^ 55 ∧ -324 ≤ found.power ∧ found.power < topPower ∧
      IsAround (found.number * 10 ^ found.power) m e := by
  have positive := canonical.positive
  obtain ⟨digits, hit⟩ := exists_multiple_binaryOf (m := m) positive
    (ten_zpow_le_quarter canonical.least (topPower - 633) (by decide))
  obtain ⟨result, found_eq⟩ := Interval.exists_search (i := .ofBinary (binaryOf m e))
    (show 633 < searchSteps by decide) ⟨digits, hit⟩
  rw [shortest, found_eq, Option.getD_some] at h
  subst h
  obtain ⟨hit, -, before⟩ := Interval.search_spec found_eq
  have around := isAround_of_contains (Interval.contains_of_multiple hit) positive
  have unit : (0 : ℚ) < 10 ^ result.power := zpow_pos (by norm_num) _
  have above : 0 < result.number := by
    have := pos_of_isAround canonical around
    exact_mod_cast pos_of_mul_pos_left this unit.le
  have top : result.power < topPower := by
    by_contra top
    have below := lt_ten_zpow_top canonical high around (not_lt.1 top)
    have one : (1 : ℚ) ≤ result.number := by exact_mod_cast above
    nlinarith
  -- the power above was missed, so it is not fine
  have coarse : (2 : ℚ) ^ (e - 2) < 10 * 10 ^ result.power := by
    rw [← zpow_one_add₀ (by norm_num), Int.add_comm]
    by_contra fine
    obtain ⟨digits, hit⟩ := exists_multiple_binaryOf (m := m) positive (not_lt.1 fine)
    rw [before.resolve_left top.ne] at hit
    cases hit
  refine ⟨above, ?_, ?_, top, around⟩
  · have below := lt_of_isAround canonical around
    have quarters : (2 : ℚ) ^ e = 4 * 2 ^ (e - 2) := by
      rw [zpow_sub₀ (by norm_num)]
      norm_num
      ring
    have : (result.number : ℚ) * 10 ^ result.power < (10 * 2 ^ 55) * 10 ^ result.power := by
      linarith
    exact_mod_cast lt_of_mul_lt_mul_right this unit.le
  · by_contra low
    have fine := ten_zpow_le_quarter canonical.least (result.power + 1) (by omega)
    rw [zpow_add_one₀ (by norm_num)] at fine
    linarith

end

end TokenTariff.Decimal
