import TokenTariff.Tariff.Usage
/-!
# Tokens that go into the cache

The tokens that a request puts into the cache are divided by the time for which they are kept, and
none is lost or counted twice on the way: what is not known to be kept for an hour is kept for five
minutes. The counts of the division may leave the 64-bit range, but only where they are not used
(`val_sub_sub`), so the result is that of the same steps on whole numbers.

* `Usage.unboundedWrites`: the division, calculated without limits;
* `Usage.cacheWrites_conserve`: what the two parts are, and what they add up to.
-/

namespace TokenTariff
set_option autoImplicit false

/-! ## Counts -/

namespace TokenCount
variable {a b c : TokenCount}

theorem val_nonnegative (a : TokenCount) : a.nonnegative.val = max a.val 0 := by
  have least := a.least
  have greatest := a.greatest
  exact clamp_val (by omega) (by omega)

theorem nonnegative_nonneg (a : TokenCount) : 0 ≤ a.nonnegative.val := by
  rw [val_nonnegative]
  omega

/-- Taking away two counts that are not negative passes at most the lower end of the range. -/
theorem val_sub_sub (ha : 0 ≤ a.val) (hb : 0 ≤ b.val) :
    (c - a - b).val = max (-0x8000000000000000) (c.val - a.val - b.val) := by
  have greatest := c.greatest
  have first : (c - a).val = max (-0x8000000000000000) (c.val - a.val) := by
    rw [val_sub]
    simp only [clamp]
    omega
  rw [val_sub, first]
  simp only [clamp]
  omega

theorem val_add_sub_sub (ha : 0 ≤ a.val) (hb : 0 ≤ b.val) (rest : 0 < c.val - a.val - b.val) :
    (a + (c - a - b)).val = c.val - b.val := by
  have greatest := c.greatest
  have difference := val_sub_sub (c := c) ha hb
  rw [val_add, clamp_val (by omega) (by omega)]
  omega

end TokenCount

/-! ## The division -/

namespace Usage
open TokenCount

/-- The tokens that are kept for five minutes and for an hour, calculated on whole numbers of any
size. -/
def unboundedWrites (u : Usage) : Int × Int :=
  match u.known with
  | none => (max u.cacheWrite.val 0, 0)
  | some known =>
    let unknown := u.cacheWrite.val - known.fiveMinutes.val - known.oneHour.val
    let fiveMinutes :=
      if 0 < unknown then known.fiveMinutes.val + unknown else known.fiveMinutes.val
    (max fiveMinutes 0, max known.oneHour.val 0)

variable {usage : Usage} {known : CacheWrites}

theorem cacheWrites_of_unknown (h : usage.known = none) :
    usage.cacheWrites = ⟨usage.cacheWrite.nonnegative, .zero⟩ := by
  rw [cacheWrites, h]

theorem cacheWrites_of_known (h : usage.known = some known) :
    usage.cacheWrites =
      ⟨(if 0 < (usage.cacheWrite - known.fiveMinutes - known.oneHour).val then
          known.fiveMinutes + (usage.cacheWrite - known.fiveMinutes - known.oneHour)
        else known.fiveMinutes).nonnegative, known.oneHour.nonnegative⟩ := by
  rw [cacheWrites, h]

theorem cacheWrites_nonneg (usage : Usage) :
    0 ≤ usage.cacheWrites.fiveMinutes.val ∧ 0 ≤ usage.cacheWrites.oneHour.val := by
  cases h : usage.known with
  | none =>
    rw [cacheWrites_of_unknown h]
    exact ⟨nonnegative_nonneg _, Int.le_refl 0⟩
  | some known =>
    rw [cacheWrites_of_known h]
    exact ⟨nonnegative_nonneg _, nonnegative_nonneg _⟩

/-- Where no known part is negative, the limits of the range do not show in the result. -/
theorem cacheWrites_eq_unboundedWrites (h : usage.known = some known)
    (five : 0 ≤ known.fiveMinutes.val) (hour : 0 ≤ known.oneHour.val) :
    (usage.cacheWrites.fiveMinutes.val, usage.cacheWrites.oneHour.val) = usage.unboundedWrites := by
  have difference := val_sub_sub (c := usage.cacheWrite) five hour
  rw [cacheWrites_of_known h, unboundedWrites, h]
  simp only [val_nonnegative]
  split
  · next rest =>
    have positive : 0 < usage.cacheWrite.val - known.fiveMinutes.val - known.oneHour.val := by omega
    rw [val_add_sub_sub five hour positive, if_pos positive]
    congr 2
    omega
  · next rest => rw [if_neg (by omega)]

theorem unboundedWrites_of_known (h : usage.known = some known)
    (five : 0 ≤ known.fiveMinutes.val) (hour : 0 ≤ known.oneHour.val) :
    usage.unboundedWrites =
      (max known.fiveMinutes.val (usage.cacheWrite.val - known.oneHour.val), known.oneHour.val) := by
  rw [unboundedWrites, h]
  simp only [Prod.mk.injEq]
  constructor
  · split <;> omega
  · omega

/-- Neither part of the tokens that go into the cache is negative. Where nothing is known, all of
them are kept for five minutes. Where two counts that are not negative are known, those for an hour
are exactly the known ones, and those for five minutes are the known ones or all that the hour leaves
of the total, whichever is more; so the parts add up to the total, or to the known counts if these
are more. No limit of the range changes this. -/
theorem cacheWrites_conserve (usage : Usage) :
    (0 ≤ usage.cacheWrites.fiveMinutes.val ∧ 0 ≤ usage.cacheWrites.oneHour.val) ∧
    (usage.known = none →
      usage.cacheWrites.fiveMinutes.val = max usage.cacheWrite.val 0 ∧
      usage.cacheWrites.oneHour.val = 0) ∧
    ∀ known, usage.known = some known → 0 ≤ known.fiveMinutes.val → 0 ≤ known.oneHour.val →
      usage.cacheWrites.oneHour.val = known.oneHour.val ∧
      usage.cacheWrites.fiveMinutes.val =
        max known.fiveMinutes.val (usage.cacheWrite.val - known.oneHour.val) ∧
      usage.cacheWrites.fiveMinutes.val + usage.cacheWrites.oneHour.val =
        max usage.cacheWrite.val (known.fiveMinutes.val + known.oneHour.val) ∧
      (usage.cacheWrites.fiveMinutes.val, usage.cacheWrites.oneHour.val) =
        usage.unboundedWrites := by
  refine ⟨cacheWrites_nonneg usage, fun h => ?_, fun known h five hour => ?_⟩
  · rw [cacheWrites_of_unknown h]
    exact ⟨val_nonnegative _, rfl⟩
  · have unbounded := cacheWrites_eq_unboundedWrites h five hour
    have parts := unbounded.trans (unboundedWrites_of_known h five hour)
    obtain ⟨fiveMinutes, oneHour⟩ := Prod.mk.inj parts
    exact ⟨oneHour, fiveMinutes, by omega, unbounded⟩

/-- Counts at the ends of the range, and a division that leaves a rest. -/
theorem cacheWrites_conserve_extremes :
    let least := { zero with
      cacheWrite := .clamp (-0x8000000000000000)
      known := some ⟨.clamp 0x7FFFFFFFFFFFFFFF, .clamp 0x7FFFFFFFFFFFFFFF⟩ }
    let rest := { zero with cacheWrite := .clamp 1000, known := some ⟨.clamp 200, .clamp 500⟩ }
    least.cacheWrites.fiveMinutes.val + least.cacheWrites.oneHour.val = 0xFFFFFFFFFFFFFFFE ∧
      rest.cacheWrites.fiveMinutes.val = 500 ∧ rest.cacheWrites.oneHour.val = 500 ∧
      { zero with cacheWrite := .clamp 7 }.cacheWrites.fiveMinutes.val = 7 := by
  intro least rest
  obtain ⟨-, -, parts⟩ := cacheWrites_conserve least
  obtain ⟨-, -, sum, -⟩ := parts _ rfl (by decide) (by decide)
  obtain ⟨-, -, parts'⟩ := cacheWrites_conserve rest
  obtain ⟨hour, five, -⟩ := parts' _ rfl (by decide) (by decide)
  obtain ⟨-, unknown, -⟩ := cacheWrites_conserve { zero with cacheWrite := .clamp 7 }
  exact ⟨sum, five, hour, (unknown rfl).1⟩

end Usage

end TokenTariff
