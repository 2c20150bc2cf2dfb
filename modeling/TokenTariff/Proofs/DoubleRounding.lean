import TokenTariff.Proofs.DoubleSigns
/-!
# Rounding of doubles

An operation on doubles rounds a rational, of which it knows a mantissa and how that relates to the
rational. The result is the nearest double, and of two that are equally near the one with the even
mantissa.

* `StandsFor`, `IsNearest`: what a mantissa knows, and what it is rounded to;
* `IsLastPlace`: the exponent that a rational is rounded at;
* `rounded_roundWithAccuracy`: what an operation makes of a rational;
* `Rounded.eq_of_around`: the double around which a rational lies;
* `Rounded.error`: how far rounding goes.
-/

namespace TokenTariff.Double
set_option autoImplicit false

open Float.Model Float.Model.UnpackedFloat

/-! ## Mantissas -/

/-- A mantissa stands for a rational of which it is the whole part. -/
def StandsFor (m : Nat) (a : Accuracy) (q : ℚ) : Prop :=
  match a with
  | .exact => q = m
  | .inexact .lt => m < q ∧ q < m + 1 / 2
  | .inexact .eq => q = m + 1 / 2
  | .inexact .gt => m + 1 / 2 < q ∧ q < m + 1

/-- A whole number that lies nearest to a rational, and is even if another one lies as near. -/
structure IsNearest (r : Nat) (q : ℚ) : Prop where
  low : r - 1 / 2 ≤ q
  high : q ≤ r + 1 / 2
  even : q = r - 1 / 2 ∨ q = r + 1 / 2 → r % 2 = 0

section
variable {m : Nat} {a : Accuracy} {q : ℚ}

theorem StandsFor.bounds (h : StandsFor m a q) : m ≤ q ∧ q < m + 1 := by
  rcases a with _ | ⟨_ | _ | _⟩ <;> simp only [StandsFor] at h <;> constructor <;> linarith

theorem StandsFor.isNearest (h : StandsFor m a q) : IsNearest (a.roundToNearestEven m) q := by
  rcases a with _ | ⟨_ | _ | _⟩ <;> simp only [StandsFor, Accuracy.roundToNearestEven] at h ⊢
  · exact ⟨by linarith, by linarith, by rintro (h | h) <;> linarith⟩
  · exact ⟨by linarith, by linarith, by rintro (h | h) <;> linarith⟩
  · rcases Nat.mod_two_eq_zero_or_one m with even | odd
    · rw [even]
      exact ⟨by push_cast; linarith, by push_cast; linarith, fun _ => even⟩
    · rw [odd]
      exact ⟨by push_cast; linarith, by push_cast; linarith, fun _ => by omega⟩
  · exact ⟨by push_cast; linarith, by push_cast; linarith,
      by push_cast; rintro (h | h) <;> linarith⟩

theorem IsNearest.unique {r r' : Nat} (h : IsNearest r q) (h' : IsNearest r' q) : r = r' := by
  by_contra different
  rcases Nat.lt_or_gt_of_ne different with less | greater
  · have step : (r : ℚ) + 1 ≤ r' := by exact_mod_cast less
    have next : (r' : ℚ) = r + 1 := by linarith [h.high, h'.low]
    have even := h.even (.inr (by linarith [h.high, h'.low]))
    have even' := h'.even (.inl (by linarith [h.high, h'.low]))
    have : r' = r + 1 := by exact_mod_cast next
    omega
  · have step : (r' : ℚ) + 1 ≤ r := by exact_mod_cast greater
    have next : (r : ℚ) = r' + 1 := by linarith [h'.high, h.low]
    have even := h.even (.inl (by linarith [h'.high, h.low]))
    have even' := h'.even (.inr (by linarith [h'.high, h.low]))
    have : r = r' + 1 := by exact_mod_cast next
    omega

theorem isNearest_natCast (r : Nat) : IsNearest r r where
  low := by linarith
  high := by linarith
  even := by rintro (h | h) <;> linarith

end

/-- What a mantissa with its two bits stands for. -/
def Extends (em : ExtendedMantissa) (q : ℚ) : Prop :=
  StandsFor em.mantissa em.accuracy q

theorem Extends.isNearest {em : ExtendedMantissa} {q : ℚ} (h : Extends em q) :
    IsNearest em.roundedMantissa q :=
  StandsFor.isNearest h

theorem extends_ofMantissaAndAccuracy {m : Nat} {a : Accuracy} {q : ℚ} (h : StandsFor m a q) :
    Extends (.ofMantissaAndAccuracy m a) q := by
  rcases a with _ | ⟨_ | _ | _⟩ <;> exact h

theorem Extends.shiftRightOne {em : ExtendedMantissa} {q : ℚ} (h : Extends em q) :
    Extends em.shiftRightOne (q / 2) := by
  obtain ⟨m, roundBit, stickyBit⟩ := em
  obtain ⟨k, rfl | rfl⟩ : ∃ k, m = 2 * k ∨ m = 2 * k + 1 := ⟨m / 2, by omega⟩
  all_goals
    cases roundBit <;> cases stickyBit <;>
      simp [Extends, ExtendedMantissa.accuracy, StandsFor, ExtendedMantissa.shiftRightOne,
        Nat.add_mod, Nat.mul_add_div] at h ⊢
  all_goals first | linarith | (constructor <;> linarith)

theorem Extends.shiftRight {em : ExtendedMantissa} {q : ℚ} (h : Extends em q) (n : Nat) :
    Extends (em >>> n) (q / 2 ^ n) := by
  change Extends (n.repeat ExtendedMantissa.shiftRightOne em) _
  induction n with
  | zero => simpa [Nat.repeat] using h
  | succ n ih =>
    rw [Nat.repeat, pow_succ, ← div_div]
    exact ih.shiftRightOne

/-! ## Places -/

/-- The exponent of the last of the 53 bits of a rational, but not below that of the least
double. -/
structure IsLastPlace (v : ℚ) (t : Int) : Prop where
  least : -1074 ≤ t
  narrow : v < 2 ^ 53 * 2 ^ t
  wide : t = -1074 ∨ 2 ^ 52 * 2 ^ t ≤ v

theorem zpow_eq_div {b : ℚ} (nonzero : b ≠ 0) (t : Int) :
    b ^ t = b ^ t.toNat / b ^ (-t).toNat := by
  rw [← zpow_natCast, ← zpow_natCast, ← zpow_sub₀ nonzero, Int.toNat_sub_toNat_neg]

theorem two_zpow_add (n : Nat) (t : Int) : (2 : ℚ) ^ (n + t) = 2 ^ n * 2 ^ t := by
  rw [zpow_add₀ (by norm_num), zpow_natCast]

theorem two_zpow_pos (t : Int) : (0 : ℚ) < 2 ^ t :=
  zpow_pos (by norm_num) t

theorem two_zpow_le {t t' : Int} : (2 : ℚ) ^ t ≤ 2 ^ t' ↔ t ≤ t' :=
  zpow_le_zpow_iff_right₀ (by norm_num)

theorem two_zpow_lt {t t' : Int} : (2 : ℚ) ^ t < 2 ^ t' ↔ t < t' :=
  zpow_lt_zpow_iff_right₀ (by norm_num)

/-- Half of the least double, as far as rounding goes at its place. -/
def halfLeast : ℚ := 2 ^ (-1075 : Int)

theorem halfLeast_pos : 0 < halfLeast :=
  two_zpow_pos _

theorem least_eq_two_mul : (2 : ℚ) ^ (-1074 : Int) = 2 * halfLeast := by
  rw [halfLeast, show (-1074 : Int) = -1075 + 1 from rfl, zpow_add_one₀ (by norm_num), mul_comm]

theorem halfLeast_mul_le {k : Nat} (h : k ≤ 1075) : halfLeast * 2 ^ k ≤ 1 := by
  rw [halfLeast, mul_comm, ← two_zpow_add]
  exact zpow_le_one_of_nonpos₀ (by norm_num) (by omega)

theorem IsLastPlace.le {v : ℚ} {t t' : Int} (h : IsLastPlace v t) (h' : IsLastPlace v t') :
    t ≤ t' := by
  have low := h'.least
  have narrow := h'.narrow
  rcases h.wide with least | wide
  · omega
  · have less : (2 : ℚ) ^ ((52 : Nat) + t) < 2 ^ ((53 : Nat) + t') := by
      rw [two_zpow_add, two_zpow_add]
      exact wide.trans_lt narrow
    have := two_zpow_lt.1 less
    push_cast at this
    omega

theorem IsLastPlace.unique {v : ℚ} {t t' : Int} (h : IsLastPlace v t) (h' : IsLastPlace v t') :
    t = t' :=
  le_antisymm (h.le h') (h'.le h)

/-- The double for a mantissa of 53 bits at a place; one that was rounded up to the next power of
two moves up by a place. -/
def atPlace (s : Sign) (r : Nat) (t : Int) : UnpackedFloat :=
  if zero : r = 0 then .zero s
  else if r = 2 ^ 53 then .finite s (2 ^ 52) (t + 1) (by decide)
  else .finite s r t (Nat.pos_of_ne_zero zero)

/-- What a rational is rounded to. -/
def Rounded (v : ℚ) (s : Sign) (u : UnpackedFloat) : Prop :=
  ∃ r t, IsLastPlace v t ∧ IsNearest r (v / 2 ^ t) ∧ u = atPlace s r t

theorem excessBits_of_lt {r : Nat} {t : Int} (narrow : r < 2 ^ 53) (least : -1074 ≤ t) :
    excessBits r t = 0 := by
  have bits : r.log2 < 53 := by
    rcases r.eq_zero_or_pos with rfl | positive
    · decide
    · exact (Nat.log2_lt positive.ne').2 narrow
  rw [excessBits, targetExponent_binary64, totalExponent]
  omega

theorem excessBits_carry {t : Int} (least : -1074 ≤ t) : excessBits (2 ^ 53) t = 1 :=
  excessBits_wide (show (2 ^ 53 : Nat).log2 = 52 + 1 by decide) (by omega)

/-- A mantissa after it was rounded to what fits. -/
def roundedMantissa (m : Nat) (e : Int) (a : Accuracy) : Nat :=
  (ExtendedMantissa.ofMantissaAndAccuracy m a >>> excessBits m e).roundedMantissa

/-- What is left after rounding fits, or has one bit too many that is zero. -/
theorem roundWithAccuracy_eq_atPlace (s : Sign) {m : Nat} {e : Int} {a : Accuracy}
    (narrow : roundedMantissa m e a ≤ 2 ^ 53) (least : -1074 ≤ e + excessBits m e) :
    roundWithAccuracy .binary64 s m e a =
      atPlace s (roundedMantissa m e a) (e + excessBits m e) := by
  have first : (shiftToTargetExponent .binary64 m e a).1.roundedMantissa =
      roundedMantissa m e a := rfl
  have place : (shiftToTargetExponent .binary64 m e a).2 = e + excessBits m e := rfl
  rw [roundWithAccuracy]
  simp only [first, place]
  obtain ⟨mantissa, exponent⟩ :=
    shiftToTargetExponent_exact (roundedMantissa m e a) (e + excessBits m e)
  rcases narrow.lt_or_eq with narrow | carry
  · rw [excessBits_of_lt narrow least, pow_zero, Nat.div_one] at mantissa
    rw [excessBits_of_lt narrow least, Nat.cast_zero, add_zero] at exponent
    by_cases zero : roundedMantissa m e a = 0
    · rw [atPlace, dif_pos zero, dif_pos (mantissa.trans zero)]
    · rw [atPlace, dif_neg zero, if_neg narrow.ne, dif_neg (mantissa.trans_ne zero),
        UnpackedFloat.finite.injEq]
      exact ⟨rfl, mantissa, exponent⟩
  · have one : excessBits (roundedMantissa m e a) (e + excessBits m e) = 1 := by
      rw [carry, excessBits_carry least]
    have half : roundedMantissa m e a / 2 ^ 1 = 2 ^ 52 := by rw [carry]; rfl
    have nonzero : roundedMantissa m e a ≠ 0 := by rw [carry]; decide
    rw [one] at mantissa exponent
    rw [atPlace, dif_neg nonzero, if_pos carry,
      dif_neg ((mantissa.trans half).trans_ne (by decide)), UnpackedFloat.finite.injEq]
    exact ⟨rfl, mantissa.trans half, exponent⟩

theorem isLastPlace_of_bounds {m : Nat} {e : Int} {v : ℚ} (below : m * 2 ^ e ≤ v)
    (above : v < (m + 1) * 2 ^ e)
    (low : e ≤ Format.binary64.targetExponent (totalExponent m e)) :
    IsLastPlace v (e + excessBits m e) := by
  have start : e + excessBits m e = max (m.log2 + 1 + e - 53) (-1074) := by
    rw [excessBits]
    rw [targetExponent_binary64, totalExponent] at low ⊢
    omega
  generalize e + (excessBits m e : Int) = t at start
  refine ⟨by omega, ?_, ?_⟩
  · have top : (m : ℚ) + 1 ≤ 2 ^ (m.log2 + 1) := by exact_mod_cast Nat.lt_log2_self
    calc v < (m + 1) * 2 ^ e := above
      _ ≤ 2 ^ (m.log2 + 1) * 2 ^ e := by gcongr
      _ = 2 ^ (((m.log2 + 1 : Nat) : Int) + e) := (two_zpow_add _ _).symm
      _ ≤ 2 ^ (((53 : Nat) : Int) + t) := two_zpow_le.2 (by push_cast; omega)
      _ = 2 ^ 53 * 2 ^ t := two_zpow_add _ _
  · by_cases least : t = -1074
    · exact .inl least
    · have nonzero : m ≠ 0 := by
        rintro rfl
        rw [Nat.log2_zero] at start
        rw [targetExponent_binary64, totalExponent, Nat.log2_zero] at low
        omega
      have bottom : (2 : ℚ) ^ m.log2 ≤ m := by exact_mod_cast Nat.log2_self_le nonzero
      refine .inr ?_
      calc (2 : ℚ) ^ 52 * 2 ^ t = 2 ^ (((52 : Nat) : Int) + t) := (two_zpow_add _ _).symm
        _ = 2 ^ ((m.log2 : Int) + e) := by congr 1; push_cast; omega
        _ = 2 ^ m.log2 * 2 ^ e := two_zpow_add _ _
        _ ≤ m * 2 ^ e := by gcongr
        _ ≤ v := below

/-- A mantissa is rounded to the nearest one at the last place of what it stands for, if it does not
start above that place. -/
theorem rounded_roundWithAccuracy (s : Sign) {m : Nat} {e : Int} {a : Accuracy} {v : ℚ}
    (stands : StandsFor m a (v / 2 ^ e))
    (low : e ≤ Format.binary64.targetExponent (totalExponent m e)) :
    Rounded v s (roundWithAccuracy .binary64 s m e a) := by
  obtain ⟨below, above⟩ := stands.bounds
  have last := isLastPlace_of_bounds ((le_div_iff₀ (two_zpow_pos e)).1 below)
    ((div_lt_iff₀ (two_zpow_pos e)).1 above) low
  have near := ((extends_ofMantissaAndAccuracy stands).shiftRight (excessBits m e)).isNearest
  rw [div_div, mul_comm, ← two_zpow_add, Int.add_comm] at near
  refine ⟨_, _, last, near, roundWithAccuracy_eq_atPlace s ?_ last.least⟩
  have narrow := (div_lt_iff₀ (two_zpow_pos _)).2 last.narrow
  change IsNearest (roundedMantissa m e a) _ at near
  have less : (roundedMantissa m e a : ℚ) < (2 ^ 53 : Nat) + 1 := by
    push_cast
    linarith [near.low]
  exact Nat.lt_succ_iff.1 (by exact_mod_cast less)

/-! ## Rounded values -/

/-- The mantissa and exponent of a finite double other than zero. -/
structure IsCanonical (m : Nat) (e : Int) : Prop where
  positive : 0 < m
  narrow : m < 2 ^ 53
  least : -1074 ≤ e
  wide : e = -1074 ∨ 2 ^ 52 ≤ m

/-- The absolute value of a finite double. -/
def magnitude : UnpackedFloat → ℚ
  | .finite _ m e _ => m * 2 ^ e
  | _ => 0

@[simp] theorem magnitude_zero (s : Sign) : magnitude (.zero s) = 0 := rfl

@[simp] theorem magnitude_finite (s : Sign) (m : Nat) (e : Int) (positive : 0 < m) :
    magnitude (.finite s m e positive) = m * 2 ^ e := rfl

/-- A rational lies around a double, no farther from it than half the way to the next one. -/
structure IsAround (v : ℚ) (m : Nat) (e : Int) : Prop where
  nearest : IsNearest m (v / 2 ^ e)
  /-- The next double below a power of two is only half as far. -/
  tight : m = 2 ^ 52 → e ≠ -1074 → 2 ^ 52 - 1 / 4 ≤ v / 2 ^ e

section
variable {v : ℚ} {s : Sign} {u : UnpackedFloat}

theorem magnitude_atPlace (s : Sign) (r : Nat) (t : Int) :
    magnitude (atPlace s r t) = r * 2 ^ t := by
  rw [atPlace]
  split
  · next zero => simp [magnitude, zero]
  · split
    · next carry =>
      rw [carry, magnitude, zpow_add_one₀ (by norm_num)]
      push_cast
      ring
    · rfl

/-- How far rounding goes. -/
theorem Rounded.error (h : Rounded v s u) :
    |magnitude u - v| ≤ max (v / 2 ^ 53) halfLeast := by
  obtain ⟨r, t, last, near, rfl⟩ := h
  have unit := two_zpow_pos t
  have half : |(r : ℚ) * 2 ^ t - v| ≤ 2 ^ t / 2 := by
    have low := near.low
    have high := near.high
    rw [le_div_iff₀ unit] at low
    rw [div_le_iff₀ unit] at high
    rw [abs_le]
    constructor <;> linarith
  rw [magnitude_atPlace]
  refine half.trans ?_
  rcases last.wide with rfl | wide
  · refine le_max_of_le_right (le_of_eq ?_)
    rw [least_eq_two_mul]
    ring
  · refine le_max_of_le_left ?_
    rw [le_div_iff₀ (by norm_num)]
    linarith

theorem isNearest_top {q : ℚ} (low : 2 ^ 53 - 1 / 2 ≤ q) (high : q < 2 ^ 53) :
    IsNearest (2 ^ 53) q where
  low := by push_cast; linarith
  high := by push_cast; linarith
  even _ := by decide

/-- A rational is rounded to the double that it lies around. -/
theorem Rounded.eq_of_around {m : Nat} {e : Int} (h : Rounded v s u) (canonical : IsCanonical m e)
    (around : IsAround v m e) : u = .finite s m e canonical.positive := by
  obtain ⟨r, t, last, near, rfl⟩ := h
  obtain ⟨positive, narrow, least, wide⟩ := canonical
  have unit := two_zpow_pos e
  have high : v / 2 ^ e < 2 ^ 53 := by
    have : (m : ℚ) + 1 ≤ (2 ^ 53 : Nat) := by exact_mod_cast narrow
    have high := around.nearest.high
    push_cast at this
    linarith
  by_cases wide' : e = -1074 ∨ 2 ^ 52 ≤ v / 2 ^ e
  · have place : IsLastPlace v e := ⟨least, (div_lt_iff₀ unit).1 high,
      wide'.imp_right (le_div_iff₀ unit).1⟩
    obtain rfl := last.unique place
    obtain rfl := near.unique around.nearest
    rw [atPlace, dif_neg positive.ne', if_neg narrow.ne]
  · -- below a power of two, where rounding up carries
    rw [not_or, not_le] at wide'
    obtain ⟨above, below⟩ := wide'
    have least' : m = 2 ^ 52 := by
      have : (m : ℚ) < (2 ^ 52 : Nat) + 1 := by
        push_cast
        linarith [around.nearest.low]
      have : m < 2 ^ 52 + 1 := by exact_mod_cast this
      have := wide.resolve_left above
      omega
    have tight := around.tight least' above
    have finer : v / 2 ^ (e - 1) = 2 * (v / 2 ^ e) := by
      rw [zpow_sub_one₀ (by norm_num)]
      field_simp
    have unit' := two_zpow_pos (e - 1)
    have place : IsLastPlace v (e - 1) := by
      refine ⟨by omega, (div_lt_iff₀ unit').1 ?_, .inr ((le_div_iff₀ unit').1 ?_)⟩ <;>
        rw [finer] <;> linarith
    obtain rfl := last.unique place
    have carry : IsNearest (2 ^ 53) (v / 2 ^ (e - 1)) :=
      isNearest_top (by rw [finer]; linarith) (by rw [finer]; linarith)
    obtain rfl := near.unique carry
    rw [atPlace, dif_neg (by decide), if_pos rfl, UnpackedFloat.finite.injEq]
    exact ⟨rfl, least'.symm, by omega⟩

/-- The least rational that is rounded to infinity. -/
def overflow : ℚ := (2 ^ 53 - 1 / 2) * 2 ^ (971 : Int)

/-- What is not too large is rounded to a zero or to a finite double. -/
theorem Rounded.cases (h : Rounded v s u) (small : v < overflow) :
    u = .zero s ∨ ∃ m e positive, u = .finite s m e positive ∧ IsCanonical m e ∧ e ≤ 971 := by
  obtain ⟨r, t, last, near, rfl⟩ := h
  rw [overflow] at small
  have unit := two_zpow_pos t
  have top : t ≤ 971 := by
    rcases last.wide with least | wide
    · omega
    · have less : (2 : ℚ) ^ ((52 : Nat) + t) < 2 ^ ((53 : Nat) + (971 : Int)) := by
        rw [two_zpow_add, two_zpow_add]
        refine wide.trans_lt (small.trans ?_)
        gcongr
        norm_num
      have := two_zpow_lt.1 less
      push_cast at this
      omega
  have low := near.low
  have narrow : r < 2 ^ 53 + 1 := by
    have high := (div_lt_iff₀ unit).2 last.narrow
    have : (r : ℚ) < (2 ^ 53 : Nat) + 1 := by
      push_cast
      linarith
    exact_mod_cast this
  by_cases zero : r = 0
  · exact .inl (by rw [atPlace, dif_pos zero])
  by_cases carry : r = 2 ^ 53
  · refine .inr ⟨2 ^ 52, t + 1, by decide, by rw [atPlace, dif_neg zero, if_pos carry],
      ⟨by decide, by decide, ?_, .inr le_rfl⟩, ?_⟩
    · have := last.least
      omega
    · refine Int.add_one_le_of_lt (lt_of_le_of_ne top ?_)
      intro same
      rw [← same] at small
      rw [carry, le_div_iff₀ unit] at low
      push_cast at low
      exact absurd small (not_lt.2 low)
  · refine .inr ⟨r, t, Nat.pos_of_ne_zero zero, by rw [atPlace, dif_neg zero, if_neg carry],
      ⟨Nat.pos_of_ne_zero zero, by omega, last.least, ?_⟩, top⟩
    refine last.wide.imp_right fun wide => ?_
    have : (2 ^ 52 : Nat) < (r : ℚ) + 1 := by
      have := (le_div_iff₀ unit).2 wide
      push_cast
      linarith [near.high]
    exact Nat.lt_succ_iff.1 (by exact_mod_cast this)

end

end TokenTariff.Double
