import Mathlib
/-!
# Doubles that are numbers

Arithmetic on doubles gives something that is not a number only where zeros and infinities meet.
Multiplying or dividing by a finite double other than zero never does so, and the powers of ten up
to the greatest one that is a double are of this kind.

* `IsNumber`: a double is a number, or infinite;
* `IsScale`: a double is finite and not zero;
* `roundWithAccuracy_exact`: what a mantissa is rounded to;
* `isNormal_roundWithAccuracy`: a mantissa of 53 bits or more is rounded to one of 53;
* `isScale_powerOfTen`: the powers of ten up to `10 ^ 308`;
* `not_le_zero_iff`: a number that is not at most zero is above zero.
-/

namespace TokenTariff.Double
set_option autoImplicit false

open Float.Model Float.Model.UnpackedFloat

/-- Whether a double is a number, which may be infinite. -/
def IsNumber (x : Float) : Prop := x.isNaN = false

def isFiniteNonzero : UnpackedFloat → Bool
  | .finite .. => true
  | _ => false

/-- Whether a double is finite and not zero. -/
def IsScale (x : Float) : Prop := isFiniteNonzero x.toModel.unpack = true

/-! ## Packing -/

theorem isNaN_unpack_packComponents {s : Sign} {e : BitVec 11} {m : BitVec 52} (h : e ≠ -1#11) :
    (UnpackedFloat.unpack .binary64 (packComponents .binary64 s e m)).isNaN = false := by
  simp only [UnpackedFloat.unpack, unpackExponent_packComponents, unpackMantissa_packComponents]
  rw [if_neg h]
  split
  · split <;> rfl
  · rfl

theorem unpackSign_packComponents {spec : Format} {s : Sign} {e : BitVec spec.exponentBits}
    {m : BitVec spec.mantissaBitsWithoutImplicit} :
    unpackSign (packComponents spec s e m) = s.toBitVec := by
  ext i h
  have first : i = 0 := by omega
  subst first
  simp [unpackSign, packComponents, BitVec.getLsbD_append, BitVec.getElem_append]

theorem exponent_ne_allOnes {n : Nat} (h : n + 1 < 2 ^ 11) : BitVec.ofNat 11 n ≠ -1#11 := by
  have allOnes : (-1#11).toNat = 2 ^ 11 - 1 := by decide
  rw [ne_eq, ← BitVec.toNat_inj, BitVec.toNat_ofNat, Nat.mod_eq_of_lt (by omega)]
  omega

/-- Packing makes nothing that was not a number before. -/
theorem isNaN_pack (u : UnpackedFloat) : (Float.Model.pack u).isNaN = u.isNaN := by
  change (UnpackedFloat.unpack .binary64 (UnpackedFloat.pack .binary64 u)).isNaN = u.isNaN
  fun_cases UnpackedFloat.pack Format.binary64 u with
  | case1 => decide
  | case2 s => cases s <;> decide
  | case3 s => cases s <;> decide
  | case4 s m e positive biased large =>
    have infinite : (UnpackedFloat.unpack .binary64 (packedInfinity .binary64 s)).isNaN = false := by
      cases s <;> decide
    exact infinite
  | case5 s m e positive bits biased small normal =>
    exact isNaN_unpack_packComponents (exponent_ne_allOnes (Nat.not_le.1 small))
  | case6 s m e positive bits biased small subnormal =>
    exact isNaN_unpack_packComponents (by decide)

theorem isNumber_ofModel_pack {u : UnpackedFloat} (h : u.isNaN = false) :
    IsNumber (.ofModel (Float.Model.pack u)) :=
  (isNaN_pack u).trans h

theorem toNat_append_mantissa {m : Nat} (normal : m.log2 = 52) :
    (1#1 ++ BitVec.ofNat 52 m).toNat = m := by
  have nonzero : m ≠ 0 := by
    rintro rfl
    rw [Nat.log2_zero] at normal
    omega
  obtain ⟨low, high⟩ := (Nat.log2_eq_iff nonzero).1 normal
  rw [BitVec.toNat_append, BitVec.toNat_ofNat, BitVec.toNat_ofNat,
    ← Nat.shiftLeft_add_eq_or_of_lt (Nat.mod_lt _ (Nat.two_pow_pos 52)), Nat.shiftLeft_eq]
  omega

/-- A mantissa of 53 bits is packed as it stands, unless the exponent is too large. -/
theorem unpack_pack_normal {s : Sign} {m : Nat} {e : Int} {positive : 0 < m}
    (normal : m.log2 = 52) (low : -1074 ≤ e) (high : e ≤ 971) :
    (Float.Model.pack (.finite s m e positive)).unpack = .finite s m e positive := by
  have biased : (e + 1023 + 52).toNat + 1 < 2 ^ 11 := by omega
  have exponent : (BitVec.ofNat 11 (e + 1023 + 52).toNat).toNat = (e + 1023 + 52).toNat := by
    rw [BitVec.toNat_ofNat, Nat.mod_eq_of_lt (by omega)]
  have nonzero : BitVec.ofNat 11 (e + 1023 + 52).toNat ≠ 0#11 := by
    rw [ne_eq, ← BitVec.toNat_inj, exponent, BitVec.toNat_zero]
    omega
  have packed : UnpackedFloat.pack .binary64 (.finite s m e positive) =
      packComponents .binary64 s (BitVec.ofNat 11 (e + 1023 + 52).toNat) (BitVec.ofNat 52 m) := by
    rw [UnpackedFloat.pack]
    exact (if_neg (Nat.not_le.2 biased)).trans (if_pos (by rw [normal]; rfl))
  change UnpackedFloat.unpack .binary64
    (UnpackedFloat.pack .binary64 (.finite s m e positive)) = _
  rw [packed]
  simp only [UnpackedFloat.unpack, unpackExponent_packComponents, unpackMantissa_packComponents,
    unpackSign_packComponents]
  rw [if_neg (exponent_ne_allOnes biased), if_neg nonzero]
  have unbiased : ((BitVec.ofNat 11 (e + 1023 + 52).toNat).toNat : Int) - (1023 + 52) = e := by
    rw [exponent]
    omega
  have sign : Sign.ofBitVec s.toBitVec = s := by cases s <;> rfl
  simp only [UnpackedFloat.finite.injEq]
  exact ⟨sign, toNat_append_mantissa normal, unbiased⟩

/-! ## Rounding -/

theorem mantissa_shiftRight (m : ExtendedMantissa) (n : Nat) :
    (m >>> n).mantissa = m.mantissa / 2 ^ n := by
  change (n.repeat ExtendedMantissa.shiftRightOne m).mantissa = _
  induction n with
  | zero => exact (Nat.div_one _).symm
  | succ n ih =>
    rw [Nat.repeat, ExtendedMantissa.shiftRightOne, ih, Nat.div_div_eq_div_mul, Nat.pow_succ]

theorem roundedMantissa_bounds (m : ExtendedMantissa) :
    m.mantissa ≤ m.roundedMantissa ∧ m.roundedMantissa ≤ m.mantissa + 1 := by
  obtain ⟨mantissa, roundBit, stickyBit⟩ := m
  cases roundBit <;> cases stickyBit <;>
    simp [ExtendedMantissa.roundedMantissa, ExtendedMantissa.accuracy, Accuracy.roundToNearestEven]
  omega

theorem log2_div_two_pow {m k n : Nat} (h : m.log2 = n + k) (positive : m ≠ 0) :
    2 ^ n ≤ m / 2 ^ k ∧ m / 2 ^ k < 2 ^ (n + 1) := by
  obtain ⟨low, high⟩ := (Nat.log2_eq_iff positive).1 h
  constructor
  · rw [Nat.le_div_iff_mul_le (Nat.two_pow_pos k), ← Nat.pow_add]
    exact low
  · rw [Nat.div_lt_iff_lt_mul (Nat.two_pow_pos k), ← Nat.pow_add]
    exact high.trans_eq (congrArg _ (by omega))

theorem targetExponent_binary64 (t : Int) :
    Format.binary64.targetExponent t = max (t - 53) (-1074) := rfl

/-- How many bits of a mantissa do not fit into a double. -/
def excessBits (m : Nat) (e : Int) : Nat :=
  (Format.binary64.targetExponent (totalExponent m e) - e).toNat

theorem excessBits_wide {m k : Nat} {e : Int} (wide : m.log2 = 52 + k) (low : -1074 ≤ e + k) :
    excessBits m e = k := by
  rw [excessBits, targetExponent_binary64, totalExponent]
  omega

theorem shiftToTargetExponent_exact (m : Nat) (e : Int) :
    (shiftToTargetExponent .binary64 m e .exact).1.mantissa = m / 2 ^ excessBits m e ∧
      (shiftToTargetExponent .binary64 m e .exact).2 = e + excessBits m e :=
  ⟨mantissa_shiftRight _ _, rfl⟩

/-- A mantissa is rounded without its excess bits. Rounding up may give one bit more, so the same is
done with what comes out. -/
theorem roundWithAccuracy_exact (s : Sign) (m : Nat) (e : Int) :
    ∃ r, m / 2 ^ excessBits m e ≤ r ∧ r ≤ m / 2 ^ excessBits m e + 1 ∧
      (0 < r / 2 ^ excessBits r (e + excessBits m e) →
        ∃ positive, roundWithAccuracy .binary64 s m e .exact =
          .finite s (r / 2 ^ excessBits r (e + excessBits m e))
            (e + excessBits m e + excessBits r (e + excessBits m e)) positive) := by
  obtain ⟨mantissa, exponent⟩ := shiftToTargetExponent_exact m e
  obtain ⟨below, above⟩ := roundedMantissa_bounds (shiftToTargetExponent .binary64 m e .exact).1
  rw [mantissa] at below above
  rw [roundWithAccuracy]
  simp only
  generalize shiftToTargetExponent .binary64 m e .exact = first at *
  obtain ⟨first, e'⟩ := first
  simp only at *
  subst exponent
  obtain ⟨mantissa', exponent'⟩ :=
    shiftToTargetExponent_exact first.roundedMantissa (e + excessBits m e)
  refine ⟨first.roundedMantissa, below, above, fun positive => ⟨positive, ?_⟩⟩
  rw [← mantissa'] at positive
  rw [dif_neg positive.ne', UnpackedFloat.finite.injEq]
  exact ⟨rfl, mantissa', exponent'⟩

/-- A mantissa of 53 bits, with an exponent between two bounds. -/
def IsNormal (s : Sign) (low high : Int) (u : UnpackedFloat) : Prop :=
  ∃ m e positive, u = .finite s m e positive ∧ m.log2 = 52 ∧ low ≤ e ∧ e ≤ high

theorem IsNormal.unpack_pack {s : Sign} {low high : Int} {u : UnpackedFloat}
    (normal : IsNormal s low high u) (least : -1074 ≤ low) (greatest : high ≤ 971) :
    (Float.Model.pack u).unpack = u := by
  obtain ⟨m, e, positive, rfl, bits, from_low, to_high⟩ := normal
  exact unpack_pack_normal bits (least.trans from_low) (to_high.trans greatest)

theorem IsNormal.mono {s : Sign} {low high low' high' : Int} {u : UnpackedFloat}
    (normal : IsNormal s low high u) (down : low' ≤ low) (up : high ≤ high') :
    IsNormal s low' high' u := by
  obtain ⟨m, e, positive, value, bits, from_low, to_high⟩ := normal
  exact ⟨m, e, positive, value, bits, down.trans from_low, to_high.trans up⟩

/-- A mantissa of 53 bits or more is rounded to one of 53 bits. -/
theorem isNormal_roundWithAccuracy {s : Sign} {m k : Nat} {e : Int} (wide : m.log2 = 52 + k)
    (low : -1074 ≤ e + k) :
    IsNormal s (e + k) (e + k + 1) (roundWithAccuracy .binary64 s m e .exact) := by
  have nonzero : m ≠ 0 := by
    rintro rfl
    rw [Nat.log2_zero] at wide
    omega
  obtain ⟨least, greatest⟩ := log2_div_two_pow wide nonzero
  obtain ⟨r, below, above, finite⟩ := roundWithAccuracy_exact s m e
  rw [excessBits_wide wide low] at below above finite
  obtain ⟨j, one, wide'⟩ : ∃ j, j ≤ 1 ∧ r.log2 = 52 + j := by
    by_cases carry : r < 2 ^ 53
    · exact ⟨0, by omega, (Nat.log2_eq_iff (by omega)).2 ⟨by omega, carry⟩⟩
    · exact ⟨1, le_refl 1, (Nat.log2_eq_iff (by omega)).2 ⟨by omega, by omega⟩⟩
  obtain ⟨least', greatest'⟩ := log2_div_two_pow wide' (by omega)
  rw [excessBits_wide wide' (by omega)] at finite
  obtain ⟨positive, rounded⟩ := finite (by omega)
  exact ⟨_, _, positive, rounded, (Nat.log2_eq_iff positive.ne').2 ⟨least', greatest'⟩, by omega,
    by omega⟩

theorem isScale_roundWithAccuracy {s : Sign} {m k : Nat} {e : Int} (wide : m.log2 = 52 + k)
    (low : -1074 ≤ e + k) (high : e + k ≤ 970) :
    IsScale (.ofModel (Float.Model.pack (roundWithAccuracy .binary64 s m e .exact))) := by
  have normal := isNormal_roundWithAccuracy (s := s) wide low
  have unpacked := normal.unpack_pack low (by omega)
  obtain ⟨m', e', positive', rounded, -⟩ := normal
  change isFiniteNonzero (Float.Model.pack _).unpack = true
  rw [unpacked, rounded]
  rfl

/-! ## Arithmetic -/

theorem isNaN_roundWithAccuracy (s : Sign) (m : Nat) (e : Int) (a : Accuracy) :
    (roundWithAccuracy .binary64 s m e a).isNaN = false := by
  rw [roundWithAccuracy]
  simp only
  split <;> rfl

theorem isNaN_mul {u v : UnpackedFloat} (h : u.isNaN = false) (scale : isFiniteNonzero v = true) :
    (UnpackedFloat.mul .binary64 u v).isNaN = false := by
  cases v with
  | finite s m e positive =>
    cases u with
    | notANumber => cases h
    | finite s' m' e' positive' => exact isNaN_roundWithAccuracy _ _ _ _
    | _ => rfl
  | _ => cases scale

theorem isNaN_div {u v : UnpackedFloat} (h : u.isNaN = false) (scale : isFiniteNonzero v = true) :
    (UnpackedFloat.div .binary64 u v).isNaN = false := by
  cases v with
  | finite s m e positive =>
    cases u with
    | notANumber => cases h
    | finite s' m' e' positive' => exact isNaN_roundWithAccuracy _ _ _ _
    | _ => rfl
  | _ => cases scale

theorem isNaN_neg {u : UnpackedFloat} (h : u.isNaN = false) : u.neg.isNaN = false := by
  cases u with
  | notANumber => cases h
  | _ => rfl

section
variable {x y : Float}

theorem IsNumber.mul (h : IsNumber x) (scale : IsScale y) : IsNumber (x * y) :=
  isNumber_ofModel_pack (isNaN_mul h scale)

theorem IsNumber.div (h : IsNumber x) (scale : IsScale y) : IsNumber (x / y) :=
  isNumber_ofModel_pack (isNaN_div h scale)

theorem IsNumber.neg (h : IsNumber x) : IsNumber (-x) :=
  isNumber_ofModel_pack (isNaN_neg h)

theorem not_le_zero_iff_unpacked {u : UnpackedFloat} (h : u.isNaN = false) :
    ¬ u.le (.zero .positive) = true ↔ (zero .positive).lt u = true := by
  cases u with
  | notANumber => cases h
  | zero s => cases s <;> decide
  | infinity s => cases s <;> decide
  | finite s m e positive =>
    cases s <;> simp [UnpackedFloat.le, UnpackedFloat.lt, UnpackedFloat.compare]

theorem unpack_zero : (0 : Float).toModel.unpack = .zero .positive := rfl

/-- A number is above zero if it is not at most zero. -/
theorem not_le_zero_iff (h : IsNumber x) : ¬ x ≤ 0 ↔ 0 < x := by
  have le : x ≤ 0 ↔ x.toModel.unpack.le (0 : Float).toModel.unpack = true := decide_eq_true_iff
  have lt : 0 < x ↔ (0 : Float).toModel.unpack.lt x.toModel.unpack = true := decide_eq_true_iff
  rw [le, lt, unpack_zero]
  exact not_le_zero_iff_unpacked h

end

/-! ## Decimals -/

theorem isNaN_normalize (m e : Int) (s : Sign) :
    (UnpackedFloat.normalize .binary64 m e s).isNaN = false := by
  rw [UnpackedFloat.normalize]
  split
  · exact isNaN_roundWithAccuracy _ _ _ _
  · rfl
  · exact isNaN_roundWithAccuracy _ _ _ _

theorem isNaN_ofScientific (m : Nat) (e : Int) :
    (UnpackedFloat.ofScientific .binary64 m e).isNaN = false := by
  rw [UnpackedFloat.ofScientific]
  split
  · rfl
  split
  · rfl
  split
  · rfl
  split
  · exact isNaN_roundWithAccuracy _ _ _ _
  · exact isNaN_roundWithAccuracy _ _ _ _

theorem isScale_exactPower : ∀ n : Fin 23, IsScale Float.exactlyRepresentablePowersOfTen[n] := by
  unfold IsScale
  decide

/-- A whole number with a power of ten is not refused. -/
theorem isNumber_ofScientific (m n : Nat) : IsNumber (Float.ofScientific m false n) := by
  unfold Float.ofScientific
  split
  · next small =>
    have number : IsNumber m.toUInt64.toFloat := isNumber_ofModel_pack (isNaN_normalize _ _ _)
    exact number.mul (isScale_exactPower ⟨n, by omega⟩)
  · exact isNumber_ofModel_pack (isNaN_ofScientific _ _)

theorem isNumber_ofNat (n : Nat) : IsNumber (Float.ofNat n) :=
  isNumber_ofScientific n 0

theorem isNumber_ofInt : ∀ n : Int, IsNumber (Float.ofInt n)
  | .ofNat n => isNumber_ofNat n
  | .negSucc n => (isNumber_ofNat (n + 1)).neg

theorem isScale_smallPower : ∀ n : Fin 23, IsScale (Float.ofScientific 1 false n) := by
  unfold IsScale
  decide

theorem isScale_greatestPower : IsScale (Float.ofScientific 1 false 308) := by
  unfold IsScale
  decide +kernel

theorem log2_two_pow_mul {m : Nat} (nonzero : m ≠ 0) :
    ∀ k, (2 ^ k * m).log2 = k + m.log2
  | 0 => by rw [Nat.pow_zero, Nat.one_mul, Nat.zero_add]
  | k + 1 => by
    have nonzero' : 2 ^ k * m ≠ 0 := Nat.mul_ne_zero (Nat.two_pow_pos k).ne' nonzero
    rw [Nat.pow_succ', Nat.mul_assoc, Nat.log2_two_mul nonzero', log2_two_pow_mul nonzero k]
    omega

theorem ofScientific_of_nonneg {m n : Nat} (nonzero : m ≠ 0) (h : n ≤ 2 ^ 11) :
    UnpackedFloat.ofScientific .binary64 m n =
      roundWithAccuracy .binary64 .positive (2 ^ 53 * (m * 10 ^ n)) (-53) .exact := by
  have mantissa : m <<< 53 * 10 ^ n = 2 ^ 53 * (m * 10 ^ n) := by
    rw [Nat.shiftLeft_eq, Nat.mul_comm m, Nat.mul_assoc]
  rw [UnpackedFloat.ofScientific, dif_neg nonzero, if_neg (by norm_num; omega),
    if_neg (by norm_num; omega), if_pos (by omega), ← mantissa]
  rfl

/-- The powers of ten up to the greatest one that is a double are finite. -/
theorem isScale_powerOfTen {n : Nat} (h : n ≤ 308) : IsScale (Float.ofScientific 1 false n) := by
  by_cases small : n ≤ 22
  · exact isScale_smallPower ⟨n, by omega⟩
  rcases h.lt_or_eq with h | rfl
  · unfold Float.ofScientific
    rw [dif_neg (by omega)]
    change IsScale (.ofModel (.pack (UnpackedFloat.ofScientific .binary64 1 n)))
    rw [ofScientific_of_nonneg one_ne_zero (by omega), Nat.one_mul]
    have nonzero : 10 ^ n ≠ 0 := (Nat.pow_pos (by norm_num)).ne'
    have few : (10 ^ n).log2 < 1023 := by
      rw [Nat.log2_lt nonzero]
      calc 10 ^ n ≤ 10 ^ 307 := Nat.pow_le_pow_right (by norm_num) (by omega)
        _ < 2 ^ 1023 := by decide +kernel
    have wide : (2 ^ 53 * 10 ^ n).log2 = 52 + ((10 ^ n).log2 + 1) := by
      rw [log2_two_pow_mul nonzero]
      omega
    exact isScale_roundWithAccuracy wide (by omega) (by omega)
  · exact isScale_greatestPower

end TokenTariff.Double
