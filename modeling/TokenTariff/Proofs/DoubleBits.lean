import TokenTariff.Decimal.Binary
import TokenTariff.Proofs.DoubleRounding
/-!
# The bits of doubles

What is read from the bits of a double is what was packed into them, as long as the exponent is not
too large, and it tells finite doubles apart. The exact calculation with doubles starts from the
same parts.

* `Rounded.unpack_pack`: a rounded value is packed as it stands;
* `isMadeOf_unpack`: the parts of a double;
* `eq_of_unpack`: finite doubles with the same parts are the same;
* `magnitude_of_finite`: the parts in exact calculation.
-/

namespace TokenTariff.Double
set_option autoImplicit false

open Float.Model Float.Model.UnpackedFloat

/-! ## Packing -/

theorem unpack_pack_canonical {s : Sign} {m : Nat} {e : Int} (canonical : IsCanonical m e)
    (high : e ≤ 971) :
    (Float.Model.pack (.finite s m e canonical.positive)).unpack =
      .finite s m e canonical.positive := by
  obtain ⟨positive, narrow, least, wide⟩ := canonical
  by_cases normal : 2 ^ 52 ≤ m
  · exact unpack_pack_normal ((Nat.log2_eq_iff positive.ne').2 ⟨normal, narrow⟩) least high
  · obtain rfl := wide.resolve_right normal
    have bits : m.log2 + 1 ≠ Format.binary64.mantissaBits := by
      have := (Nat.log2_lt positive.ne').2 (Nat.not_le.1 normal)
      change m.log2 + 1 ≠ 53
      omega
    have packed : UnpackedFloat.pack .binary64 (.finite s m (-1074) positive) =
        packComponents .binary64 s 0#11 (BitVec.ofNat 52 m) := by
      rw [UnpackedFloat.pack]
      exact (if_neg (by decide)).trans (if_neg bits)
    have mantissa : (BitVec.ofNat 52 m).toNat = m := by
      rw [BitVec.toNat_ofNat, Nat.mod_eq_of_lt (Nat.not_le.1 normal)]
    have nonzero : BitVec.ofNat 52 m ≠ 0#52 := by
      rw [ne_eq, ← BitVec.toNat_inj, mantissa]
      exact positive.ne'
    change UnpackedFloat.unpack .binary64
      (UnpackedFloat.pack .binary64 (.finite s m (-1074) positive)) = _
    rw [packed]
    simp only [UnpackedFloat.unpack, unpackExponent_packComponents, unpackMantissa_packComponents,
      unpackSign_packComponents]
    rw [if_neg (by decide), if_pos trivial, dif_neg nonzero, UnpackedFloat.finite.injEq]
    exact ⟨by cases s <;> rfl, mantissa, rfl⟩

theorem unpack_pack_zero (s : Sign) : (Float.Model.pack (.zero s)).unpack = .zero s := by
  cases s <;> rfl

theorem Rounded.unpack_pack {v : ℚ} {s : Sign} {u : UnpackedFloat} (h : Rounded v s u)
    (small : v < overflow) : (Float.Model.pack u).unpack = u := by
  rcases h.cases small with rfl | ⟨m, e, positive, rfl, canonical, high⟩
  · exact unpack_pack_zero s
  · exact unpack_pack_canonical canonical high

/-! ## Bits -/

section
variable (b : BitVec Format.binary64.numBits)

theorem toNat_unpackMantissa : (unpackMantissa b).toNat = b.toNat % 2 ^ 52 := by
  simp [unpackMantissa, Nat.shiftRight_eq_div_pow]

theorem toNat_unpackExponent : (unpackExponent b).toNat = b.toNat / 2 ^ 52 % 2 ^ 11 := by
  simp [unpackExponent, Nat.shiftRight_eq_div_pow]

theorem toNat_unpackSign : (unpackSign b).toNat = b.toNat / 2 ^ 63 := by
  have := b.isLt
  change b.toNat < 2 ^ 64 at this
  simp [unpackSign, Nat.shiftRight_eq_div_pow]
  omega

end

/-- The exponent in the bits of a finite double, which is zero for the least of them. -/
def scaleOf (m : Nat) (e : Int) : Nat :=
  if m < 2 ^ 52 then 0 else (e + 1075).toNat

/-- What the sign, the exponent and the mantissa in the bits of a double say. -/
def IsMadeOf (u : UnpackedFloat) (sign scale fraction : Nat) : Prop :=
  match u with
  | .finite s m e _ => IsCanonical m e ∧ e ≤ 971 ∧ sign = s.toBitVec.toNat ∧
      scale = scaleOf m e ∧ fraction = m % 2 ^ 52
  | .zero s => sign = s.toBitVec.toNat ∧ scale = 0 ∧ fraction = 0
  | .infinity _ => scale = 2047 ∧ fraction = 0
  | .notANumber => scale = 2047 ∧ fraction ≠ 0

theorem toNat_sign (v : BitVec 1) : v.toNat = (Sign.ofBitVec v).toBitVec.toNat := by
  revert v
  decide

theorem isMadeOf_unpack (b : BitVec Format.binary64.numBits) :
    IsMadeOf (UnpackedFloat.unpack .binary64 b) (b.toNat / 2 ^ 63) (b.toNat / 2 ^ 52 % 2 ^ 11)
      (b.toNat % 2 ^ 52) := by
  rw [← toNat_unpackMantissa, ← toNat_unpackExponent, ← toNat_unpackSign, toNat_sign,
    UnpackedFloat.unpack]
  simp only
  have narrow : (unpackMantissa b).toNat < 2 ^ 52 := (unpackMantissa b).isLt
  have narrow' : (unpackExponent b).toNat < 2048 := (unpackExponent b).isLt
  have bias : (Format.binary64.exponentBias : Int) + (52 : Nat) = 1075 := rfl
  split
  · next top =>
    have top' : (unpackExponent b).toNat = 2047 := by rw [top]; rfl
    split
    · next zero => exact ⟨top', by rw [zero]; rfl⟩
    · next nonzero => exact ⟨top', fun zero => nonzero (BitVec.eq_of_toNat_eq zero)⟩
  next finite =>
  have notTop : (unpackExponent b).toNat ≠ 2047 := fun top => finite (BitVec.eq_of_toNat_eq top)
  split
  · next least =>
    have least' : (unpackExponent b).toNat = 0 := by rw [least]; rfl
    split
    · next zero => exact ⟨rfl, least', by rw [zero]; rfl⟩
    · next nonzero =>
      have positive : (unpackMantissa b).toNat ≠ 0 := fun zero =>
        nonzero (BitVec.eq_of_toNat_eq zero)
      simp only [IsMadeOf, bias, scaleOf, least']
      exact ⟨⟨by omega, by omega, by omega, .inl rfl⟩, by omega, trivial, (if_pos narrow).symm,
        by omega⟩
  · next notLeast =>
    have notLeast' : (unpackExponent b).toNat ≠ 0 := fun zero =>
      notLeast (BitVec.eq_of_toNat_eq zero)
    have mantissa : (1#1 ++ unpackMantissa b).toNat = 2 ^ 52 + (unpackMantissa b).toNat := by
      rw [BitVec.toNat_append, ← Nat.shiftLeft_add_eq_or_of_lt narrow, Nat.shiftLeft_eq]
      rfl
    simp only [IsMadeOf, bias, mantissa, scaleOf]
    rw [if_neg (by omega)]
    exact ⟨⟨by omega, by omega, by omega, .inr (by omega)⟩, by omega, trivial, by omega, by omega⟩

theorem eq_of_toBits {x y : Float} (h : x.toBits.toNat = y.toBits.toNat) : x = y := by
  obtain ⟨⟨a, _⟩⟩ := x
  obtain ⟨⟨b, _⟩⟩ := y
  obtain rfl : a = b := UInt64.toNat_inj.1 h
  rfl

section
variable {x y : Float} {s : Sign} {m : Nat} {e : Int} {positive : 0 < m}

/-- The parts of the bits of a double that is known. -/
theorem isMadeOf {u : UnpackedFloat} (h : x.toModel.unpack = u) :
    IsMadeOf u (x.toBits.toNat / 2 ^ 63) (x.toBits.toNat / 2 ^ 52 % 2 ^ 11)
      (x.toBits.toNat % 2 ^ 52) :=
  h ▸ isMadeOf_unpack x.toModel.toBits.toBitVec

theorem isCanonical_unpack (h : x.toModel.unpack = .finite s m e positive) :
    IsCanonical m e ∧ e ≤ 971 := by
  obtain ⟨canonical, high, -⟩ := isMadeOf h
  exact ⟨canonical, high⟩

/-- A finite double is known by its sign, its mantissa and its exponent. -/
theorem eq_of_unpack (h : x.toModel.unpack = .finite s m e positive)
    (h' : y.toModel.unpack = .finite s m e positive) : x = y := by
  obtain ⟨-, -, sign, scale, fraction⟩ := isMadeOf h
  obtain ⟨-, -, sign', scale', fraction'⟩ := isMadeOf h'
  exact eq_of_toBits (by omega)

theorem eq_of_unpack_zero (h : x.toModel.unpack = .zero s) (h' : y.toModel.unpack = .zero s) :
    x = y := by
  obtain ⟨sign, scale, fraction⟩ := isMadeOf h
  obtain ⟨sign', scale', fraction'⟩ := isMadeOf h'
  exact eq_of_toBits (by omega)

/-- What the parts of a finite double look like in exact calculation. -/
def binaryOf (m : Nat) (e : Int) : Decimal.Binary :=
  ⟨m, e, m == 2 ^ 52 && e != -1074⟩

def isNegativeSign : Sign → Bool
  | .negative => true
  | .positive => false

theorem isNegative_eq (h : x.toBits.toNat / 2 ^ 63 = s.toBitVec.toNat) :
    Decimal.isNegative x = isNegativeSign s := by
  rw [Decimal.isNegative]
  cases s with
  | negative =>
    change _ = 1 at h
    exact decide_eq_true (by omega)
  | positive =>
    change _ = 0 at h
    exact decide_eq_false (by omega)

theorem magnitude_of_finite (h : x.toModel.unpack = .finite s m e positive) :
    Decimal.Magnitude.ofFloat x = .finite (binaryOf m e) ∧
      Decimal.isNegative x = isNegativeSign s := by
  obtain ⟨⟨-, narrow, least, wide⟩, high, sign, scale, fraction⟩ := isMadeOf h
  refine ⟨?_, isNegative_eq sign⟩
  have literals : x.toBits.toNat % 0x10000000000000 = m % 2 ^ 52 ∧
      x.toBits.toNat / 0x10000000000000 % 0x800 = scaleOf m e := ⟨fraction, scale⟩
  simp only [Decimal.Magnitude.ofFloat, Decimal.Magnitude.ofBits, literals, binaryOf]
  by_cases small : m < 2 ^ 52
  · obtain rfl := wide.resolve_right (Nat.not_le.2 small)
    rw [scaleOf, if_pos small, if_neg (by decide), if_pos rfl, Nat.mod_eq_of_lt small,
      beq_false_of_ne small.ne]
    rfl
  · have exponent : scaleOf m e = (e + 1075).toNat := if_neg small
    have mantissa : 0x10000000000000 + m % 2 ^ 52 = m := by omega
    have tight : (m % 2 ^ 52 == 0 && (e + 1075).toNat != 1) = (m == 2 ^ 52 && e != -1074) := by
      rw [Bool.eq_iff_iff]
      simp only [Bool.and_eq_true, beq_iff_eq, bne_iff_ne]
      omega
    rw [exponent, if_neg (by omega), if_neg (by omega), mantissa, tight]
    congr
    omega

theorem magnitude_of_zero (h : x.toModel.unpack = .zero s) :
    Decimal.Magnitude.ofFloat x = .finite ⟨0, -1074, false⟩ ∧
      Decimal.isNegative x = isNegativeSign s := by
  obtain ⟨sign, scale, fraction⟩ := isMadeOf h
  refine ⟨?_, isNegative_eq sign⟩
  have literals : x.toBits.toNat % 0x10000000000000 = 0 ∧
      x.toBits.toNat / 0x10000000000000 % 0x800 = 0 := ⟨fraction, scale⟩
  simp only [Decimal.Magnitude.ofFloat, Decimal.Magnitude.ofBits, literals]
  rfl

/-- A double that is not finite has no magnitude. -/
theorem magnitude_of_not_finite (h : x.isFinite = false) :
    Decimal.Magnitude.ofFloat x = .infinite ∨ Decimal.Magnitude.ofFloat x = .notANumber := by
  have top : x.toBits.toNat / 0x10000000000000 % 0x800 = 2047 := by
    change x.toModel.unpack.isFinite = false at h
    cases value : x.toModel.unpack with
    | notANumber => exact (isMadeOf value).1
    | infinity => exact (isMadeOf value).1
    | zero => rw [value] at h; cases h
    | finite => rw [value] at h; cases h
  rw [Decimal.Magnitude.ofFloat, Decimal.Magnitude.ofBits]
  simp only [top, if_true]
  split
  · exact .inl rfl
  · exact .inr rfl

end

end TokenTariff.Double
