import TokenTariff.Proofs.Doubles
/-!
# Signs of doubles

Sums of doubles that are not negative are not negative, and such a sum is above zero as soon as one
of its parts is: rounding takes nothing to zero that lies as high as the least double. A product of
finite doubles that are not negative may be rounded to zero, but not below.

* `add_pos_of_pos_of_nonneg`, `parts_eq_zero`: a part above zero is not lost in a sum;
* `mul_nonneg`, `mul_eq_zero`: products of finite doubles;
* `isFinite_ofInt`: whole numbers of 64 bits are finite doubles.
-/

namespace TokenTariff.Double
set_option autoImplicit false

open Float.Model Float.Model.UnpackedFloat

/-! ## Signs -/

def isZero : UnpackedFloat → Bool
  | .zero _ => true
  | _ => false

def isAboveZero : UnpackedFloat → Bool
  | .infinity .positive => true
  | .finite .positive .. => true
  | _ => false

def isAtLeastZero (u : UnpackedFloat) : Bool :=
  isZero u || isAboveZero u

section
variable {x y : Float}

theorem zero_lt_unpacked (u : UnpackedFloat) : (zero .positive).lt u = isAboveZero u := by
  cases u with
  | finite s => cases s <;> rfl
  | infinity s => cases s <;> rfl
  | zero s => cases s <;> rfl
  | notANumber => rfl

theorem zero_le_unpacked (u : UnpackedFloat) : (zero .positive).le u = isAtLeastZero u := by
  cases u with
  | finite s => cases s <;> rfl
  | infinity s => cases s <;> rfl
  | zero s => cases s <;> rfl
  | notANumber => rfl

theorem beq_zero_unpacked (u : UnpackedFloat) : u.beq (zero .positive) = isZero u := by
  cases u with
  | finite s => cases s <;> rfl
  | infinity s => cases s <;> rfl
  | zero s => cases s <;> rfl
  | notANumber => rfl

theorem zero_lt_iff : 0 < x ↔ isAboveZero x.toModel.unpack = true := by
  have lt : 0 < x ↔ (0 : Float).toModel.unpack.lt x.toModel.unpack = true := decide_eq_true_iff
  rw [lt, unpack_zero, zero_lt_unpacked]

theorem zero_le_iff : 0 ≤ x ↔ isAtLeastZero x.toModel.unpack = true := by
  have le : 0 ≤ x ↔ (0 : Float).toModel.unpack.le x.toModel.unpack = true := decide_eq_true_iff
  rw [le, unpack_zero, zero_le_unpacked]

theorem beq_zero_iff : (x == 0) = true ↔ isZero x.toModel.unpack = true := by
  have beq : (x == 0) = x.toModel.unpack.beq (0 : Float).toModel.unpack := rfl
  rw [beq, unpack_zero, beq_zero_unpacked]

theorem eq_zero_of_nonneg_of_not_pos (h : 0 ≤ x) (not : ¬ 0 < x) : (x == 0) = true := by
  rw [zero_le_iff, isAtLeastZero, Bool.or_eq_true] at h
  rw [zero_lt_iff] at not
  exact beq_zero_iff.2 (h.resolve_right not)

theorem not_pos_of_eq_zero (h : (x == 0) = true) : ¬ 0 < x := by
  rw [beq_zero_iff] at h
  rw [zero_lt_iff]
  cases value : x.toModel.unpack with
  | zero => exact Bool.false_ne_true
  | _ => rw [value] at h; cases h

theorem nonneg_of_eq_zero (h : (x == 0) = true) : 0 ≤ x := by
  rw [zero_le_iff, isAtLeastZero, beq_zero_iff.1 h, Bool.true_or]

theorem nonneg_of_pos (h : 0 < x) : 0 ≤ x := by
  rw [zero_le_iff, isAtLeastZero, zero_lt_iff.1 h, Bool.or_true]

end

/-! ## Packing -/

theorem isAtLeastZero_packComponents {e : BitVec 11} {m : BitVec 52} (h : e ≠ -1#11) :
    isAtLeastZero (UnpackedFloat.unpack .binary64 (packComponents .binary64 .positive e m)) =
      true := by
  simp only [UnpackedFloat.unpack, unpackExponent_packComponents, unpackMantissa_packComponents,
    unpackSign_packComponents]
  rw [if_neg h]
  split
  · split <;> rfl
  · rfl

theorem isAboveZero_packComponents {e : BitVec 11} {m : BitVec 52} (h : e ≠ -1#11)
    (nonzero : e ≠ 0#11 ∨ m ≠ 0#52) :
    isAboveZero (UnpackedFloat.unpack .binary64 (packComponents .binary64 .positive e m)) =
      true := by
  simp only [UnpackedFloat.unpack, unpackExponent_packComponents, unpackMantissa_packComponents,
    unpackSign_packComponents]
  rw [if_neg h]
  split
  · next least =>
    rw [dif_neg (nonzero.resolve_left (not_not_intro least))]
    rfl
  · rfl

/-- Packing takes nothing below zero that was not below it before. -/
theorem isAtLeastZero_pack {u : UnpackedFloat} (h : isAtLeastZero u = true) :
    isAtLeastZero (Float.Model.pack u).unpack = true := by
  change isAtLeastZero (UnpackedFloat.unpack .binary64 (UnpackedFloat.pack .binary64 u)) = true
  fun_cases UnpackedFloat.pack Format.binary64 u with
  | case1 => cases h
  | case2 s =>
    cases s with
    | positive => decide
    | negative => cases h
  | case3 s => cases s <;> decide
  | case4 s m e positive biased large =>
    cases s with
    | positive => decide
    | negative => cases h
  | case5 s m e positive bits biased small normal =>
    cases s with
    | positive => exact isAtLeastZero_packComponents (exponent_ne_allOnes (Nat.not_le.1 small))
    | negative => cases h
  | case6 s m e positive bits biased small subnormal =>
    cases s with
    | positive => exact isAtLeastZero_packComponents (by decide)
    | negative => cases h

/-- A mantissa of at most 53 bits that lies as high as the least double is not lost. -/
theorem isAboveZero_pack {m : Nat} {e : Int} {positive : 0 < m} (narrow : m < 2 ^ 53)
    (low : -1074 ≤ e) :
    isAboveZero (Float.Model.pack (.finite .positive m e positive)).unpack = true := by
  change isAboveZero (UnpackedFloat.unpack .binary64
    (UnpackedFloat.pack .binary64 (.finite .positive m e positive))) = true
  rw [UnpackedFloat.pack]
  split
  · decide
  next small =>
  have biased : (e + 1023 + 52).toNat + 1 < 2 ^ 11 := Nat.not_le.1 small
  split
  · refine isAboveZero_packComponents (exponent_ne_allOnes biased) (.inl ?_)
    rw [ne_eq, ← BitVec.toNat_inj, BitVec.toNat_ofNat]
    change (e + 1023 + 52).toNat % 2 ^ 11 ≠ 0
    rw [Nat.mod_eq_of_lt (by omega)]
    omega
  · next subnormal =>
    refine isAboveZero_packComponents (by decide) (.inr ?_)
    have short : m.log2 < 52 := by
      have := (Nat.log2_lt positive.ne').2 narrow
      have : m.log2 + 1 ≠ 53 := subnormal
      omega
    have small : m < 2 ^ 52 := (Nat.log2_lt positive.ne').1 short
    rw [ne_eq, ← BitVec.toNat_inj, BitVec.toNat_ofNat]
    change m % 2 ^ 52 ≠ 0
    rw [Nat.mod_eq_of_lt small]
    exact positive.ne'

/-! ## Rounding -/

/-- A mantissa that lies as high as the least double has at most 53 bits without its excess bits, and
is not zero then. -/
theorem excessBits_bounds {m : Nat} {e : Int} (positive : 0 < m) (low : -1074 ≤ e) :
    0 < m / 2 ^ excessBits m e ∧ m / 2 ^ excessBits m e < 2 ^ 53 := by
  by_cases wide : 52 ≤ m.log2
  · have bits : m.log2 = 52 + (m.log2 - 52) := by omega
    obtain ⟨least, greatest⟩ := log2_div_two_pow bits positive.ne'
    rw [excessBits_wide bits (by omega)]
    exact ⟨(Nat.two_pow_pos 52).trans_le least, greatest⟩
  · have none : excessBits m e = 0 := by
      rw [excessBits, targetExponent_binary64, totalExponent]
      omega
    rw [none, Nat.pow_zero, Nat.div_one]
    exact ⟨positive, (Nat.log2_lt positive.ne').1 (by omega)⟩

theorem roundWithAccuracy_bounds {s : Sign} {m : Nat} {e : Int} (positive : 0 < m)
    (low : -1074 ≤ e) :
    ∃ m' e' positive', roundWithAccuracy .binary64 s m e .exact = .finite s m' e' positive' ∧
      m' < 2 ^ 53 ∧ -1074 ≤ e' := by
  obtain ⟨r, below, -, finite⟩ := roundWithAccuracy_exact s m e
  obtain ⟨above, -⟩ := excessBits_bounds positive low
  have low' : -1074 ≤ e + excessBits m e := by omega
  obtain ⟨above', narrow⟩ := excessBits_bounds (above.trans_le below) low'
  obtain ⟨positive', rounded⟩ := finite above'
  exact ⟨_, _, positive', rounded, narrow, by omega⟩

theorem isAboveZero_round {m : Nat} {e : Int} (positive : 0 < m) (low : -1074 ≤ e) :
    isAboveZero (Float.Model.pack (UnpackedFloat.round .binary64 .positive m e)).unpack = true := by
  rw [UnpackedFloat.round, decreaseExponent]
  simp only [targetExponent_binary64]
  have positive' : 0 < m <<< (e - max (totalExponent m e - 53) (-1074)).toNat := by
    rw [Nat.shiftLeft_eq]
    exact Nat.mul_pos positive (Nat.two_pow_pos _)
  obtain ⟨m', e', _, rounded, narrow, low'⟩ := roundWithAccuracy_bounds (s := .positive) positive'
    (e := e - ((e - max (totalExponent m e - 53) (-1074)).toNat : Int)) (by omega)
  rw [rounded]
  exact isAboveZero_pack narrow low'

/-! ## Sums -/

/-- A finite double has at most 53 bits and lies as high as the least double. -/
def IsDouble (u : UnpackedFloat) : Prop :=
  ∀ s m e positive, u = .finite s m e positive → m < 2 ^ 53 ∧ -1074 ≤ e

theorem isDouble_unpack (b : BitVec Format.binary64.numBits) :
    IsDouble (UnpackedFloat.unpack .binary64 b) := by
  intro s m e positive h
  rw [UnpackedFloat.unpack] at h
  simp only at h
  split at h
  · split at h <;> cases h
  split at h
  · split at h
    · cases h
    · cases h
      have narrow := (unpackMantissa b).isLt
      change (unpackMantissa b).toNat < 2 ^ 52 at narrow
      change _ ∧ -1074 ≤ ((unpackExponent b).toNat : Int) - (1023 + 52) + 1
      omega
  · next nonzero =>
    cases h
    have narrow := (1#1 ++ unpackMantissa b).isLt
    change (1#1 ++ unpackMantissa b).toNat < 2 ^ 53 at narrow
    have exponent : (unpackExponent b).toNat ≠ 0 := fun zero => nonzero (BitVec.eq_of_toNat_eq zero)
    change _ ∧ -1074 ≤ ((unpackExponent b).toNat : Int) - (1023 + 52)
    omega

theorem add_comm_unpacked (u v : UnpackedFloat) :
    UnpackedFloat.add .binary64 u v = UnpackedFloat.add .binary64 v u := by
  cases u with
  | notANumber => cases v <;> rfl
  | infinity s =>
    cases v with
    | infinity s' => cases s <;> cases s' <;> rfl
    | _ => rfl
  | zero s =>
    cases v with
    | zero s' => cases s <;> cases s' <;> rfl
    | _ => rfl
  | finite s m e positive =>
    cases v with
    | finite s' m' e' positive' =>
      simp only [UnpackedFloat.add]
      rw [min_comm, Int.add_comm]
    | _ => rfl

theorem normalize_of_pos {n : Nat} (positive : 0 < n) (e : Int) (s : Sign) :
    UnpackedFloat.normalize .binary64 n e s = UnpackedFloat.round .binary64 .positive n e := by
  have greater : compare (n : Int) 0 = .gt := Int.compare_eq_gt.2 (by omega)
  rw [UnpackedFloat.normalize, greater]
  rfl

/-- A part above zero is not lost in a sum. -/
theorem isAboveZero_add {u v : UnpackedFloat} (hu : IsDouble u) (hv : IsDouble v)
    (above : isAboveZero u = true) (atLeast : isAtLeastZero v = true) :
    isAboveZero (Float.Model.pack (UnpackedFloat.add .binary64 u v)).unpack = true := by
  have infinite : isAboveZero (Float.Model.pack (.infinity .positive)).unpack = true := by decide
  cases u with
  | notANumber => cases above
  | zero => cases above
  | infinity s =>
    cases s with
    | negative => cases above
    | positive =>
      cases v with
      | notANumber => cases atLeast
      | infinity s' =>
        cases s' with
        | negative => cases atLeast
        | positive => exact infinite
      | zero => exact infinite
      | finite => exact infinite
  | finite s m e positive =>
    cases s with
    | negative => cases above
    | positive =>
      obtain ⟨narrow, low⟩ := hu _ _ _ _ rfl
      cases v with
      | notANumber => cases atLeast
      | infinity s' =>
        cases s' with
        | negative => cases atLeast
        | positive => exact infinite
      | zero => exact isAboveZero_pack narrow low
      | finite s' m' e' positive' =>
        cases s' with
        | negative => cases atLeast
        | positive =>
          obtain ⟨-, low'⟩ := hv _ _ _ _ rfl
          have sum : 0 < m <<< (e - min e e').toNat + m' <<< (e' - min e e').toNat := by
            rw [Nat.shiftLeft_eq]
            exact Nat.add_pos_left (Nat.mul_pos positive (Nat.two_pow_pos _)) _
          simp only [UnpackedFloat.add, decreaseExponent, Sign.apply]
          rw [← Int.natCast_add, normalize_of_pos sum]
          exact isAboveZero_round sum (by omega)

section
variable {x y : Float}

theorem add_pos_of_pos_of_nonneg (above : 0 < x) (atLeast : 0 ≤ y) : 0 < x + y :=
  zero_lt_iff.2 (isAboveZero_add (isDouble_unpack _) (isDouble_unpack _)
    (zero_lt_iff.1 above) (zero_le_iff.1 atLeast))

theorem add_comm (x y : Float) : x + y = y + x :=
  congrArg (fun u => Float.ofModel (Float.Model.pack u)) (add_comm_unpacked _ _)

theorem add_pos_of_nonneg_of_pos (atLeast : 0 ≤ x) (above : 0 < y) : 0 < x + y :=
  add_comm y x ▸ add_pos_of_pos_of_nonneg above atLeast

theorem isZero_pack {u : UnpackedFloat} (h : isZero u = true) :
    isZero (Float.Model.pack u).unpack = true := by
  cases u with
  | zero s => cases s <;> decide
  | _ => cases h

theorem isZero_add {u v : UnpackedFloat} (hu : isZero u = true) (hv : isZero v = true) :
    isZero (UnpackedFloat.add .binary64 u v) = true := by
  cases u with
  | zero s =>
    cases v with
    | zero s' => cases s <;> cases s' <;> rfl
    | _ => cases hv
  | _ => cases hu

theorem add_eq_zero (hx : (x == 0) = true) (hy : (y == 0) = true) : (x + y == 0) = true :=
  beq_zero_iff.2 (isZero_pack (isZero_add (beq_zero_iff.1 hx) (beq_zero_iff.1 hy)))

theorem add_nonneg (hx : 0 ≤ x) (hy : 0 ≤ y) : 0 ≤ x + y := by
  by_cases above : 0 < x
  · exact nonneg_of_pos (add_pos_of_pos_of_nonneg above hy)
  by_cases above' : 0 < y
  · exact nonneg_of_pos (add_pos_of_nonneg_of_pos hx above')
  · exact nonneg_of_eq_zero (add_eq_zero (eq_zero_of_nonneg_of_not_pos hx above)
      (eq_zero_of_nonneg_of_not_pos hy above'))

/-- A sum of parts that are not negative is zero only if both parts are. -/
theorem parts_eq_zero (hx : 0 ≤ x) (hy : 0 ≤ y) (sum : (x + y == 0) = true) :
    (x == 0) = true ∧ (y == 0) = true :=
  ⟨eq_zero_of_nonneg_of_not_pos hx fun above =>
      not_pos_of_eq_zero sum (add_pos_of_pos_of_nonneg above hy),
    eq_zero_of_nonneg_of_not_pos hy fun above =>
      not_pos_of_eq_zero sum (add_pos_of_nonneg_of_pos hx above)⟩

/-! ## Products -/

theorem isZero_mul {u v : UnpackedFloat} (finite : u.isFinite = true) (zero : isZero v = true) :
    isZero (UnpackedFloat.mul .binary64 u v) = true := by
  cases v with
  | zero s =>
    cases u with
    | notANumber => cases finite
    | infinity => cases finite
    | zero => rfl
    | finite => rfl
  | _ => cases zero

theorem mul_eq_zero (finite : x.isFinite = true) (zero : (y == 0) = true) :
    (x * y == 0) = true :=
  beq_zero_iff.2 (isZero_pack (isZero_mul finite (beq_zero_iff.1 zero)))

theorem isAtLeastZero_roundWithAccuracy (m : Nat) (e : Int) :
    isAtLeastZero (roundWithAccuracy .binary64 .positive m e .exact) = true := by
  rw [roundWithAccuracy]
  simp only
  split <;> rfl

theorem isAtLeastZero_mul {u v : UnpackedFloat} (hu : u.isFinite = true) (hv : v.isFinite = true)
    (atLeast : isAtLeastZero u = true) (atLeast' : isAtLeastZero v = true) :
    isAtLeastZero (UnpackedFloat.mul .binary64 u v) = true := by
  cases u with
  | notANumber => cases hu
  | infinity => cases hu
  | zero =>
    cases v with
    | notANumber => cases hv
    | infinity => cases hv
    | zero => rfl
    | finite => rfl
  | finite s =>
    cases v with
    | notANumber => cases hv
    | infinity => cases hv
    | zero => rfl
    | finite s' =>
      cases s with
      | negative => cases atLeast
      | positive =>
        cases s' with
        | negative => cases atLeast'
        | positive => exact isAtLeastZero_roundWithAccuracy _ _

theorem mul_nonneg (hx : x.isFinite = true) (hy : y.isFinite = true) (atLeast : 0 ≤ x)
    (atLeast' : 0 ≤ y) : 0 ≤ x * y :=
  zero_le_iff.2 (isAtLeastZero_pack (isAtLeastZero_mul hx hy (zero_le_iff.1 atLeast)
    (zero_le_iff.1 atLeast')))

end

/-! ## Whole numbers -/

theorem isNormal_round {m : Nat} (positive : 0 < m) (narrow : m < 2 ^ 53) :
    IsNormal .positive (-52) 1 (UnpackedFloat.round .binary64 .positive m 0) := by
  have bits := (Nat.log2_lt positive.ne').2 narrow
  have shift : (0 - max (totalExponent m 0 - 53) (-1074)).toNat = 52 - m.log2 := by
    rw [totalExponent]
    omega
  have wide : (m <<< (52 - m.log2)).log2 = 52 + 0 := by
    rw [Nat.shiftLeft_eq, Nat.mul_comm, log2_two_pow_mul positive.ne']
    omega
  rw [UnpackedFloat.round, decreaseExponent]
  simp only [targetExponent_binary64, shift]
  exact (isNormal_roundWithAccuracy wide (by omega)).mono (by omega) (by omega)

theorem unpack_one : Float.exactlyRepresentablePowersOfTen[0].toModel.unpack =
    .finite .positive (2 ^ 52) (-52) (by decide) := rfl

theorem unpack_toFloat {n : Nat} (positive : 0 < n) (narrow : n < 2 ^ 53) :
    n.toUInt64.toFloat.toModel.unpack = UnpackedFloat.round .binary64 .positive n 0 := by
  have model : n.toUInt64.toFloat.toModel =
      Float.Model.pack (UnpackedFloat.normalize .binary64 n.toUInt64.toNat 0 .positive) := rfl
  rw [model, Nat.toUInt64_eq, UInt64.toNat_ofNat_of_lt' (by norm_num; omega),
    normalize_of_pos positive]
  exact (isNormal_round positive narrow).unpack_pack (by omega) (by omega)

theorem isNormal_mul_one {u : UnpackedFloat} (normal : IsNormal .positive (-52) 1 u) :
    IsNormal .positive (-52) 12 (Float.Model.pack (UnpackedFloat.mul .binary64 u
      (.finite .positive (2 ^ 52) (-52) (by decide)))).unpack := by
  obtain ⟨m, e, positive, rfl, bits, low, high⟩ := normal
  have wide : (m * 2 ^ 52).log2 = 52 + 52 := by
    rw [Nat.mul_comm, log2_two_pow_mul positive.ne', bits]
  have product : IsNormal .positive (-52) 12 (UnpackedFloat.mul .binary64
      (.finite .positive m e positive) (.finite .positive (2 ^ 52) (-52) (by decide))) :=
    (isNormal_roundWithAccuracy wide (by omega)).mono (by omega) (by omega)
  rw [product.unpack_pack (by omega) (by omega)]
  exact product

theorem isNormal_ofScientific {n : Nat} (nonzero : n ≠ 0) (narrow : n < 2 ^ 64) :
    IsNormal .positive (-52) 12
      (Float.Model.pack (UnpackedFloat.ofScientific .binary64 n (0 : Nat))).unpack := by
  have bits := (Nat.log2_lt nonzero).2 narrow
  have wide : (2 ^ 53 * (n * 10 ^ 0)).log2 = 52 + (n.log2 + 1) := by
    rw [Nat.pow_zero, Nat.mul_one, log2_two_pow_mul nonzero]
    omega
  have normal : IsNormal .positive (-52) 12
      (roundWithAccuracy .binary64 .positive (2 ^ 53 * (n * 10 ^ 0)) (-53) .exact) :=
    (isNormal_roundWithAccuracy wide (by omega)).mono (by omega) (by omega)
  rw [ofScientific_of_nonneg nonzero (Nat.zero_le _), normal.unpack_pack (by omega) (by omega)]
  exact normal

theorem isNormal_ofNat {n : Nat} (positive : 0 < n) (narrow : n < 2 ^ 64) :
    IsNormal .positive (-52) 12 (Float.ofNat n).toModel.unpack := by
  change IsNormal .positive (-52) 12 (Float.ofScientific n false 0).toModel.unpack
  unfold Float.ofScientific
  split
  · next small =>
    change IsNormal .positive (-52) 12 (Float.Model.pack (UnpackedFloat.mul .binary64
      n.toUInt64.toFloat.toModel.unpack
      Float.exactlyRepresentablePowersOfTen[0].toModel.unpack)).unpack
    rw [unpack_toFloat positive small.1, unpack_one]
    exact isNormal_mul_one (isNormal_round positive small.1)
  · exact isNormal_ofScientific positive.ne' narrow

theorem isFinite_ofNat {n : Nat} (narrow : n < 2 ^ 64) : (Float.ofNat n).isFinite = true := by
  rcases n.eq_zero_or_pos with rfl | positive
  · rfl
  · obtain ⟨m, e, positive', value, -⟩ := isNormal_ofNat positive narrow
    change (Float.ofNat n).toModel.unpack.isFinite = true
    rw [value]
    rfl

theorem ofNat_nonneg {n : Nat} (narrow : n < 2 ^ 64) : 0 ≤ Float.ofNat n := by
  rcases n.eq_zero_or_pos with rfl | positive
  · decide
  · obtain ⟨m, e, positive', value, -⟩ := isNormal_ofNat positive narrow
    rw [zero_le_iff, value]
    rfl

/-- A whole number of 64 bits is a finite double. -/
theorem isFinite_ofInt {n : Int} (narrow : n.natAbs < 2 ^ 64) :
    (Float.ofInt n).isFinite = true := by
  cases n with
  | ofNat n => exact isFinite_ofNat narrow
  | negSucc n =>
    obtain ⟨m, e, positive, value, bits, low, high⟩ := isNormal_ofNat n.succ_pos narrow
    change (Float.Model.pack (Float.ofNat n.succ).toModel.unpack.neg).unpack.isFinite = true
    rw [value, UnpackedFloat.neg, unpack_pack_normal bits (by omega) (by omega)]
    rfl

theorem ofInt_nonneg {n : Int} (nonneg : 0 ≤ n) (narrow : n.natAbs < 2 ^ 64) :
    0 ≤ Float.ofInt n := by
  cases n with
  | ofNat n => exact ofNat_nonneg narrow
  | negSucc n => omega

end TokenTariff.Double
