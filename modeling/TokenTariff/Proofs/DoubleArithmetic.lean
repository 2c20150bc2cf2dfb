import TokenTariff.Proofs.DoubleBits
/-!
# Arithmetic of doubles

A product is rounded once if a factor has all of its bits, and a quotient always. Whole numbers of
64 bits and the powers of ten up to the greatest one become the doubles nearest to them.

* `IsPositive`, `IsRounded`: a double above zero, and one to which a rational is rounded;
* `IsPositive.mul`, `IsPositive.div`: products and quotients;
* `isRounded_ofNat`, `exists_power`: whole numbers and powers of ten.
-/

namespace TokenTariff.Double
set_option autoImplicit false

open Float.Model Float.Model.UnpackedFloat

/-! ## Products and quotients -/

theorem standsFor_accuracyOfFraction {n d : Nat} (positive : 0 < d) :
    StandsFor (n / d) (accuracyOfFraction (n % d) d) (n / d : ℚ) := by
  have less := Nat.mod_lt n positive
  have whole : (n : ℚ) = d * (n / d : Nat) + (n % d : Nat) := by
    exact_mod_cast (Nat.div_add_mod n d).symm
  generalize n / d = q at whole
  generalize n % d = r at whole less
  have part : (n / d : ℚ) = q + r / d := by
    have : (d : ℚ) ≠ 0 := by exact_mod_cast positive.ne'
    rw [whole]
    field_simp
  have positive' : (0 : ℚ) < d := by exact_mod_cast positive
  rw [part, accuracyOfFraction]
  split
  · next zero => simp [StandsFor, zero]
  · next nonzero =>
    have above : 0 < (r : ℚ) / d := div_pos (by exact_mod_cast Nat.pos_of_ne_zero nonzero) positive'
    have below : (r : ℚ) / d < 1 := (div_lt_one positive').2 (by exact_mod_cast less)
    rcases lt_trichotomy (2 * r) d with low | half | high
    · have : (r : ℚ) / d < 1 / 2 := by
        rw [div_lt_iff₀ positive']
        have : (2 * r : ℚ) < d := by exact_mod_cast low
        linarith
      rw [Nat.compare_eq_lt.2 low]
      constructor <;> linarith
    · have : (r : ℚ) / d = 1 / 2 := by
        rw [div_eq_iff positive'.ne', ← half]
        push_cast
        ring
      rw [Nat.compare_eq_eq.2 half, StandsFor]
      linarith
    · have : 1 / 2 < (r : ℚ) / d := by
        rw [lt_div_iff₀ positive']
        have : (d : ℚ) < 2 * r := by exact_mod_cast high
        linarith
      rw [Nat.compare_eq_gt.2 high]
      constructor <;> linarith

section
variable {s s' : Sign} {m m' : Nat} {e e' : Int} {positive : 0 < m} {positive' : 0 < m'}

/-- A product is rounded once, if a factor has all of its 53 bits. -/
theorem rounded_mul (wide : 2 ^ 52 ≤ m) :
    Rounded ((m * 2 ^ e) * (m' * 2 ^ e')) (s * s')
      (UnpackedFloat.mul .binary64 (.finite s m e positive) (.finite s' m' e' positive')) := by
  refine rounded_roundWithAccuracy _ ?_ ?_
  · rw [zpow_add₀ (by norm_num)]
    have := two_zpow_pos e
    have := two_zpow_pos e'
    rw [StandsFor]
    push_cast
    field_simp
  · have bits : 52 ≤ (m * m').log2 := by
      rw [Nat.le_log2 (Nat.mul_pos positive positive').ne']
      exact wide.trans (Nat.le_mul_of_pos_right m positive')
    rw [targetExponent_binary64, totalExponent]
    omega

/-- A quotient is rounded once. -/
theorem rounded_div :
    Rounded ((m * 2 ^ e) / (m' * 2 ^ e')) (s / s')
      (UnpackedFloat.div .binary64 (.finite s m e positive) (.finite s' m' e' positive')) := by
  generalize place : min (e - e') (Format.binary64.targetExponent
    (totalExponent m e - totalExponent m' e')) = t
  rw [targetExponent_binary64, totalExponent, totalExponent] at place
  generalize shift : (e - e' - t).toNat = k
  have core : divCore .binary64 m e m' e' =
      (m <<< k / m', t, accuracyOfFraction (m <<< k % m') m') := by
    subst shift place
    rfl
  rw [UnpackedFloat.div, core]
  refine rounded_roundWithAccuracy _ ?_ ?_
  · have value : (m * 2 ^ e : ℚ) / (m' * 2 ^ e') / 2 ^ t = ((m <<< k : Nat) : ℚ) / m' := by
      have exponents : e = k + (e' + t) := by omega
      rw [Nat.shiftLeft_eq, exponents, two_zpow_add, zpow_add₀ (by norm_num)]
      have := two_zpow_pos t
      have := two_zpow_pos e'
      push_cast
      field_simp
    rw [value]
    exact standsFor_accuracyOfFraction positive'
  · rw [targetExponent_binary64, totalExponent]
    by_cases least : t ≤ -1074
    · omega
    · -- the quotient has all of its bits
      have bits : 52 ≤ (m <<< k / m').log2 := by
        have low := Nat.log2_self_le positive.ne'
        have high := Nat.lt_log2_self (n := m')
        have enough : m'.log2 + 1 + 52 ≤ m.log2 + k := by omega
        have quotient : 2 ^ 52 ≤ m <<< k / m' := by
          rw [Nat.le_div_iff_mul_le positive', Nat.shiftLeft_eq]
          calc 2 ^ 52 * m' ≤ 2 ^ 52 * 2 ^ (m'.log2 + 1) := by gcongr
            _ = 2 ^ (m'.log2 + 1 + 52) := by ring
            _ ≤ 2 ^ (m.log2 + k) := Nat.pow_le_pow_right (by decide) enough
            _ = 2 ^ m.log2 * 2 ^ k := Nat.pow_add ..
            _ ≤ m * 2 ^ k := by gcongr
        exact (Nat.le_log2 (by omega)).2 quotient
      omega

end

/-! ## Doubles above zero -/

/-- A double above zero with its mantissa and exponent. -/
def IsPositive (x : Float) (m : Nat) (e : Int) : Prop :=
  ∃ positive, x.toModel.unpack = .finite .positive m e positive

/-- A double to which a rational above zero is rounded. -/
def IsRounded (v : ℚ) (x : Float) : Prop :=
  Rounded v .positive x.toModel.unpack

section
variable {x y : Float} {v : ℚ} {m m' : Nat} {e e' : Int}

theorem isRounded_pack {u : UnpackedFloat} (h : Rounded v .positive u) (small : v < overflow) :
    IsRounded v (.ofModel (Float.Model.pack u)) := by
  change Rounded v .positive (Float.Model.pack u).unpack
  rwa [h.unpack_pack small]

theorem IsPositive.mul (hx : IsPositive x m e) (hy : IsPositive y m' e') (wide : 2 ^ 52 ≤ m)
    (small : m * 2 ^ e * (m' * 2 ^ e') < overflow) :
    IsRounded (m * 2 ^ e * (m' * 2 ^ e')) (x * y) := by
  obtain ⟨positive, hx⟩ := hx
  obtain ⟨positive', hy⟩ := hy
  have product : Rounded (m * 2 ^ e * (m' * 2 ^ e')) .positive (UnpackedFloat.mul .binary64
      (.finite .positive m e positive) (.finite .positive m' e' positive')) := rounded_mul wide
  rw [← hx, ← hy] at product
  exact isRounded_pack product small

theorem IsPositive.div (hx : IsPositive x m e) (hy : IsPositive y m' e')
    (small : m * 2 ^ e / (m' * 2 ^ e') < overflow) :
    IsRounded (m * 2 ^ e / (m' * 2 ^ e')) (x / y) := by
  obtain ⟨positive, hx⟩ := hx
  obtain ⟨positive', hy⟩ := hy
  have quotient : Rounded (m * 2 ^ e / (m' * 2 ^ e')) .positive (UnpackedFloat.div .binary64
      (.finite .positive m e positive) (.finite .positive m' e' positive')) := rounded_div
  rw [← hx, ← hy] at quotient
  exact isRounded_pack quotient small

theorem IsPositive.canonical (hx : IsPositive x m e) : IsCanonical m e ∧ e ≤ 971 :=
  isCanonical_unpack hx.choose_spec

theorem IsRounded.error (h : IsRounded v x) (hx : IsPositive x m e) :
    |m * 2 ^ e - v| ≤ max (v / 2 ^ 53) halfLeast := by
  have error := Rounded.error h
  obtain ⟨positive, hx⟩ := hx
  rwa [hx] at error

/-- A rational is rounded to a finite double, unless it is too large, and to one above zero, unless
it is too small. -/
theorem IsRounded.exists_positive (h : IsRounded v x) (large : 2 ^ (-1074 : Int) ≤ v)
    (small : v < overflow) : ∃ m e, IsPositive x m e := by
  rcases Rounded.cases h small with zero | ⟨m, e, positive, value, -⟩
  · have error := Rounded.error h
    have least := halfLeast_pos
    rw [least_eq_two_mul] at large
    rw [zero, magnitude_zero, zero_sub, abs_neg, abs_of_pos (by linarith)] at error
    rcases le_max_iff.1 error with error | error
    · linarith
    · linarith
  · exact ⟨m, e, positive, value⟩

end

/-! ## Whole numbers and powers of ten -/

/-- A whole number with at most 53 bits, but for a power of two, is not changed by rounding. -/
theorem Rounded.exact {n k : Nat} {s : Sign} {u : UnpackedFloat} (narrow : n < 2 ^ 53)
    (h : Rounded ((n * 2 ^ k : Nat) : ℚ) s u) : magnitude u = (n * 2 ^ k : Nat) := by
  obtain ⟨r, t, last, near, rfl⟩ := h
  have unit := two_zpow_pos t
  rw [magnitude_atPlace]
  obtain ⟨q, whole⟩ : ∃ q : Nat, ((n * 2 ^ k : Nat) : ℚ) / 2 ^ t = q := by
    rcases le_or_gt t 0 with low | high
    · refine ⟨n * 2 ^ k * 2 ^ (-t).toNat, ?_⟩
      have exponent : t = -((-t).toNat : Int) := by omega
      generalize (-t).toNat = j at exponent ⊢
      subst exponent
      rw [zpow_neg, div_inv_eq_mul, zpow_natCast]
      push_cast
      ring
    · have below : t ≤ k := by
        have wide := last.wide.resolve_left (by omega)
        have less : (2 : ℚ) ^ ((52 : Nat) + t) < 2 ^ ((53 : Nat) + (k : Int)) := by
          rw [two_zpow_add, two_zpow_add]
          refine wide.trans_lt ?_
          have : (n : ℚ) < 2 ^ 53 := by exact_mod_cast narrow
          push_cast
          rw [zpow_natCast]
          gcongr
        have := two_zpow_lt.1 less
        push_cast at this
        omega
      refine ⟨n * 2 ^ (k - t.toNat), ?_⟩
      have exponent : k = (k - t.toNat) + t.toNat := by omega
      have exponent' : t = (t.toNat : Int) := by omega
      generalize t.toNat = j at exponent exponent' ⊢
      generalize k - j = i at exponent ⊢
      subst exponent exponent'
      rw [zpow_natCast, pow_add]
      push_cast
      field_simp
  rw [whole] at near
  obtain rfl := near.unique (isNearest_natCast q)
  rw [← whole, div_mul_cancel₀ _ unit.ne']

theorem rounded_round (s : Sign) {m : Nat} (nonzero : m ≠ 0) (e : Int) :
    Rounded (m * 2 ^ e) s (UnpackedFloat.round .binary64 s m e) := by
  rw [UnpackedFloat.round, decreaseExponent]
  simp only [targetExponent_binary64]
  generalize shift : (e - max (totalExponent m e - 53) (-1074)).toNat = k
  refine rounded_roundWithAccuracy s ?_ ?_
  · have unit := two_zpow_pos (e - k)
    have exponents : e = k + (e - k) := by omega
    rw [StandsFor, div_eq_iff unit.ne']
    nth_rewrite 1 [exponents]
    rw [two_zpow_add, Nat.shiftLeft_eq]
    push_cast
    ring
  · have bits : (m <<< k).log2 = m.log2 + k := by
      rw [Nat.shiftLeft_eq, Nat.mul_comm, log2_two_pow_mul nonzero, Nat.add_comm]
    rw [totalExponent] at shift
    rw [targetExponent_binary64, totalExponent, bits]
    push_cast
    omega

theorem rounded_ofScientific {m n : Nat} (nonzero : m ≠ 0) (h : n ≤ 2 ^ 11) :
    Rounded ((m * 10 ^ n : Nat) : ℚ) .positive (UnpackedFloat.ofScientific .binary64 m n) := by
  rw [ofScientific_of_nonneg nonzero h]
  have nonzero' : m * 10 ^ n ≠ 0 := Nat.mul_ne_zero nonzero (Nat.pow_pos (by decide)).ne'
  refine rounded_roundWithAccuracy _ ?_ ?_
  · rw [StandsFor, show (-53 : Int) = -(53 : Nat) from rfl, zpow_neg, div_inv_eq_mul, zpow_natCast]
    push_cast
    ring
  · rw [targetExponent_binary64, totalExponent, log2_two_pow_mul nonzero']
    omega

theorem natCast_overflow (k : Nat) :
    (((2 ^ 54 - 1) * 2 ^ k : Nat) : ℚ) = (2 ^ 53 - 1 / 2) * 2 ^ ((k : Int) + 1) := by
  rw [zpow_add_one₀ (by norm_num), zpow_natCast, Nat.cast_mul, Nat.cast_sub (by decide)]
  push_cast
  ring

theorem lt_overflow {n : Nat} (h : n < (2 ^ 54 - 1) * 2 ^ 970) : (n : ℚ) < overflow :=
  lt_of_lt_of_eq (Nat.cast_lt.2 h) (natCast_overflow 970)

/-- A whole number of 64 bits becomes the double nearest to it. -/
theorem isRounded_ofNat {n : Nat} (positive : 0 < n) (narrow : n < 2 ^ 64) :
    IsRounded n (Float.ofNat n) := by
  change IsRounded n (Float.ofScientific n false 0)
  unfold Float.ofScientific
  split
  · next small =>
    have whole := rounded_round .positive positive.ne' 0
    have value : magnitude (UnpackedFloat.round .binary64 .positive n 0) = n := by
      have exact := Rounded.exact (n := n) (k := 0) small.1 (by simpa using whole)
      simpa using exact
    obtain ⟨m, e, positive', normal, bits, -⟩ := isNormal_round positive small.1
    have wide : 2 ^ 52 ≤ m := ((Nat.log2_eq_iff positive'.ne').1 bits).1
    have hx : IsPositive n.toUInt64.toFloat m e :=
      ⟨positive', (unpack_toFloat positive small.1).trans normal⟩
    have one : IsPositive Float.exactlyRepresentablePowersOfTen[0] (2 ^ 52) (-52) :=
      ⟨by decide, unpack_one⟩
    rw [normal, magnitude_finite] at value
    have product : (m * 2 ^ e : ℚ) * ((2 ^ 52 : Nat) * 2 ^ (-52 : Int)) = n := by
      rw [value]
      norm_num
    have below : (n : ℚ) < overflow := lt_overflow (small.1.trans (by decide +kernel))
    rw [← product] at below ⊢
    exact hx.mul one wide below
  · have rounded := rounded_ofScientific positive.ne' (Nat.zero_le _)
    rw [Nat.pow_zero, Nat.mul_one] at rounded
    exact isRounded_pack rounded (lt_overflow (narrow.trans (by decide +kernel)))

/-- Whether a double differs from a whole number by at most `few` of so many parts. -/
def isCloseTo (x : Float) (n few parts : Nat) : Bool :=
  match x.toModel.unpack with
  | .finite .positive m e _ =>
    ((m * 2 ^ e.toNat : Nat) - (n * 2 ^ (-e).toNat : Nat) : Int).natAbs * parts ≤
      few * (n * 2 ^ (-e).toNat)
  | _ => false

theorem exists_positive_of_isCloseTo {x : Float} {n few parts : Nat} (positive : 0 < parts)
    (h : isCloseTo x n few parts = true) :
    ∃ m e, IsPositive x m e ∧ |(m * 2 ^ e : ℚ) - n| ≤ few * n / parts := by
  rw [isCloseTo] at h
  split at h
  · next m e positive' value =>
    refine ⟨m, e, ⟨positive', value⟩, ?_⟩
    have scale : (0 : ℚ) < 2 ^ (-e).toNat := by positivity
    have parts' : (0 : ℚ) < parts := by exact_mod_cast positive
    have distance : |(m * 2 ^ e : ℚ) - n| * 2 ^ (-e).toNat =
        (((m * 2 ^ e.toNat : Nat) - (n * 2 ^ (-e).toNat : Nat) : Int).natAbs : ℚ) := by
      rw [Nat.cast_natAbs, zpow_eq_div (by norm_num), ← abs_of_pos scale, ← abs_mul, abs_of_pos scale]
      push_cast
      congr 1
      field_simp
    have whole : (((m * 2 ^ e.toNat : Nat) - (n * 2 ^ (-e).toNat : Nat) : Int).natAbs : ℚ) * parts ≤
        few * (n * 2 ^ (-e).toNat) := by exact_mod_cast of_decide_eq_true h
    rw [← distance] at whole
    rw [le_div_iff₀ parts']
    refine le_of_mul_le_mul_right ?_ scale
    linarith
  · cases h

theorem isCloseTo_power : ∀ n : Fin 23,
    isCloseTo (Float.ofScientific 1 false n) (10 ^ (n : Nat)) 0 1 = true := by
  decide

/-- The powers of ten up to `10 ^ 22` are doubles. -/
theorem exists_power_exact {n : Nat} (h : n ≤ 22) :
    ∃ m e, IsPositive (Float.ofScientific 1 false n) m e ∧ (m * 2 ^ e : ℚ) = 10 ^ n := by
  obtain ⟨m, e, positive, close⟩ :=
    exists_positive_of_isCloseTo Nat.one_pos (isCloseTo_power ⟨n, by omega⟩)
  refine ⟨m, e, positive, sub_eq_zero.1 (abs_nonpos_iff.1 ?_)⟩
  simpa using close

/-- The powers of ten up to the greatest one that is a double are the nearest doubles. -/
theorem exists_power {n : Nat} (h : n ≤ 308) :
    ∃ m e, IsPositive (Float.ofScientific 1 false n) m e ∧
      |(m * 2 ^ e : ℚ) - 10 ^ n| ≤ 10 ^ n / 2 ^ 53 := by
  by_cases small : n ≤ 22
  · obtain ⟨m, e, positive, exact⟩ := exists_power_exact small
    refine ⟨m, e, positive, ?_⟩
    rw [exact, sub_self, abs_zero]
    positivity
  · have value : Float.ofScientific 1 false n =
        .ofModel (.pack (UnpackedFloat.ofScientific .binary64 1 n)) := by
      unfold Float.ofScientific
      rw [dif_neg (by omega)]
      rfl
    have rounded := rounded_ofScientific one_ne_zero (n := n) (by omega)
    rw [Nat.one_mul] at rounded
    have small : ((10 ^ n : Nat) : ℚ) < overflow := lt_overflow <|
      (Nat.pow_le_pow_right (by decide) h).trans_lt (by decide +kernel)
    have isRounded := isRounded_pack rounded small
    rw [← value] at isRounded
    have one : (1 : ℚ) ≤ (10 ^ n : Nat) := by exact_mod_cast Nat.one_le_pow n 10 (by decide)
    obtain ⟨m, e, positive⟩ := isRounded.exists_positive
      ((two_zpow_le.2 (by decide : (-1074 : Int) ≤ 0)).trans (by simpa using one)) small
    refine ⟨m, e, positive, ?_⟩
    have error := isRounded.error positive
    push_cast at error one
    refine error.trans (max_le le_rfl ?_)
    rw [le_div_iff₀ (by positivity)]
    exact (halfLeast_mul_le (by decide)).trans one

end TokenTariff.Double
