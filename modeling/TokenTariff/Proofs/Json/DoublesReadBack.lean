import TokenTariff.Json.Writer
import TokenTariff.Proofs.Decimal.Shortest
import TokenTariff.Proofs.Json.DecimalScaling
import TokenTariff.Proofs.Json.DoubleTexts
/-!
# What is read back of a double

The text of a finite double is read as a finite double with the same sign that differs from it by
less than four units of its last place (`numberText_double`). It is read as the same double if the
digits of the text fit into a mantissa and its power of ten is one that a double holds exactly.
-/

namespace TokenTariff.Json
set_option autoImplicit false

open Float.Model Float.Model.UnpackedFloat Double

/-! ## Decimals of doubles -/

section
variable {m : Nat} {e : Int}

/-- What the text of a double shows has the value of its shortest decimal. -/
theorem value_shownDecimal (value : Decimal.Binary) :
    ((shownDecimal value).number : ℚ) * 10 ^ (shownDecimal value).power =
      (Decimal.shortest value).number * 10 ^ (Decimal.shortest value).power := by
  rw [shownDecimal]
  split
  · next whole =>
    rw [Bool.and_eq_true, decide_eq_true_eq] at whole
    obtain ⟨n, power⟩ := Int.eq_ofNat_of_zero_le whole.1
    rw [power, Int.toNat_natCast, zpow_natCast]
    push_cast
    rw [pow_succ, zpow_neg_one]
    field_simp
  · rfl

theorem shownDecimal_spec (canonical : IsCanonical m e) (high : e ≤ 971) :
    0 < (shownDecimal (binaryOf m e)).number ∧ -330 ≤ (shownDecimal (binaryOf m e)).power ∧
      (shownDecimal (binaryOf m e)).power ≤ greatestPower ∧
      IsAround ((shownDecimal (binaryOf m e)).number * 10 ^ (shownDecimal (binaryOf m e)).power)
        m e := by
  obtain ⟨positive, -, low, top, around⟩ := Decimal.shortest_spec canonical high rfl
  rw [value_shownDecimal]
  rw [Decimal.topPower] at top
  rw [shownDecimal, greatestPower]
  split
  · exact ⟨Nat.mul_pos positive (Nat.pow_pos (by decide)), show (-330 : Int) ≤ -1 by decide,
      show (-1 : Int) ≤ 308 by decide, around⟩
  · exact ⟨positive, by omega, by omega, around⟩

/-- What is read of the decimal that a double shows. -/
def scaledBack (m : Nat) (e : Int) : Option Float :=
  scaleByTen scaleSteps (Float.ofNat (shownDecimal (binaryOf m e)).number)
    (shownDecimal (binaryOf m e)).power

/-- Whether a result is a double as far up as the greatest ones, with nearly the same mantissa. -/
def isCloseAtTop (m : Nat) (found : Option Float) : Bool :=
  found.any fun x =>
    match x.toModel.unpack with
    | .finite .positive m' e' _ => e' = 971 && m < m' + 4 && m' < m + 4
    | _ => false

theorem isCloseAtTop_scaledBack : ∀ k : Fin 3,
    isCloseAtTop (2 ^ 53 - 1 - k) (scaledBack (2 ^ 53 - 1 - k) 971) = true ∧
      22 < (shownDecimal (binaryOf (2 ^ 53 - 1 - k) 971)).power.natAbs := by
  decide +kernel

/-- A result for a mantissa and an exponent: it is positive, unless it is zero, and differs by less
than four units of the last place. -/
structure IsCloseBack (m : Nat) (e : Int) (x : Float) : Prop where
  positive : x.toModel.unpack = .zero .positive ∨ ∃ m' e', IsPositive x m' e'
  near : |magnitude x.toModel.unpack - m * 2 ^ e| < 4 * 2 ^ e
  exact : IsExact (shownDecimal (binaryOf m e)).number →
    (shownDecimal (binaryOf m e)).power.natAbs ≤ 22 → IsPositive x m e

theorem isCloseBack_of_isCloseAtTop {found : Option Float} (close : isCloseAtTop m found = true)
    (long : 22 < (shownDecimal (binaryOf m 971)).power.natAbs) :
    ∃ x, found = some x ∧ IsCloseBack m 971 x := by
  rw [isCloseAtTop, Option.any_eq_true] at close
  obtain ⟨x, rfl, close⟩ := close
  refine ⟨x, rfl, ?_⟩
  split at close
  · next m' e' positive value =>
    simp only [Bool.and_eq_true, decide_eq_true_eq] at close
    obtain ⟨⟨rfl, low⟩, high⟩ := close
    refine ⟨.inr ⟨m', 971, positive, value⟩, ?_, fun _ short => absurd long (Nat.not_lt.2 short)⟩
    have unit := two_zpow_pos 971
    have low' : (m : ℚ) < m' + 4 := by exact_mod_cast low
    have high' : (m' : ℚ) < m + 4 := by exact_mod_cast high
    rw [value, magnitude_finite, ← sub_mul, abs_mul, abs_of_pos unit]
    refine mul_lt_mul_of_pos_right (abs_lt.2 ⟨by linarith, by linarith⟩) unit
  · cases close

/-- The decimal that a double shows is read as a double close to it. -/
theorem exists_scaledBack (canonical : IsCanonical m e) (high : e ≤ 971)
    (fits : (shownDecimal (binaryOf m e)).number < significandLimit) :
    ∃ x, scaledBack m e = some x ∧ IsCloseBack m e x := by
  by_cases top : e = 971 ∧ 2 ^ 53 ≤ m + 3
  · obtain ⟨rfl, top⟩ := top
    have narrow := canonical.narrow
    obtain ⟨k, rfl⟩ : ∃ k : Fin 3, m = 2 ^ 53 - 1 - k :=
      ⟨⟨2 ^ 53 - 1 - m, by omega⟩, by simp only; omega⟩
    obtain ⟨close, long⟩ := isCloseAtTop_scaledBack k
    exact isCloseBack_of_isCloseAtTop close long
  · obtain ⟨positive, low, up, around⟩ := shownDecimal_spec canonical high
    obtain ⟨p, reading, scaled⟩ := scaleByTen_reading positive fits low up
    have small := reading.lt_overflow canonical around (by omega)
    obtain ⟨x, found, rounded⟩ := scaled small
    refine ⟨x, found, ?_, reading.near canonical around rounded, fun exact short => ?_⟩
    · rcases Rounded.cases rounded small with zero | ⟨m', e', positive', value, -⟩
      · exact .inl zero
      · exact .inr ⟨m', e', positive', value⟩
    · rw [← reading.exact exact short] at around
      exact ⟨_, Rounded.eq_of_around rounded canonical around⟩

end

/-! ## Texts of doubles -/

/-- The size of a unit in the last place of a double. -/
def lastPlace (x : Float) : ℚ :=
  match x.toModel.unpack with
  | .finite _ _ e _ => 2 ^ e
  | _ => 2 ^ (-1074 : Int)

/-- Whether the digits in the text of a double are a whole number that a double holds exactly, and
its power of ten is one as well. -/
def isShort (x : Float) : Bool :=
  match Decimal.Magnitude.ofFloat x with
  | .finite value =>
    value.significand = 0 ||
      IsExact (shownDecimal value).number && (shownDecimal value).power.natAbs ≤ 22
  | .infinite | .notANumber => true

/-- How a finite double is read back. -/
structure IsReadBack (x y : Float) : Prop where
  finite : y.isFinite = true
  sign : Decimal.isNegative y = Decimal.isNegative x
  near : |magnitude y.toModel.unpack - magnitude x.toModel.unpack| < 4 * lastPlace x
  exact : isShort x = true → y = x

theorem unpack_neg {x : Float} {u : UnpackedFloat} (h : x.toModel.unpack = u)
    (kept : (Float.Model.pack u.neg).unpack = u.neg) : (-x).toModel.unpack = u.neg := by
  change (Float.Model.pack x.toModel.unpack.neg).unpack = _
  rw [h, kept]

/-- A result with the sign of the double. -/
def withSign (s : Sign) (x : Float) : Float :=
  if isNegativeSign s then -x else x

theorem unpack_withSign_zero (s : Sign) {x : Float} (h : x.toModel.unpack = .zero .positive) :
    (withSign s x).toModel.unpack = .zero s := by
  cases s with
  | positive => exact h
  | negative => exact unpack_neg h (unpack_pack_zero .negative)

theorem unpack_withSign (s : Sign) {x : Float} {m : Nat} {e : Int} (h : IsPositive x m e) :
    ∃ positive, (withSign s x).toModel.unpack = .finite s m e positive := by
  obtain ⟨canonical, high⟩ := h.canonical
  obtain ⟨positive, value⟩ := h
  refine ⟨positive, ?_⟩
  cases s with
  | positive => exact value
  | negative => exact unpack_neg value (unpack_pack_canonical canonical high)

theorem isReadBack_withSign {x y : Float} {s : Sign} {m : Nat} {e : Int} {positive : 0 < m}
    (value : x.toModel.unpack = .finite s m e positive) (close : IsCloseBack m e y) :
    IsReadBack x (withSign s y) := by
  obtain ⟨shows, sign⟩ := magnitude_of_finite value
  obtain ⟨sign', size, finite⟩ : Decimal.isNegative (withSign s y) = isNegativeSign s ∧
      magnitude (withSign s y).toModel.unpack = magnitude y.toModel.unpack ∧
      (withSign s y).isFinite = true := by
    change _ ∧ _ ∧ (withSign s y).toModel.unpack.isFinite = true
    rcases close.positive with zero | ⟨m', e', positive'⟩
    · have zero' := unpack_withSign_zero s zero
      refine ⟨(magnitude_of_zero zero').2, ?_, ?_⟩ <;> rw [zero']
      · rw [zero, magnitude_zero, magnitude_zero]
      · rfl
    · obtain ⟨_, value'⟩ := unpack_withSign s positive'
      obtain ⟨_, value⟩ := positive'
      refine ⟨(magnitude_of_finite value').2, ?_, ?_⟩ <;> rw [value']
      · rw [value, magnitude_finite, magnitude_finite]
      · rfl
  refine ⟨finite, sign'.trans sign.symm, ?_, fun short => ?_⟩
  · rw [size, value, magnitude_finite, lastPlace, value]
    exact close.near
  · have nonzero : (binaryOf m e).significand ≠ 0 := positive.ne'
    simp only [isShort, shows, nonzero, decide_false, Bool.false_or, Bool.and_eq_true,
      decide_eq_true_eq] at short
    obtain ⟨exact, few⟩ := short
    obtain ⟨_, value'⟩ := unpack_withSign s (close.exact exact few)
    exact eq_of_unpack value' value

theorem isReadBack_zero {x : Float} {s : Sign} (zero : x.toModel.unpack = .zero s) :
    IsReadBack x x where
  finite := by
    change x.toModel.unpack.isFinite = true
    rw [zero]
    rfl
  sign := rfl
  near := by
    rw [sub_self, abs_zero, lastPlace, zero]
    exact mul_pos (by norm_num) (two_zpow_pos _)
  exact _ := rfl

/-- A text that is read as an unsigned number, behind a sign. -/
theorem numberText_signed {chars : List Char} {s : Sign} {n : Number}
    (h : unsignedNumber (isNegativeSign s) (encoded chars) = .ok (n, [])) :
    NumberText (Bytes.ofText ((if isNegativeSign s then "-" else "") ++ String.ofList chars)) n := by
  have minus : Bytes.ofText "-" = [minusSign] := rfl
  rw [Bytes.ofText_append, ofText_ofList, NumberText]
  cases s with
  | negative => exact h
  | positive =>
    change number (encoded chars) = _
    cases text : encoded chars with
    | nil =>
      rw [text] at h
      cases h
    | cons b bytes =>
      rw [text] at h
      have notMinus : b ≠ minusSign := by
        rintro rfl
        cases h
      rw [number, if_neg notMinus]
      exact h

theorem assemble_zero (negative : Bool) :
    assemble negative 0 (-1) = .ok (.double (if negative then -0 else 0)) := by
  have zero : scaleByTen scaleSteps (Float.ofNat 0) (-1) = some 0 := by decide
  rw [assemble, zero]

theorem unsignedNumber_zeros (negative : Bool) : unsignedNumber negative (encoded ['0', '.', '0']) =
    .ok (.double (if negative then -0 else 0), []) := by
  have zero : ReadsDigits [0x30] 0 0 := readsDigits_zeros (n := 1) (s := 0) (by decide)
  have read := unsignedNumber_pointed negative zero (.inl rfl) zero (List.cons_ne_nil _ _)
  have power : (-([0x30] : Bytes).length : Int) = -1 := rfl
  rw [power, assemble_zero] at read
  exact read

/-- The text of a finite double is read as a double close to it. -/
theorem numberText_double {x : Float} (finite : x.isFinite = true) :
    ∃ text y, floatText? x = some text ∧ NumberText (Bytes.ofText text) (.double y) ∧
      IsReadBack x y := by
  change x.toModel.unpack.isFinite = true at finite
  cases value : x.toModel.unpack with
  | notANumber => rw [value] at finite; cases finite
  | infinity => rw [value] at finite; cases finite
  | zero s =>
    obtain ⟨shows, sign⟩ := magnitude_of_zero value
    refine ⟨_, x, by rw [floatText?, shows], ?_, isReadBack_zero value⟩
    rw [if_pos rfl, sign]
    refine numberText_signed ?_
    rw [unsignedNumber_zeros]
    cases s with
    | negative => rw [eq_of_unpack_zero value (show (-0 : Float).toModel.unpack = _ from rfl)]; rfl
    | positive => rw [eq_of_unpack_zero value (show (0 : Float).toModel.unpack = _ from rfl)]; rfl
  | finite s m e positive =>
    obtain ⟨shows, sign⟩ := magnitude_of_finite value
    obtain ⟨canonical, high⟩ := isCanonical_unpack value
    obtain ⟨positive', few, low, top, -⟩ := Decimal.shortest_spec canonical high rfl
    obtain ⟨fits, read⟩ := unsignedNumber_positiveText (isNegativeSign s) rfl positive'
      (few.trans (by decide)) low top
    obtain ⟨y, found, close⟩ := exists_scaledBack canonical high fits
    rw [assemble, show scaleByTen _ _ _ = some y from found] at read
    refine ⟨_, withSign s y, by rw [floatText?, shows], ?_, isReadBack_withSign value close⟩
    have nonzero : (binaryOf m e).significand ≠ 0 := positive.ne'
    rw [if_neg nonzero, sign]
    exact numberText_signed read

/-- A double that is not finite has no text. -/
theorem floatText?_eq_none {x : Float} (infinite : x.isFinite = false) : floatText? x = none := by
  rw [floatText?]
  rcases magnitude_of_not_finite infinite with shows | shows <;> rw [shows]

/-- What is read of the text of a double, or zero if it has none. -/
def readBack (x : Float) : Float :=
  match number (Bytes.ofText (numberText (.double x))) with
  | .ok (n, _) => n.toFloat
  | .error _ => 0

theorem numberText_readBack {x : Float} (finite : x.isFinite = true) :
    NumberText (Bytes.ofText (numberText (.double x))) (.double (readBack x)) ∧
      IsReadBack x (readBack x) := by
  obtain ⟨text, y, written, isNumber, back⟩ := numberText_double finite
  have text_eq : numberText (.double x) = text := by rw [numberText, written, Option.getD_some]
  have read : readBack x = y := by
    rw [readBack, text_eq, show number (Bytes.ofText text) = _ from isNumber]
    rfl
  rw [text_eq, read]
  exact ⟨isNumber, back⟩

theorem numberText_not_finite {x : Float} (infinite : x.isFinite = false) :
    numberText (.double x) = "null" := by
  rw [numberText, floatText?_eq_none infinite, Option.getD_none]

end TokenTariff.Json
