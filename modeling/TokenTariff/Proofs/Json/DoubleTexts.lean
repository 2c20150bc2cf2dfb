import TokenTariff.Json.FloatText
import TokenTariff.Proofs.Json.WholeNumbers
/-!
# Texts of doubles

The text of a double shows a whole number and a power of ten, which is what is read from it,
whether the text is written out or has an exponent (`unsignedNumber_positiveText`).

* `shownDecimal`: the whole number and the power;
* `unsignedNumber_whole`, `afterWholePart_fraction`, `exponentPart_signed`: how the parts of a number
  are read.
-/

namespace TokenTariff.Json
set_option autoImplicit false

/-! ## Digits -/

theorem extendSignificand_split {a b : Bytes} : ∀ {s m : Nat},
    extendSignificand s (a ++ b) = (m, 0) →
      ∃ k, extendSignificand s a = (k, 0) ∧ extendSignificand k b = (m, 0) := by
  induction a with
  | nil => exact fun h => ⟨_, rfl, h⟩
  | cons d a ih =>
    intro s m h
    simp only [extendSignificand, List.cons_append] at h ⊢
    split at h
    · next fits =>
      rw [if_pos fits]
      exact ih h
    · cases h

theorem foldl_of_extendSignificand : ∀ {digits : Bytes} {s m : Nat},
    extendSignificand s digits = (m, 0) → digits.foldl (fun n d => n * 10 + digitValue d) s = m
  | [], _, _, h => (Prod.mk.inj h).1
  | d :: digits, s, m, h => by
    simp only [extendSignificand] at h
    split at h
    · rw [List.foldl_cons]
      exact foldl_of_extendSignificand h
    · cases h

theorem extendSignificand_zeros : ∀ {n s : Nat}, s * 10 ^ n < significandLimit →
    extendSignificand s (List.replicate n 0x30) = (s * 10 ^ n, 0)
  | 0, s, _ => by simp [extendSignificand]
  | n + 1, s, fits => by
    rw [pow_succ', ← Nat.mul_assoc] at fits ⊢
    have next : s * 10 + digitValue 0x30 = s * 10 := rfl
    rw [List.replicate_succ, extendSignificand]
    simp only [next]
    rw [if_pos (lt_of_le_of_lt (Nat.le_mul_of_pos_right _ (Nat.pow_pos (by decide))) fits)]
    exact extendSignificand_zeros fits

/-- A text of digits that leads from one significand to another. -/
structure ReadsDigits (text : Bytes) (before after : Nat) : Prop where
  digits : ∀ d ∈ text, isDigit d = true
  value : extendSignificand before text = (after, 0)

theorem ReadsDigits.append {a b : Bytes} {k m n : Nat} (ha : ReadsDigits a k m)
    (hb : ReadsDigits b m n) : ReadsDigits (a ++ b) k n where
  digits d mem := (List.mem_append.1 mem).elim (ha.digits d) (hb.digits d)
  value := (extendSignificand_append ha.value).trans hb.value

theorem ReadsDigits.split {a b : Bytes} {k n : Nat} (h : ReadsDigits (a ++ b) k n) :
    ∃ m, ReadsDigits a k m ∧ ReadsDigits b m n := by
  obtain ⟨m, first, second⟩ := extendSignificand_split h.value
  exact ⟨m, ⟨fun d mem => h.digits d (List.mem_append_left _ mem), first⟩,
    ⟨fun d mem => h.digits d (List.mem_append_right _ mem), second⟩⟩

theorem readsDigits_zeros {n s : Nat} (fits : s * 10 ^ n < significandLimit) :
    ReadsDigits (List.replicate n 0x30) s (s * 10 ^ n) where
  digits d mem := by
    rw [List.eq_of_mem_replicate mem]
    rfl
  value := extendSignificand_zeros fits

/-! ## Parts of numbers -/

section
variable (negative : Bool) {whole fraction rest : Bytes} {significand : Nat}

/-- A number starts with a single zero or with digits the first of which is not zero. -/
theorem unsignedNumber_whole (digits : ReadsDigits whole 0 significand)
    (lead : whole = [0x30] ∨ ∃ b tail, whole = b :: tail ∧ b ≠ 0x30) (no : NoDigit rest) :
    unsignedNumber negative (whole ++ rest) = afterWholePart negative significand 0 rest := by
  rcases lead with rfl | ⟨b, tail, rfl, nonzero⟩
  · obtain rfl : significand = 0 := (Prod.mk.inj digits.value).1.symm
    rw [List.singleton_append, unsignedNumber_zero, afterZero, noDigit_iff.1 no]
    rfl
  · rw [List.cons_append,
      unsignedNumber_digit negative nonzero (digits.digits b List.mem_cons_self), wholeDigits,
      ← List.cons_append, takeWhile_digits digits.digits no, dropWhile_digits digits.digits no,
      digits.value]

theorem afterWholePart_fraction {s : Nat} (digits : ReadsDigits fraction s significand)
    (nonempty : fraction ≠ []) (no : NoDigit rest) :
    afterWholePart negative s 0 (point :: (fraction ++ rest)) =
      optionalExponent negative significand (-fraction.length) rest := by
  rw [afterWholePart, if_pos rfl, fractionPart]
  simp only [takeWhile_digits digits.digits no, dropWhile_digits digits.digits no, digits.value]
  rw [if_neg (by simpa using nonempty)]
  simp

theorem exponentPart_signed (significand : Nat) (power : Int) {exponent : Nat} (down : Bool)
    (few : exponent < significandLimit) :
    exponentPart negative significand power
      ((if down then minusSign else plusSign) :: Bytes.ofText exponent.repr) =
      (assembleExponent negative significand power down exponent).map (·, []) := by
  obtain ⟨d, ds, text, digits, -, value⟩ := ofText_repr_spec exponent few
  have read : exponentDigits negative significand power down (Bytes.ofText exponent.repr) =
      (assembleExponent negative significand power down exponent).map (·, []) := by
    have noMore : NoDigit [] := nofun
    have takeAll := takeWhile_digits digits noMore
    have dropAll := dropWhile_digits digits noMore
    rw [List.append_nil] at takeAll dropAll
    rw [text, exponentDigits]
    simp only [takeAll, dropAll, foldl_of_extendSignificand value]
    rfl
  cases down with
  | true => exact read
  | false => exact read

/-- Digits on both sides of a point. -/
theorem unsignedNumber_pointed {s : Nat} (digits : ReadsDigits whole 0 s)
    (lead : whole = [0x30] ∨ ∃ b tail, whole = b :: tail ∧ b ≠ 0x30)
    (digits' : ReadsDigits fraction s significand) (nonempty : fraction ≠ []) :
    unsignedNumber negative (whole ++ point :: fraction) =
      (assemble negative significand (-fraction.length)).map (·, []) := by
  have noMore : NoDigit [] := nofun
  have read := afterWholePart_fraction negative digits' nonempty noMore
  rw [List.append_nil] at read
  have no : NoDigit (point :: fraction) := by rintro b ⟨⟩; rfl
  rw [unsignedNumber_whole negative digits lead no, read, optionalExponent]

end

/-! ## Digits of the shortest decimal -/

def encoded (chars : List Char) : Bytes :=
  chars.flatMap String.utf8EncodeChar

theorem ofText_ofList (chars : List Char) : Bytes.ofText (String.ofList chars) = encoded chars := by
  rw [Bytes.ofText, String.toList_ofList, encoded]

theorem encoded_append (a b : List Char) : encoded (a ++ b) = encoded a ++ encoded b :=
  List.flatMap_append

theorem encoded_zeros (n : Nat) : encoded (List.replicate n '0') = List.replicate n 0x30 := by
  induction n with
  | zero => rfl
  | succ n ih =>
    rw [List.replicate_succ, List.replicate_succ, ← ih]
    rfl

theorem encoded_digits (n : Nat) : encoded (Nat.toDigits 10 n) = Bytes.ofText n.repr := by
  rw [Bytes.ofText, Nat.toList_repr, encoded]

theorem encode_digit {c : Char} (h : c.isDigit = true) :
    String.utf8EncodeChar c = [UInt8.ofNat c.toNat] := by
  simp only [Char.isDigit, Bool.and_eq_true, decide_eq_true_eq, ge_iff_le,
    UInt32.le_iff_toNat_le] at h
  have small : c.toNat ≤ 57 := h.2
  exact Bytes.encode_eq_one_iff.2
    ⟨by omega, UInt8.toNat_ofNat_of_lt' (show c.toNat < 256 by omega)⟩

theorem length_encoded {chars : List Char} (h : ∀ c ∈ chars, c.isDigit = true) :
    (encoded chars).length = chars.length := by
  induction chars with
  | nil => rfl
  | cons c chars ih =>
    have rest := ih fun d mem => h d (List.mem_cons_of_mem _ mem)
    rw [encoded] at rest ⊢
    rw [List.flatMap_cons, encode_digit (h c List.mem_cons_self), List.singleton_append,
      List.length_cons, rest, List.length_cons]

/-- The digits of a number, wherever they are split. -/
theorem digits_take_drop {n : Nat} (positive : 0 < n) (fits : n < significandLimit) (k : Nat) :
    ∃ m, ReadsDigits (encoded ((Nat.toDigits 10 n).take k)) 0 m ∧
      ReadsDigits (encoded ((Nat.toDigits 10 n).drop k)) m n ∧
      (0 < k → ∃ b tail, encoded ((Nat.toDigits 10 n).take k) = b :: tail ∧ b ≠ 0x30) ∧
      (encoded ((Nat.toDigits 10 n).drop k)).length = (Nat.toDigits 10 n).length - k := by
  have isDigit : ∀ c ∈ Nat.toDigits 10 n, c.isDigit = true := fun c mem =>
    Nat.isDigit_of_mem_toDigits (by decide) (by decide) mem
  obtain ⟨d, ds, text, digits, lead, value⟩ := ofText_repr_spec n fits
  rw [← encoded_digits] at text
  have whole : ReadsDigits (encoded (Nat.toDigits 10 n)) 0 n := by
    rw [text]
    exact ⟨digits, value⟩
  rw [← List.take_append_drop k (Nat.toDigits 10 n), encoded_append] at whole
  obtain ⟨m, first, second⟩ := whole.split
  refine ⟨m, first, second, fun notNone => ?_, ?_⟩
  · obtain ⟨j, rfl⟩ : ∃ j, k = j + 1 := ⟨k - 1, by omega⟩
    cases chars : Nat.toDigits 10 n with
    | nil => exact absurd chars Nat.toDigits_ne_nil
    | cons c chars' =>
      rw [chars] at text isDigit
      have front : encoded (c :: chars') = UInt8.ofNat c.toNat :: encoded chars' := by
        rw [encoded, List.flatMap_cons, encode_digit (isDigit c List.mem_cons_self)]
        rfl
      rw [front] at text
      obtain ⟨rfl, -⟩ := List.cons.inj text
      refine ⟨_, encoded (chars'.take j), ?_, fun zero => positive.ne' (lead zero)⟩
      rw [List.take_succ_cons, encoded, List.flatMap_cons, encode_digit (isDigit c List.mem_cons_self)]
      rfl
  · rw [length_encoded fun c mem => isDigit c (List.mem_of_mem_drop mem), List.length_drop]

/-! ## Texts -/

/-- The whole number and the power of ten that the text of a double shows. A whole double that is
written out shows a zero behind the point. -/
def shownDecimal (value : Decimal.Binary) : Decimal.Digits :=
  let shortest := Decimal.shortest value
  if 0 ≤ shortest.power &&
      isWrittenOut (shortest.power + (Nat.toDigits 10 shortest.number).length - 1) then
    ⟨shortest.number * 10 ^ (shortest.power.toNat + 1), -1⟩
  else shortest

section
variable {digits : List Char} {place : Int}

theorem writtenOut_below (low : place ≤ 0) (nonempty : digits ≠ []) :
    writtenOut digits place = ['0'] ++ '.' :: (List.replicate (-place).toNat '0' ++ digits) := by
  have none : place.toNat = 0 := by omega
  have none' : (place - digits.length).toNat = 0 := by omega
  rw [writtenOut]
  simp [none, none', nonempty]

theorem writtenOut_between (low : 0 < place) (high : place < digits.length) :
    writtenOut digits place = digits.take place.toNat ++ '.' :: digits.drop place.toNat := by
  have none : (-place).toNat = 0 := by omega
  have none' : (place - digits.length).toNat = 0 := by omega
  have nonempty : digits ≠ [] := by
    rintro rfl
    rw [List.length_nil] at high
    omega
  have before : place.toNat ≠ 0 := by omega
  have after : ¬ digits.length ≤ place.toNat := by omega
  rw [writtenOut]
  simp [none, none', nonempty, before, after]

theorem writtenOut_above (high : digits.length ≤ place) (nonempty : digits ≠ []) :
    writtenOut digits place =
      (digits ++ List.replicate (place - digits.length).toNat '0') ++ '.' :: ['0'] := by
  have none : (-place).toNat = 0 := by omega
  have all : digits.length ≤ place.toNat := by omega
  rw [writtenOut]
  simp [none, List.take_of_length_le all, List.drop_of_length_le all, nonempty]

end

section
variable (negative : Bool) {n : Nat} {power : Int}

theorem encoded_point (chars : List Char) : encoded ('.' :: chars) = point :: encoded chars := rfl

theorem encoded_pointed (a b : List Char) :
    encoded (a ++ '.' :: b) = encoded a ++ point :: encoded b := by
  rw [encoded_append, encoded_point]

theorem unsignedNumber_writtenOut (positive : 0 < n) (fits : n < significandLimit)
    (down : power < 0) : unsignedNumber negative (encoded
      (writtenOut (Nat.toDigits 10 n) (power + (Nat.toDigits 10 n).length))) =
      (assemble negative n power).map (·, []) := by
  have nonempty : Nat.toDigits 10 n ≠ [] := Nat.toDigits_ne_nil
  by_cases low : power + (Nat.toDigits 10 n).length ≤ 0
  · obtain ⟨m, none, digits, -, length⟩ := digits_take_drop positive fits 0
    obtain rfl : m = 0 := (Prod.mk.inj none.value).1.symm
    rw [List.drop_zero] at digits length
    have someDigits : encoded (Nat.toDigits 10 n) ≠ [] := fun none => by
      have := List.length_pos_iff.2 nonempty
      rw [none, List.length_nil] at length
      omega
    have zeros := readsDigits_zeros (n := (-(power + (Nat.toDigits 10 n).length)).toNat) (s := 0)
      (by rw [Nat.zero_mul]; decide)
    rw [Nat.zero_mul] at zeros
    have zero : ReadsDigits [0x30] 0 0 := readsDigits_zeros (n := 1) (s := 0) (by decide)
    rw [writtenOut_below low nonempty, encoded_pointed, encoded_append, encoded_zeros]
    change unsignedNumber negative ([0x30] ++ _) = _
    rw [unsignedNumber_pointed negative zero (.inl rfl) (zeros.append digits)
      (List.append_ne_nil_of_right_ne_nil _ someDigits),
      List.length_append, List.length_replicate, length]
    congr 3
    omega
  · generalize place : power + (Nat.toDigits 10 n).length = p at low
    obtain ⟨m, before, after, lead, length⟩ := digits_take_drop positive fits p.toNat
    rw [writtenOut_between (by omega) (by omega), encoded_pointed,
      unsignedNumber_pointed negative before (.inr (lead (by omega))) after
        (fun none => by rw [none, List.length_nil] at length; omega), length]
    congr 3
    omega

theorem unsignedNumber_whole_writtenOut (positive : 0 < n)
    (fits : n * 10 ^ (power.toNat + 1) < significandLimit) (up : 0 ≤ power) :
    unsignedNumber negative (encoded
      (writtenOut (Nat.toDigits 10 n) (power + (Nat.toDigits 10 n).length))) =
      (assemble negative (n * 10 ^ (power.toNat + 1)) (-1)).map (·, []) := by
  have nonempty : Nat.toDigits 10 n ≠ [] := Nat.toDigits_ne_nil
  have less : n * 10 ^ power.toNat < significandLimit :=
    lt_of_le_of_lt (Nat.mul_le_mul_left n (Nat.pow_le_pow_right (by decide) (Nat.le_succ _))) fits
  have less' : n < significandLimit :=
    lt_of_le_of_lt (Nat.le_mul_of_pos_right n (Nat.pow_pos (by decide))) less
  obtain ⟨m, digits, none, lead, -⟩ :=
    digits_take_drop positive less' (Nat.toDigits 10 n).length
  rw [List.take_length] at digits lead
  rw [List.drop_length] at none
  obtain rfl : m = n := (Prod.mk.inj none.value).1
  have zeros := readsDigits_zeros less
  have last : ReadsDigits [0x30] (m * 10 ^ power.toNat) (m * 10 ^ power.toNat * 10 ^ 1) :=
    readsDigits_zeros (n := 1) (by rwa [Nat.mul_assoc, ← Nat.pow_add])
  obtain ⟨b, tail, front, nonzero⟩ := lead (List.length_pos_iff.2 nonempty)
  have power_eq : power + (Nat.toDigits 10 m).length - (Nat.toDigits 10 m).length = power := by omega
  rw [writtenOut_above (by omega) nonempty, encoded_pointed, encoded_append, encoded_zeros, power_eq]
  change unsignedNumber negative (_ ++ point :: [0x30]) = _
  rw [unsignedNumber_pointed negative (digits.append zeros) (.inr ⟨b, _, by rw [front]; rfl, nonzero⟩) last
    (List.cons_ne_nil _ _), Nat.mul_assoc, ← Nat.pow_add]
  rfl

/-- The letter of an exponent and the exponent. -/
def exponentText (exponent : Int) : Bytes :=
  0x65 :: (if exponent < 0 then minusSign else plusSign) :: Bytes.ofText exponent.natAbs.repr

theorem encoded_exponent (exponent : Int) :
    encoded ('e' :: (if exponent < 0 then '-' else '+') :: Nat.toDigits 10 exponent.natAbs) =
      exponentText exponent := by
  rw [exponentText, ← encoded_digits]
  split <;> rfl

/-- What an exponent makes of the digits before it. -/
theorem exponentPart_exponentText {significand : Nat} {exponent : Int}
    (few : exponent.natAbs ≤ greatestExponent) :
    exponentPart negative significand power (exponentText exponent).tail =
      (assemble negative significand (power + exponent)).map (·, []) := by
  have fits : exponent.natAbs < significandLimit := few.trans_lt (by decide)
  have read := exponentPart_signed negative significand power (decide (exponent < 0)) fits
  simp only [decide_eq_true_eq] at read
  rw [exponentText, List.tail_cons, read, assembleExponent, if_pos few]
  congr 2
  simp only [decide_eq_true_eq]
  split <;> omega

theorem unsignedNumber_withExponent (positive : 0 < n) (fits : n < significandLimit)
    (few : (power + (Nat.toDigits 10 n).length - 1).natAbs ≤ greatestExponent) :
    unsignedNumber negative (encoded
      (withExponent (Nat.toDigits 10 n) (power + (Nat.toDigits 10 n).length - 1))) =
      (assemble negative n power).map (·, []) := by
  have nonempty := List.length_pos_iff.2 (Nat.toDigits_ne_nil (n := n) (b := 10))
  obtain ⟨m, before, after, lead, length⟩ := digits_take_drop positive fits 1
  generalize exponent_eq : power + (Nat.toDigits 10 n).length - 1 = exponent at few
  rw [withExponent, List.append_assoc, encoded_append, encoded_append, encoded_exponent]
  have mark : exponentText exponent = 0x65 :: (exponentText exponent).tail := rfl
  have isMark : isExponentMark 0x65 = true := rfl
  have no : NoDigit (exponentText exponent) := by rintro b ⟨⟩; rfl
  by_cases single : (Nat.toDigits 10 n).drop 1 = []
  · rw [single] at after length
    obtain rfl : m = n := (Prod.mk.inj after.value).1
    have one : (Nat.toDigits 10 m).length = 1 := by
      have : encoded [] = [] := rfl
      rw [this, List.length_nil] at length
      omega
    have power_eq : ((0 : Nat) : Int) + exponent = power := by omega
    rw [single, List.isEmpty_nil, if_pos rfl]
    change unsignedNumber negative (_ ++ exponentText exponent) = _
    rw [unsignedNumber_whole negative before (.inr (lead (by decide))) no, mark, afterWholePart,
      if_neg (by decide), if_pos isMark, exponentPart_exponentText negative few, power_eq]
  · have nonempty : encoded ((Nat.toDigits 10 n).drop 1) ≠ [] := fun none => by
      rw [none, List.length_nil] at length
      have := List.length_pos_iff.2 single
      rw [List.length_drop] at this
      omega
    have no' : NoDigit (point :: (encoded ((Nat.toDigits 10 n).drop 1) ++ exponentText exponent)) := by
      rintro b ⟨⟩
      rfl
    have power_eq : -((Nat.toDigits 10 n).length - 1 : Nat) + exponent = power := by omega
    rw [if_neg (by simpa using single), encoded_point, List.cons_append,
      unsignedNumber_whole negative before (.inr (lead (by decide))) no',
      afterWholePart_fraction negative after nonempty no, mark, optionalExponent, if_pos isMark,
      exponentPart_exponentText negative few, length, power_eq]

/-- The text of a double shows its decimal. -/
theorem unsignedNumber_positiveText {value : Decimal.Binary} {found : Decimal.Digits}
    (h : Decimal.shortest value = found) (positive : 0 < found.number)
    (fits : found.number < significandLimit) (low : -324 ≤ found.power)
    (high : found.power < Decimal.topPower) :
    (shownDecimal value).number < significandLimit ∧
    unsignedNumber negative (encoded (positiveText value)) =
      (assemble negative (shownDecimal value).number (shownDecimal value).power).map (·, []) := by
  have length : (Nat.toDigits 10 found.number).length ≤ 20 :=
    (Nat.length_toDigits_le_iff (by decide) (by decide)).2 (fits.trans (by decide))
  have nonempty := List.length_pos_iff.2 (Nat.toDigits_ne_nil (n := found.number) (b := 10))
  rw [Decimal.topPower] at high
  rw [positiveText, shownDecimal, h]
  by_cases writes : isWrittenOut (found.power + (Nat.toDigits 10 found.number).length - 1) = true
  · have place : found.power + (Nat.toDigits 10 found.number).length - 1 + 1 =
        found.power + (Nat.toDigits 10 found.number).length := by omega
    rw [writes, if_pos rfl, place, Bool.and_true]
    by_cases up : 0 ≤ found.power
    · rw [if_pos (decide_eq_true up)]
      have few : found.number * 10 ^ (found.power.toNat + 1) < significandLimit := by
        simp only [isWrittenOut, Bool.and_eq_true, decide_eq_true_eq] at writes
        have digits : found.number < 10 ^ (Nat.toDigits 10 found.number).length :=
          (Nat.length_toDigits_le_iff (by decide) nonempty).1 le_rfl
        calc found.number * 10 ^ (found.power.toNat + 1)
            < 10 ^ (Nat.toDigits 10 found.number).length * 10 ^ (found.power.toNat + 1) :=
              Nat.mul_lt_mul_of_pos_right digits (Nat.pow_pos (by decide))
          _ = 10 ^ ((Nat.toDigits 10 found.number).length + (found.power.toNat + 1)) :=
            (Nat.pow_add ..).symm
          _ ≤ 10 ^ 17 := Nat.pow_le_pow_right (by decide) (by omega)
          _ < significandLimit := by decide
      exact ⟨few, unsignedNumber_whole_writtenOut negative positive few up⟩
    · rw [if_neg (by simpa using up)]
      exact ⟨fits, unsignedNumber_writtenOut negative positive fits (by omega)⟩
  · rw [if_neg writes, if_neg (by simp [writes])]
    refine ⟨fits, unsignedNumber_withExponent negative positive fits ?_⟩
    rw [greatestExponent]
    omega

end

end TokenTariff.Json
