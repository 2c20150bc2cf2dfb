import TokenTariff.Proofs.Json.Documents
/-!
# Texts of whole numbers

The decimal text of a whole number is read as that number (`numberText_int`), as long as it fits
into 64 bits.
-/

namespace TokenTariff.Json
set_option autoImplicit false

/-! ## Digits -/

theorem ofText_digitChar {d : Nat} (h : d < 10) :
    String.utf8EncodeChar (Nat.digitChar d) = [UInt8.ofNat (0x30 + d)] := by
  have all : ∀ d : Fin 10, String.utf8EncodeChar (Nat.digitChar d) = [UInt8.ofNat (0x30 + d)] := by
    decide
  exact all ⟨d, h⟩

theorem digit_spec {d : Nat} (h : d < 10) :
    isDigit (UInt8.ofNat (0x30 + d)) = true ∧ digitValue (UInt8.ofNat (0x30 + d)) = d ∧
      (UInt8.ofNat (0x30 + d) = 0x30 → d = 0) := by
  have all : ∀ d : Fin 10, isDigit (UInt8.ofNat (0x30 + d)) = true ∧
      digitValue (UInt8.ofNat (0x30 + d)) = d ∧ (UInt8.ofNat (0x30 + d) = 0x30 → (d : Nat) = 0) := by
    decide
  exact all ⟨d, h⟩

theorem ofText_repr_of_lt {n : Nat} (h : n < 10) :
    Bytes.ofText n.repr = [UInt8.ofNat (0x30 + n)] := by
  rw [Bytes.ofText, Nat.toList_repr, Nat.toDigits_of_lt_base h, List.flatMap_singleton,
    ofText_digitChar h]

theorem ofText_repr_of_ge {n : Nat} (h : 10 ≤ n) :
    Bytes.ofText n.repr = Bytes.ofText (n / 10).repr ++ [UInt8.ofNat (0x30 + n % 10)] := by
  rw [Bytes.ofText, Bytes.ofText, Nat.toList_repr, Nat.toList_repr,
    Nat.toDigits_of_base_le (by decide) h, List.flatMap_append, List.flatMap_singleton,
    ofText_digitChar (Nat.mod_lt n (by decide))]

theorem extendSignificand_append {a b : Bytes} :
    ∀ {s m : Nat}, extendSignificand s a = (m, 0) →
      extendSignificand s (a ++ b) = extendSignificand m b := by
  induction a with
  | nil =>
    intro s m h
    cases h
    rfl
  | cons d a ih =>
    intro s m h
    simp only [extendSignificand, List.cons_append] at h ⊢
    split at h
    · next fits =>
      rw [if_pos fits]
      exact ih h
    · cases h

/-- The digits of a number, the first of which is zero for zero only, and the significand that is
read from them. -/
theorem ofText_repr_spec (n : Nat) (fits : n < significandLimit) :
    ∃ d ds, Bytes.ofText n.repr = d :: ds ∧ (∀ c ∈ d :: ds, isDigit c = true) ∧
      (d = 0x30 → n = 0) ∧ extendSignificand 0 (d :: ds) = (n, 0) := by
  induction n using Nat.strongRecOn with
  | ind n ih =>
    by_cases small : n < 10
    · obtain ⟨digit, value, zero⟩ := digit_spec small
      refine ⟨_, [], ofText_repr_of_lt small, ?_, zero, ?_⟩
      · intro c mem
        rw [List.mem_singleton.1 mem, digit]
      · simp only [extendSignificand, value, Nat.zero_mul, Nat.zero_add]
        rw [if_pos fits]
    · have lt : n / 10 < n := by omega
      obtain ⟨d, ds, text, digits, zero, significand⟩ := ih (n / 10) lt (by omega)
      obtain ⟨digit, value, -⟩ := digit_spec (Nat.mod_lt n (show 0 < 10 by decide))
      refine ⟨d, ds ++ [UInt8.ofNat (0x30 + n % 10)], ?_, ?_, ?_, ?_⟩
      · rw [ofText_repr_of_ge (by omega), text]
        rfl
      · intro c mem
        rw [← List.cons_append] at mem
        rcases List.mem_append.1 mem with mem | mem
        · exact digits c mem
        · rw [List.mem_singleton.1 mem, digit]
      · intro isZero
        have := zero isZero
        omega
      · rw [← List.cons_append, extendSignificand_append significand]
        have whole : n / 10 * 10 + n % 10 = n := Nat.div_add_mod' n 10
        simp only [extendSignificand, value, whole]
        rw [if_pos fits]

/-! ## Numbers -/

theorem unsignedNumber_repr (negative : Bool) (n : Nat) (fits : n < significandLimit) :
    unsignedNumber negative (Bytes.ofText n.repr) = .ok (ofWhole negative n, []) := by
  by_cases zero : n = 0
  · subst zero
    rfl
  · obtain ⟨d, ds, text, digits, first, significand⟩ := ofText_repr_spec n fits
    have nonzero : d ≠ 0x30 := fun e => zero (first e)
    have noMore : NoDigit [] := nofun
    have takeAll := takeWhile_digits digits noMore
    have dropAll := dropWhile_digits digits noMore
    rw [List.append_nil] at takeAll dropAll
    rw [text, unsignedNumber, if_neg nonzero, if_pos (digits d List.mem_cons_self)]
    simp only [takeAll, dropAll, significand]
    rfl

theorem numberText_nat {n : Nat} (fits : n < significandLimit) :
    NumberText (Bytes.ofText n.repr) (.integer n) := by
  obtain ⟨d, ds, text, digits, -, -⟩ := ofText_repr_spec n fits
  have digit := digits d List.mem_cons_self
  have notMinus : d ≠ minusSign := by
    rintro rfl
    cases digit
  have read := unsignedNumber_repr false n fits
  rw [text] at read
  rw [NumberText, text, number, if_neg notMinus, read]
  rfl

theorem numberText_neg {n : Nat} (positive : 0 < n) (fits : n ≤ 0x8000000000000000) :
    NumberText (minusSign :: Bytes.ofText n.repr) (.integer (-n)) := by
  have small : n < significandLimit := by
    rw [significandLimit]
    omega
  rw [NumberText, number, if_pos rfl, unsignedNumber_repr true n small]
  simp only [ofWhole]
  rw [if_neg (by simp), if_neg (by omega)]

/-- The text of a whole number of 64 bits is read as that number. -/
theorem numberText_int {n : Int} (least : -0x8000000000000000 ≤ n) (greatest : n < significandLimit) :
    NumberText (Bytes.ofText (toString n)) (.integer n) := by
  cases n with
  | ofNat n => exact numberText_nat (Int.ofNat_lt.1 greatest)
  | negSucc n =>
    have text : Bytes.ofText (toString (Int.negSucc n)) =
        minusSign :: Bytes.ofText (n + 1).repr := by
      rw [show toString (Int.negSucc n) = "-" ++ (n + 1).repr from rfl, Bytes.ofText_append]
      rfl
    rw [text, Int.negSucc_eq]
    exact numberText_neg (by omega) (by omega)

/-- A whole number is taken as it was written. -/
theorem integer_toString {n : Int} (least : -0x8000000000000000 ≤ n)
    (greatest : n < 0x8000000000000000) {rest : Bytes} (stops : Stops rest) :
    integer (Bytes.ofText (toString n) ++ rest) = .ok (n, rest) := by
  have takes : Takes (scalar "i64") ScalarText := takes_scalarOr_error _
  have few : n < significandLimit := greatest.trans (by decide)
  rw [integer, takes.complete (.number (numberText_int least few)) stops]
  exact if_pos greatest

end TokenTariff.Json
