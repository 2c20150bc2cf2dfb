import TokenTariff.Proofs.Doubles
import TokenTariff.Proofs.Json.Documents
/-!
# What JSON numbers stand for

The double that is nearest to a number in a JSON text is always a number, finite or not: it is made
of a whole number by operations on powers of ten that are doubles themselves.

* `Number.IsProper`: a number that stands for one;
* `readsProper_number`: so do all that are read;
* `ObjectText.isProper`: so do those in an object in an object.
-/

namespace TokenTariff.Json
set_option autoImplicit false

open Double

/-! ## Significands and powers of ten -/

theorem isNumber_scaleByTen :
    ∀ (steps : Nat) {x y : Float} {power : Int}, IsNumber x →
      scaleByTen steps x power = some y → IsNumber y
  | steps, x, y, power, isNumber, h => by
    unfold scaleByTen at h
    split at h
    · next small =>
      have scale : IsScale (powerOfTen power.natAbs) := isScale_powerOfTen small
      split at h
      · simp only at h
        split at h
        · cases h
        · exact Option.some.inj h ▸ isNumber.mul scale
      · exact Option.some.inj h ▸ isNumber.div scale
    split at h
    · exact Option.some.inj h ▸ isNumber
    split at h
    · cases h
    cases steps with
    | zero => exact Option.some.inj h ▸ isNumber_ofNat 0
    | succ steps =>
      have scale : IsScale (powerOfTen greatestPower) := isScale_powerOfTen (le_refl _)
      exact isNumber_scaleByTen steps (isNumber.div scale) h

/-- A number that stands for a number, finite or not. -/
def Number.IsProper (n : Number) : Prop := IsNumber n.toFloat

theorem isProper_assemble {negative : Bool} {significand : Nat} {power : Int} {n : Number}
    (h : assemble negative significand power = .ok n) : n.IsProper := by
  unfold assemble at h
  split at h
  · cases h
  · next x scaled =>
    have isNumber := isNumber_scaleByTen _ (isNumber_ofNat significand) scaled
    cases h
    cases negative
    · exact isNumber
    · exact isNumber.neg

theorem isProper_ofWhole (negative : Bool) (significand : Nat) :
    (ofWhole negative significand).IsProper := by
  unfold ofWhole
  split
  · exact isNumber_ofInt _
  · split
    · exact (isNumber_ofNat significand).neg
    · exact isNumber_ofInt _

theorem isProper_assembleExponent {negative down : Bool} {significand exponent : Nat}
    {power : Int} {n : Number}
    (h : assembleExponent negative significand power down exponent = .ok n) : n.IsProper := by
  unfold assembleExponent at h
  split at h
  · exact isProper_assemble h
  split at h
  · cases h
  · have zero : IsNumber 0.0 := by
      unfold IsNumber
      decide +kernel
    cases h
    cases negative
    · exact zero
    · exact zero.neg

/-! ## Readers -/

/-- Whether all that a reader of numbers gives stands for a number. -/
def ReadsProper (read : Reader Number) : Prop :=
  ∀ {bytes rest n}, read bytes = .ok (n, rest) → n.IsProper

theorem isProper_of_map {result : Except Error Number} (proper : ∀ {n}, result = .ok n → n.IsProper)
    {bytes rest : Bytes} {n : Number} (h : result.map (·, bytes) = .ok (n, rest)) : n.IsProper := by
  obtain ⟨n', found, e⟩ := map_eq_ok_iff.1 h
  cases e
  exact proper found

section
variable (negative : Bool) (significand : Nat)

theorem readsProper_exponentDigits (power : Int) (down : Bool) :
    ReadsProper (exponentDigits negative significand power down) := by
  intro bytes rest n h
  unfold exponentDigits at h
  simp only at h
  split at h
  · cases h
  · exact isProper_of_map isProper_assembleExponent h

theorem readsProper_exponentPart (power : Int) :
    ReadsProper (exponentPart negative significand power) := by
  intro bytes rest n h
  unfold exponentPart at h
  split at h
  · split at h
    · exact readsProper_exponentDigits _ _ _ _ h
    · split at h
      · exact readsProper_exponentDigits _ _ _ _ h
      · exact readsProper_exponentDigits _ _ _ _ h
  · exact readsProper_exponentDigits _ _ _ _ h

theorem readsProper_optionalExponent (power : Int) :
    ReadsProper (optionalExponent negative significand power) := by
  intro bytes rest n h
  unfold optionalExponent at h
  split at h
  · split at h
    · exact readsProper_exponentPart _ _ _ h
    · exact isProper_of_map isProper_assemble h
  · exact isProper_of_map isProper_assemble h

theorem readsProper_fractionPart (power : Int) :
    ReadsProper (fractionPart negative significand power) := by
  intro bytes rest n h
  unfold fractionPart at h
  simp only at h
  split at h
  · cases h
  · exact readsProper_optionalExponent _ _ _ h

theorem readsProper_afterWholePart (dropped : Nat) :
    ReadsProper (afterWholePart negative significand dropped) := by
  have ends {bytes rest : Bytes} {n : Number}
      (h : (if dropped = 0 then .ok (ofWhole negative significand, bytes)
        else (assemble negative significand dropped).map (·, bytes)) = .ok (n, rest)) :
      n.IsProper := by
    split at h
    · cases h
      exact isProper_ofWhole negative significand
    · exact isProper_of_map isProper_assemble h
  intro bytes rest n h
  unfold afterWholePart at h
  split at h
  · split at h
    · exact readsProper_fractionPart _ _ _ h
    · split at h
      · exact readsProper_exponentPart _ _ _ h
      · exact ends h
  · exact ends h

end

theorem readsProper_unsignedNumber (negative : Bool) : ReadsProper (unsignedNumber negative) := by
  intro bytes rest n h
  unfold unsignedNumber at h
  split at h
  · cases h
  · split at h
    · split at h
      · cases h
      · exact readsProper_afterWholePart _ _ _ h
    · split at h
      · exact readsProper_afterWholePart _ _ _ h
      · cases h

/-- What is read as a number stands for a number. -/
theorem readsProper_number : ReadsProper number := by
  intro bytes rest n h
  unfold number at h
  split at h
  · cases h
  · split at h
    · exact readsProper_unsignedNumber _ h
    · exact readsProper_unsignedNumber _ h

/-! ## Numbers in documents -/

section
variable {α : Type} {Part : Bytes → α → Prop} {text : Bytes} {parts : List α}

theorem Sequence.exists_text (h : Sequence Part text parts) :
    ∀ part ∈ parts, ∃ text, Part text part := by
  induction h with
  | last isPart blanks =>
    intro part mem
    exact ⟨_, List.mem_singleton.1 mem ▸ isPart⟩
  | more isPart blanks blanks' tail ih =>
    intro part mem
    rcases List.mem_cons.1 mem with rfl | mem
    · exact ⟨_, isPart⟩
    · exact ih part mem

theorem Enclosed.exists_text {kind : Composite} (h : Enclosed kind Part text parts) :
    ∀ part ∈ parts, ∃ text, Part text part := by
  cases h with
  | empty blanks => exact nofun
  | filled blanks sequence => exact sequence.exists_text

end

/-- Whether a number, and each number that is a member of an object, stands for a number. -/
def Value.IsProper : Value → Prop
  | .number n => n.IsProper
  | .object members => ∀ name n, (name, .number n) ∈ members → n.IsProper
  | _ => True

theorem ScalarText.isProper {text : Bytes} {v : Value} (h : ScalarText text v) : v.IsProper := by
  cases h with
  | word h => rcases value_of_word? h with rfl | ⟨_, rfl⟩ <;> trivial
  | string _ => trivial
  | number h => exact readsProper_number h

theorem CompositeText.isProper {Text : Bytes → Value → Prop}
    (inside : ∀ text v, Text text v → v.IsProper) {text : Bytes} {v : Value}
    (h : CompositeText Text text v) : v.IsProper := by
  cases h with
  | list _ => trivial
  | object enclosed =>
    intro name n mem
    obtain ⟨_, _, _, _, inner, -, -, -, isValue, -⟩ := enclosed.exists_text _ mem
    exact inside inner _ isValue

theorem ValueText.isProper {Document : String → Value → Prop}
    (inside : ∀ string v, Document string v → v.IsProper) :
    ∀ (depth : Nat) (text : Bytes) (v : Value), ValueText Document depth text v → v.IsProper
  | 0, _, _, h => ScalarText.isProper h
  | depth + 1, _, _, h => by
    rcases h with scalar | ⟨composite, -⟩ | ⟨string, -, isDocument⟩
    · exact scalar.isProper
    · exact composite.isProper (ValueText.isProper inside depth)
    · exact inside string _ isDocument

theorem DocumentText.isProper : ∀ (levels : Nat) (string : String) (v : Value),
    DocumentText levels string v → v.IsProper
  | levels + 1, _, _, ⟨_, _, _, _, _, isValue, _⟩ =>
    isValue.isProper (DocumentText.isProper levels)

/-- A number in an object in an object stands for a number. -/
theorem ObjectText.isProper {text : Bytes} {members fields : List (String × Value)}
    {name field : String} {n : Number} (h : ObjectText text members)
    (member : (name, .object fields) ∈ members) (inner : (field, .number n) ∈ fields) :
    n.IsProper := by
  obtain ⟨_, _, _, _, text', -, -, -, isValue, -⟩ := Enclosed.exists_text h _ member
  have proper : (Value.object fields).IsProper := by
    refine isValue.isProper ?_
    rintro string v ⟨levels, isDocument⟩
    exact isDocument.isProper
  exact proper field n inner

end TokenTariff.Json
