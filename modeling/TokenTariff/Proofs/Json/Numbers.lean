import TokenTariff.Json.Span
import TokenTariff.Proofs.Json.Delimiters
import TokenTariff.Proofs.Results
/-!
# Texts of numbers

The reader of numbers takes the longest number from the front. The text that it takes is read in
the same way whatever delimiter follows it, and it is one that the parts of a number, by which the
end of a value is found, go through to a complete number (`takesNumber_number`).

* `TakesNumber part r`: so it is for a reader `r` that goes on from `part`.
-/

namespace TokenTariff.Json
set_option autoImplicit false

namespace NumberPart

/-- The part to which a text leads; `none` if the number may not go on with it. -/
def run (part : NumberPart) (text : Bytes) : Option NumberPart :=
  text.foldlM next? part

theorem run_cons {part next : NumberPart} {b : UInt8} (h : part.next? b = some next)
    (text : Bytes) : part.run (b :: text) = next.run text := by
  rw [run, List.foldlM_cons, h]
  rfl

theorem run_cons_eq_some_iff {part last : NumberPart} {b : UInt8} {text : Bytes} :
    part.run (b :: text) = some last ↔ ∃ next, part.next? b = some next ∧ next.run text = some last := by
  rw [run, List.foldlM_cons]
  exact Option.bind_eq_some_iff

theorem run_append {part next : NumberPart} {a : Bytes} (h : part.run a = some next) (b : Bytes) :
    part.run (a ++ b) = next.run b := by
  rw [run, List.foldlM_append, ← run, h]
  rfl

/-- The parts that go on with any digits. -/
def takesDigits (part : NumberPart) : Prop :=
  ∀ d, isDigit d = true → part.next? d = some part

theorem run_digits {part : NumberPart} (h : part.takesDigits) :
    ∀ {digits : Bytes}, (∀ d ∈ digits, isDigit d = true) → part.run digits = some part
  | [], _ => rfl
  | d :: digits, all => by
    rw [run_cons (h d (all d List.mem_cons_self))]
    exact run_digits h fun c mem => all c (List.mem_cons_of_mem _ mem)

theorem takesDigits_whole : whole.takesDigits := fun _ h => if_pos h

theorem takesDigits_fraction : fraction.takesDigits := fun _ h => if_pos h

theorem takesDigits_exponent : exponent.takesDigits := fun _ h => if_pos h

/-- A first digit that leads to `next`, and any further ones. -/
theorem run_first_digits {part next : NumberPart} (h : next.takesDigits) {digits : Bytes}
    (first : ∀ d, isDigit d = true → part.next? d = some next) (nonempty : digits ≠ [])
    (all : ∀ d ∈ digits, isDigit d = true) : part.run digits = some next := by
  cases digits with
  | nil => exact absurd rfl nonempty
  | cons d digits =>
    rw [run_cons (first d (all d List.mem_cons_self))]
    exact run_digits h fun c mem => all c (List.mem_cons_of_mem _ mem)

end NumberPart

/-- A reader takes a text that is the same whatever delimiter follows it, and that leads from
`part` to a complete number. -/
def TakesNumber (part : NumberPart) (r : Reader Number) : Prop :=
  ∀ bytes n rest, r bytes = .ok (n, rest) →
    ∃ text, bytes = text ++ rest ∧ (∀ rest', Stops rest' → r (text ++ rest') = .ok (n, rest')) ∧
      ∃ last, part.run text = some last ∧ last.isComplete = true

/-! ## Exponents -/

/-- The digits at the front of a text, and what follows them. -/
theorem digits_of_front (bytes : Bytes) :
    bytes = bytes.takeWhile isDigit ++ bytes.dropWhile isDigit ∧
      (∀ d ∈ bytes.takeWhile isDigit, isDigit d = true) ∧ NoDigit (bytes.dropWhile isDigit) :=
  ⟨List.takeWhile_append_dropWhile.symm, fun _ mem => List.mem_takeWhile_imp mem,
    noDigit_dropWhile bytes⟩

/-- What has been read goes on to the end of a text, and is complete there. -/
theorem map_pair_eq_ok_iff {x : Except Error Number} {n : Number} {tail rest : Bytes} :
    x.map (·, tail) = .ok (n, rest) ↔ x = .ok n ∧ tail = rest := by
  rw [map_eq_ok_iff]
  constructor
  · rintro ⟨_, found, e⟩
    obtain ⟨rfl, rfl⟩ := Prod.mk.inj e
    exact ⟨found, rfl⟩
  · rintro ⟨found, rfl⟩
    exact ⟨n, found, rfl⟩

theorem takesNumber_exponentDigits {part : NumberPart}
    (first : ∀ d, isDigit d = true → part.next? d = some .exponent) (negative : Bool)
    (significand : Nat) (power : Int) (down : Bool) :
    TakesNumber part (exponentDigits negative significand power down) := by
  intro bytes n rest h
  obtain ⟨split, all, no⟩ := digits_of_front bytes
  unfold exponentDigits at h ⊢
  simp only at h ⊢
  generalize bytes.takeWhile isDigit = digits at h split all
  generalize bytes.dropWhile isDigit = tail at h split no
  by_cases nonempty : digits = []
  · rw [nonempty] at h
    cases h
  · rw [if_neg (by simpa using nonempty), map_pair_eq_ok_iff] at h
    obtain ⟨found, rfl⟩ := h
    refine ⟨digits, split, fun rest' stops => ?_, .exponent, ?_, rfl⟩
    · rw [takeWhile_digits all stops.noDigit, dropWhile_digits all stops.noDigit,
        if_neg (by simpa using nonempty), found]
      rfl
    · exact NumberPart.run_first_digits NumberPart.takesDigits_exponent first nonempty all

/-- A byte that leads from one part to another, and then a reader that goes on from there. -/
theorem TakesNumber.after_byte {part next : NumberPart} {r r' : Reader Number}
    (h : TakesNumber next r') {b : UInt8} (leads : part.next? b = some next) {bytes rest : Bytes}
    {n : Number} (read : r' bytes = .ok (n, rest))
    (same : ∀ bytes, r (b :: bytes) = r' bytes) :
    ∃ text, b :: bytes = text ++ rest ∧
      (∀ rest', Stops rest' → r (text ++ rest') = .ok (n, rest')) ∧
        ∃ last, part.run text = some last ∧ last.isComplete = true := by
  obtain ⟨text, rfl, again, last, run, complete⟩ := h bytes n rest read
  refine ⟨b :: text, rfl, fun rest' stops => ?_, last, ?_, complete⟩
  · rw [List.cons_append, same, again rest' stops]
  · rw [NumberPart.run_cons leads, run]

theorem takesNumber_exponentPart (negative : Bool) (significand : Nat) (power : Int) :
    TakesNumber .exponentMark (exponentPart negative significand power) := by
  have first (d : UInt8) (digit : isDigit d = true) :
      NumberPart.exponentMark.next? d = some .exponent := by
    have plus : d ≠ plusSign := fun e => by rw [e] at digit; cases digit
    have minus : d ≠ minusSign := fun e => by rw [e] at digit; cases digit
    simp [NumberPart.next?, plus, minus, digit]
  have unsigned := takesNumber_exponentDigits first negative significand power false
  have first' (d : UInt8) (digit : isDigit d = true) :
      NumberPart.exponentSign.next? d = some .exponent := if_pos digit
  have signed (down : Bool) := takesNumber_exponentDigits first' negative significand power down
  intro bytes n rest h
  cases bytes with
  | nil => cases h
  | cons b bytes =>
    rw [exponentPart] at h
    by_cases minus : b = minusSign
    · subst minus
      exact (signed true).after_byte rfl h fun _ => rfl
    by_cases plus : b = plusSign
    · subst plus
      exact (signed false).after_byte rfl h fun _ => rfl
    rw [if_neg minus, if_neg plus] at h
    obtain ⟨text, split, again, last, run, complete⟩ := unsigned _ n rest h
    refine ⟨text, split, fun rest' stops => ?_, last, run, complete⟩
    rw [← again rest' stops]
    cases text with
    | nil => cases run; cases complete
    | cons c text =>
      obtain ⟨rfl, -⟩ := List.cons.inj split
      rw [List.cons_append, exponentPart, if_neg minus, if_neg plus]

/-! ## Fractions -/

theorem not_exponentMark_of_stops {b : UInt8} {rest : Bytes} (stops : Stops (b :: rest)) :
    isExponentMark b = false :=
  forall_delimiter (P := fun b => isExponentMark b = false) (by decide +kernel) (stops b rfl)

theorem not_point_of_stops {b : UInt8} {rest : Bytes} (stops : Stops (b :: rest)) : b ≠ point :=
  forall_delimiter (P := fun b => b ≠ point) (by decide +kernel) (stops b rfl)

theorem not_digit_of_exponentMark {b : UInt8} (mark : isExponentMark b = true) :
    isDigit b = false := by
  simp only [isExponentMark, Bool.or_eq_true, beq_iff_eq] at mark
  rcases mark with rfl | rfl <;> rfl

/-- A number that is complete at `part` may end there. -/
theorem TakesNumber.ends {part : NumberPart} (complete : part.isComplete = true)
    {r : Reader Number} {x : Except Error Number}
    (same : ∀ {rest'}, Stops rest' → r rest' = x.map (·, rest')) {tail rest : Bytes} {n : Number}
    (read : x.map (·, tail) = .ok (n, rest)) :
    ∃ text, tail = text ++ rest ∧ (∀ rest', Stops rest' → r (text ++ rest') = .ok (n, rest')) ∧
      ∃ last, part.run text = some last ∧ last.isComplete = true := by
  obtain ⟨found, rfl⟩ := map_pair_eq_ok_iff.1 read
  refine ⟨[], rfl, fun rest' stops => ?_, part, rfl, complete⟩
  rw [List.nil_append, same stops, found]
  rfl

theorem optionalExponent_of_stops (negative : Bool) (significand : Nat) (power : Int)
    {rest : Bytes} (stops : Stops rest) : optionalExponent negative significand power rest =
      (assemble negative significand power).map (·, rest) := by
  cases rest with
  | nil => rfl
  | cons b rest =>
    rw [optionalExponent, not_exponentMark_of_stops stops]
    rfl

theorem takesNumber_optionalExponent (negative : Bool) (significand : Nat) (power : Int) :
    TakesNumber .fraction (optionalExponent negative significand power) := by
  have same {rest' : Bytes} (stops : Stops rest') :=
    optionalExponent_of_stops negative significand power stops
  intro bytes n rest h
  cases bytes with
  | nil => exact TakesNumber.ends rfl same h
  | cons b bytes =>
    rw [optionalExponent] at h
    by_cases mark : isExponentMark b = true
    · rw [if_pos mark] at h
      refine (takesNumber_exponentPart negative significand power).after_byte ?_ h fun _ => ?_
      · simp [NumberPart.next?, not_digit_of_exponentMark mark, mark]
      · rw [optionalExponent, if_pos mark]
    · rw [if_neg mark] at h
      exact TakesNumber.ends rfl same h

theorem takesNumber_fractionPart (negative : Bool) (significand : Nat) (power : Int) :
    TakesNumber .point (fractionPart negative significand power) := by
  intro bytes n rest h
  obtain ⟨split, all, no⟩ := digits_of_front bytes
  unfold fractionPart at h ⊢
  simp only at h ⊢
  generalize bytes.takeWhile isDigit = digits at h split all
  generalize bytes.dropWhile isDigit = tail at h split no
  by_cases nonempty : digits = []
  · rw [nonempty] at h
    cases h
  · rw [if_neg (by simpa using nonempty)] at h
    obtain ⟨text, rfl, again, last, run, complete⟩ :=
      takesNumber_optionalExponent _ _ _ tail n rest h
    refine ⟨digits ++ text, by rw [split, List.append_assoc], fun rest' stops => ?_, last, ?_,
      complete⟩
    · have no' := no.append stops
      rw [List.append_assoc, takeWhile_digits all no', dropWhile_digits all no',
        if_neg (by simpa using nonempty)]
      exact again rest' stops
    · have fraction : NumberPart.point.run digits = some .fraction :=
        NumberPart.run_first_digits NumberPart.takesDigits_fraction (fun d digit => if_pos digit)
          nonempty all
      rw [NumberPart.run_append fraction, run]

/-! ## Numbers -/

/-- A number that ends after the digits before the point. -/
def endsWhole (negative : Bool) (significand dropped : Nat) : Except Error Number :=
  if dropped = 0 then .ok (ofWhole negative significand) else assemble negative significand dropped

theorem map_endsWhole (negative : Bool) (significand dropped : Nat) (tail : Bytes) :
    (endsWhole negative significand dropped).map (·, tail) =
      if dropped = 0 then .ok (ofWhole negative significand, tail)
      else (assemble negative significand dropped).map (·, tail) := by
  rw [endsWhole]
  split <;> rfl

theorem afterWholePart_of_stops (negative : Bool) (significand dropped : Nat) {rest : Bytes}
    (stops : Stops rest) : afterWholePart negative significand dropped rest =
      (endsWhole negative significand dropped).map (·, rest) := by
  cases rest with
  | nil => rw [map_endsWhole, afterWholePart]
  | cons b rest =>
    rw [map_endsWhole, afterWholePart, if_neg (not_point_of_stops stops),
      not_exponentMark_of_stops stops]
    rfl

/-- What follows the digits before the point leads on in the same way after a zero and after other
digits. -/
theorem takesNumber_afterWholePart {part : NumberPart} (complete : part.isComplete = true)
    (next : ∀ b, isDigit b = false → part.next? b = NumberPart.afterWhole? b) (negative : Bool)
    (significand dropped : Nat) : TakesNumber part (afterWholePart negative significand dropped) := by
  have same {rest' : Bytes} (stops : Stops rest') :=
    afterWholePart_of_stops negative significand dropped stops
  intro bytes n rest h
  cases bytes with
  | nil =>
    rw [afterWholePart, ← map_endsWhole] at h
    exact TakesNumber.ends complete same h
  | cons b bytes =>
    rw [afterWholePart] at h
    by_cases isPoint : b = point
    · subst isPoint
      rw [if_pos rfl] at h
      refine (takesNumber_fractionPart negative significand dropped).after_byte ?_ h fun _ => rfl
      exact next point rfl
    rw [if_neg isPoint] at h
    by_cases mark : isExponentMark b = true
    · rw [if_pos mark] at h
      refine (takesNumber_exponentPart negative significand dropped).after_byte ?_ h fun _ => ?_
      · rw [next b (not_digit_of_exponentMark mark), NumberPart.afterWhole?, if_neg isPoint,
          if_pos mark]
      · rw [afterWholePart, if_neg isPoint, if_pos mark]
    · rw [if_neg mark, ← map_endsWhole] at h
      exact TakesNumber.ends complete same h

/-- The reader of what follows a zero that starts a number. -/
def afterZero (negative : Bool) : Reader Number := fun bytes =>
  if bytes.head?.any isDigit then .error .badNumber else afterWholePart negative 0 0 bytes

theorem unsignedNumber_zero (negative : Bool) (bytes : Bytes) :
    unsignedNumber negative (0x30 :: bytes) = afterZero negative bytes := rfl

theorem takesNumber_afterZero (negative : Bool) : TakesNumber .zero (afterZero negative) := by
  intro bytes n rest h
  rw [afterZero] at h
  by_cases more : bytes.head?.any isDigit = true
  · rw [if_pos more] at h
    cases h
  rw [if_neg more] at h
  have no : NoDigit bytes := noDigit_iff.2 (by simpa using more)
  have goesOn : TakesNumber .zero (afterWholePart negative 0 0) :=
    takesNumber_afterWholePart rfl (fun _ _ => rfl) negative 0 0
  obtain ⟨text, rfl, again, last⟩ := goesOn bytes n rest h
  refine ⟨text, rfl, fun rest' stops => ?_, last⟩
  rw [afterZero, noDigit_iff.1 (no.append stops)]
  exact again rest' stops

/-- The reader of what starts with digits other than a single zero. -/
def wholeDigits (negative : Bool) : Reader Number := fun bytes =>
  let (significand, dropped) := extendSignificand 0 (bytes.takeWhile isDigit)
  afterWholePart negative significand dropped (bytes.dropWhile isDigit)

theorem unsignedNumber_digit (negative : Bool) {b : UInt8} (nonzero : b ≠ 0x30)
    (digit : isDigit b = true) (bytes : Bytes) :
    unsignedNumber negative (b :: bytes) = wholeDigits negative (b :: bytes) := by
  rw [unsignedNumber, if_neg nonzero, if_pos digit]
  rfl

/-- The digits at the front stay when what follows the number is another text; the first of them,
which is the first byte of the number, decides how the number is read. -/
theorem takes_wholeDigits {negative : Bool} {b : UInt8} (nonzero : b ≠ 0x30)
    (digit : isDigit b = true) {bytes rest : Bytes} {n : Number}
    (h : wholeDigits negative (b :: bytes) = .ok (n, rest)) :
    ∃ tail, bytes = tail ++ rest ∧
      (∀ rest', Stops rest' → wholeDigits negative (b :: (tail ++ rest')) = .ok (n, rest')) ∧
        ∃ last, NumberPart.minus.run (b :: tail) = some last ∧ last.isComplete = true := by
  obtain ⟨split, all, no⟩ := digits_of_front bytes
  simp only [wholeDigits, List.takeWhile_cons_of_pos digit, List.dropWhile_cons_of_pos digit]
    at h ⊢
  generalize bytes.takeWhile isDigit = digits at h split all
  generalize bytes.dropWhile isDigit = after at h split no
  have goesOn (significand dropped : Nat) :
      TakesNumber .whole (afterWholePart negative significand dropped) :=
    takesNumber_afterWholePart rfl (fun b digit => by simp [NumberPart.next?, digit])
      negative significand dropped
  obtain ⟨text, rfl, again, last, run, complete⟩ := goesOn _ _ after n rest h
  refine ⟨digits ++ text, by rw [split, List.append_assoc], fun rest' stops => ?_, last, ?_,
    complete⟩
  · have no' := no.append stops
    rw [List.append_assoc, takeWhile_digits all no', dropWhile_digits all no']
    exact again rest' stops
  · have first : NumberPart.minus.next? b = some .whole := by
      simp [NumberPart.next?, nonzero, digit]
    rw [NumberPart.run_cons first,
      NumberPart.run_append (NumberPart.run_digits NumberPart.takesDigits_whole all), run]

theorem takesNumber_unsignedNumber (negative : Bool) :
    TakesNumber .minus (unsignedNumber negative) := by
  intro bytes n rest h
  cases bytes with
  | nil => cases h
  | cons b bytes =>
    by_cases zero : b = 0x30
    · subst zero
      exact (takesNumber_afterZero negative).after_byte rfl h (unsignedNumber_zero negative)
    by_cases digit : isDigit b = true
    · rw [unsignedNumber_digit negative zero digit] at h
      obtain ⟨tail, rfl, again, last⟩ := takes_wholeDigits zero digit h
      refine ⟨b :: tail, rfl, fun rest' stops => ?_, last⟩
      rw [List.cons_append, unsignedNumber_digit negative zero digit, again rest' stops]
    · rw [unsignedNumber, if_neg zero, if_neg digit] at h
      cases h

/-- What the reader of numbers takes, after a minus or without one. -/
theorem takesNumber_number {bytes rest : Bytes} {n : Number} (h : number bytes = .ok (n, rest)) :
    ∃ text, bytes = text ++ rest ∧ (∀ rest', Stops rest' → number (text ++ rest') = .ok (n, rest')) ∧
      ∃ last, last.isComplete = true ∧
        (NumberPart.minus.run text = some last ∨
          ∃ tail, text = minusSign :: tail ∧ NumberPart.minus.run tail = some last) := by
  cases bytes with
  | nil => cases h
  | cons b bytes =>
    rw [number] at h
    by_cases minus : b = minusSign
    · subst minus
      obtain ⟨text, rfl, again, last, run, complete⟩ :=
        takesNumber_unsignedNumber true bytes n rest h
      exact ⟨minusSign :: text, rfl, again, last, complete, .inr ⟨text, rfl, run⟩⟩
    · rw [if_neg minus] at h
      obtain ⟨text, split, again, last, run, complete⟩ :=
        takesNumber_unsignedNumber false (b :: bytes) n rest h
      refine ⟨text, split, fun rest' stops => ?_, last, complete, .inl run⟩
      cases text with
      | nil => cases run; cases complete
      | cons c text =>
        obtain ⟨rfl, -⟩ := List.cons.inj split
        rw [List.cons_append, number, if_neg minus]
        exact again rest' stops

end TokenTariff.Json
