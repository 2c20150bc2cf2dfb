import TokenTariff.Proofs.Json.Documents
/-!
# The texts of JSON

The grammar of JSON itself, which says of a text only whether it is one: a string may name single
surrogates, a number may have any size, and values may be nested to any depth. A text that a reader
makes a value of is one of them (`rawText_of_valueText`).

* `RawString`, `RawNumber`, `RawScalar`: the texts of scalars;
* `RawText depth`: the texts of values that are nested at most `depth` deep;
* `RawDocument`: the texts that are one value of any depth, in UTF-8;
* `passes_iff`, `completes_minus_iff`: the machines for strings and numbers go by this grammar.
-/

namespace TokenTariff.Json
set_option autoImplicit false

/-! ## Strings -/

/-- What follows the opening quote of a string, with the closing one. -/
inductive RawString : Bytes → Prop where
  | close : RawString [quoteMark]
  | plain {b : UInt8} {text : Bytes} (notQuote : b ≠ quoteMark) (notBackslash : b ≠ backslash)
      (notControl : ¬ b < 0x20) (tail : RawString text) : RawString (b :: text)
  | escape {b : UInt8} {text : Bytes} (letter : (simpleEscape? b).isSome) (tail : RawString text) :
      RawString (backslash :: b :: text)
  | code {digits text : Bytes} (four : digits.length = 4)
      (hex : ∀ d ∈ digits, (hexValue? d).isSome) (tail : RawString text) :
      RawString (backslash :: letterU :: (digits ++ text))

theorem isSome_foldlM_hexValue? :
    ∀ (digits : Bytes) (start : Nat),
      (digits.foldlM (fun n b => (hexValue? b).map (n * 16 + ·)) start).isSome ↔
        ∀ d ∈ digits, (hexValue? d).isSome
  | [], _ => by simp
  | d :: digits, start => by
    rw [List.foldlM_cons, List.forall_mem_cons]
    cases found : hexValue? d with
    | none => simp
    | some value =>
      have rest := isSome_foldlM_hexValue? digits (start * 16 + value)
      simpa using rest

theorem isSome_hexNumber? {digits : Bytes} :
    (hexNumber? digits).isSome ↔ ∀ d ∈ digits, (hexValue? d).isSome :=
  isSome_foldlM_hexValue? digits 0

theorem passes_digits {text : Bytes} (tail : SkippedString.plain.Passes text) :
    ∀ (digits seen : Bytes), digits ≠ [] → (seen ++ digits).length = 4 →
      (∀ d ∈ seen ++ digits, (hexValue? d).isSome) →
        (SkippedString.digits seen).Passes (digits ++ text)
  | [], _, nonempty, _, _ => absurd rfl nonempty
  | [d], seen, _, four, hex => by
    -- the fourth digit leads back into the string
    refine .more ?_ tail
    have enough : ¬ (seen ++ [d]).length < 4 := by omega
    simp only [SkippedString.step]
    rw [if_neg enough, if_pos (isSome_hexNumber?.2 hex)]
  | d :: e :: digits, seen, _, four, hex => by
    have few : (seen ++ [d]).length < 4 := by
      simp only [List.length_append, List.length_cons] at four ⊢
      simp only [List.length_nil]
      omega
    have step : (SkippedString.digits seen).step d = .ok (some (.digits (seen ++ [d]))) := by
      simp only [SkippedString.step]
      rw [if_pos few]
    have split : seen ++ d :: e :: digits = (seen ++ [d]) ++ e :: digits := by simp
    rw [split] at four hex
    exact .more step (passes_digits tail _ _ (List.cons_ne_nil e digits) four hex)

theorem RawString.passes {text : Bytes} (h : RawString text) : SkippedString.plain.Passes text := by
  induction h with
  | close => exact .last rfl
  | plain notQuote notBackslash notControl _ ih =>
    exact .more (by simp [SkippedString.step, notQuote, notBackslash, notControl]) ih
  | escape letter _ ih =>
    exact .more rfl (.more (by simp [SkippedString.step, letter]) ih)
  | @code digits text four hex _ ih =>
    have nonempty : digits ≠ [] := by
      rintro rfl
      cases four
    exact .more rfl (.more rfl (passes_digits ih digits [] nonempty four hex))

/-- What a text that is passed over says of the string, with what stands before it. -/
def SkippedString.IsRaw (text : Bytes) : SkippedString → Prop
  | plain => RawString text
  | escape => RawString (backslash :: text)
  | digits seen => seen.length < 4 → RawString (backslash :: letterU :: (seen ++ text))

theorem isRaw_cons {inside next : SkippedString} {b : UInt8} {text : Bytes}
    (step : inside.step b = .ok (some next)) (h : next.IsRaw text) : inside.IsRaw (b :: text) := by
  cases inside with
  | plain =>
    rw [SkippedString.step] at step
    split at step
    · cases step
    next notQuote =>
    split at step
    · next isBackslash =>
      cases step
      exact isBackslash ▸ h
    next notBackslash =>
    split at step
    · cases step
    · next notControl =>
      cases step
      exact .plain notQuote notBackslash notControl h
  | escape =>
    rw [SkippedString.step] at step
    split at step
    · next letter =>
      cases step
      exact .escape letter h
    · split at step
      · next isU =>
        cases step
        have code := h (by decide)
        rw [List.nil_append] at code
        rw [isU]
        exact code
      · cases step
  | digits seen =>
    simp only [SkippedString.step] at step
    intro few
    have split : seen ++ b :: text = (seen ++ [b]) ++ text := by simp
    rw [split]
    split at step
    · next few' =>
      cases step
      exact h few'
    · next enough =>
      split at step
      · next hex =>
        cases step
        refine .code ?_ (isSome_hexNumber?.1 hex) h
        simp only [List.length_append, List.length_cons, List.length_nil] at enough ⊢
        omega
      · cases step

theorem isRaw_of_passes {inside : SkippedString} {text : Bytes} (h : inside.Passes text) :
    inside.IsRaw text := by
  induction h with
  | @last inside b step =>
    cases inside with
    | plain =>
      rw [SkippedString.step] at step
      split at step
      · next quote => exact quote ▸ .close
      · split at step
        · cases step
        · split at step <;> cases step
    | escape =>
      rw [SkippedString.step] at step
      split at step
      · cases step
      · split at step <;> cases step
    | digits seen =>
      simp only [SkippedString.step] at step
      split at step
      · cases step
      · split at step <;> cases step
  | more step _ ih => exact isRaw_cons step ih

/-- The strings that are passed over are those of the grammar. -/
theorem passes_iff {text : Bytes} : SkippedString.plain.Passes text ↔ RawString text :=
  ⟨isRaw_of_passes, RawString.passes⟩

/-! ## Numbers -/

/-- At least one digit, and nothing else. -/
def IsDigits (text : Bytes) : Prop :=
  text ≠ [] ∧ ∀ d ∈ text, isDigit d = true

/-- The digits before the point: a zero by itself, or digits that begin with another one. -/
inductive WholeText : Bytes → Prop where
  | zero : WholeText [0x30]
  | digits {b : UInt8} {tail : Bytes} (nonzero : b ≠ 0x30) (digits : IsDigits (b :: tail)) :
      WholeText (b :: tail)

/-- The point with the digits behind it, which may be missing. -/
inductive FractionText : Bytes → Prop where
  | none : FractionText []
  | digits {digits : Bytes} (h : IsDigits digits) : FractionText (point :: digits)

/-- The letter of the exponent with the digits behind it, which may be missing. -/
inductive ExponentText : Bytes → Prop where
  | none : ExponentText []
  | digits {b : UInt8} {digits : Bytes} (mark : isExponentMark b = true) (h : IsDigits digits) :
      ExponentText (b :: digits)
  | signed {b c : UInt8} {digits : Bytes} (mark : isExponentMark b = true)
      (sign : c = plusSign ∨ c = minusSign) (h : IsDigits digits) :
      ExponentText (b :: c :: digits)

theorem ExponentText.noDigit {text : Bytes} (h : ExponentText text) : NoDigit text := by
  intro b mem
  cases h with
  | none => cases mem
  | digits mark _ =>
    cases mem
    exact not_digit_of_exponentMark mark
  | signed mark _ _ =>
    cases mem
    exact not_digit_of_exponentMark mark

theorem FractionText.noDigit_append {fraction exponent : Bytes} (h : FractionText fraction)
    (h' : ExponentText exponent) : NoDigit (fraction ++ exponent) := by
  cases h with
  | none => exact h'.noDigit
  | digits _ =>
    intro b mem
    cases mem
    rfl

/-- The text of a number without a sign before it. -/
def UnsignedText (text : Bytes) : Prop :=
  ∃ whole fraction exponent, WholeText whole ∧ FractionText fraction ∧ ExponentText exponent ∧
    text = whole ++ (fraction ++ exponent)

inductive RawNumber : Bytes → Prop where
  | positive {text : Bytes} (h : UnsignedText text) : RawNumber text
  | negative {text : Bytes} (h : UnsignedText text) : RawNumber (minusSign :: text)

namespace NumberPart
variable {part : NumberPart} {b : UInt8} {text : Bytes}

/-- A text leads from a part to where the number is complete. -/
def Completes (part : NumberPart) (text : Bytes) : Prop :=
  ∃ last, part.run text = some last ∧ last.isComplete = true

theorem completes_nil_iff : part.Completes [] ↔ part.isComplete = true := by
  constructor
  · rintro ⟨last, run, complete⟩
    cases run
    exact complete
  · intro complete
    exact ⟨part, rfl, complete⟩

theorem completes_cons_iff :
    part.Completes (b :: text) ↔ ∃ next, part.next? b = some next ∧ next.Completes text := by
  constructor
  · rintro ⟨last, run, complete⟩
    obtain ⟨next, first, run⟩ := run_cons_eq_some_iff.1 run
    exact ⟨next, first, last, run, complete⟩
  · rintro ⟨next, first, last, run, complete⟩
    exact ⟨last, run_cons_eq_some_iff.2 ⟨next, first, run⟩, complete⟩

theorem completes_digits_append (digits : part.takesDigits) {front : Bytes}
    (all : ∀ d ∈ front, isDigit d = true) :
    part.Completes (front ++ text) ↔ part.Completes text := by
  unfold Completes
  rw [run_append (run_digits digits all)]

theorem completes_of_first_digit {next : NumberPart} (digits : next.takesDigits)
    (first : ∀ d, isDigit d = true → part.next? d = some next) {front : Bytes}
    (isDigits : IsDigits front) : part.Completes (front ++ text) ↔ next.Completes text := by
  unfold Completes
  rw [run_append (run_first_digits digits first isDigits.1 isDigits.2)]

theorem completes_exponent_iff : exponent.Completes text ↔ ∀ d ∈ text, isDigit d = true := by
  induction text with
  | nil => simp [completes_nil_iff, isComplete]
  | cons b text ih =>
    rw [completes_cons_iff, List.forall_mem_cons, ← ih]
    simp only [next?]
    by_cases digit : isDigit b = true
    · simp [digit]
    · simp [digit]

theorem completes_exponentSign_iff : exponentSign.Completes text ↔ IsDigits text := by
  cases text with
  | nil => simp [completes_nil_iff, isComplete, IsDigits]
  | cons b text =>
    rw [completes_cons_iff, IsDigits, List.forall_mem_cons, ← completes_exponent_iff]
    simp only [next?]
    by_cases digit : isDigit b = true
    · simp [digit]
    · simp [digit]

theorem completes_exponentMark_iff (mark : isExponentMark b = true) :
    exponentMark.Completes text ↔ ExponentText (b :: text) := by
  constructor
  · intro h
    cases text with
    | nil => cases completes_nil_iff.1 h
    | cons c text =>
      obtain ⟨next, first, rest⟩ := completes_cons_iff.1 h
      simp only [next?, Bool.or_eq_true, decide_eq_true_eq] at first
      split at first
      · next sign =>
        cases first
        exact .signed mark sign (completes_exponentSign_iff.1 rest)
      · split at first
        · next digit =>
          cases first
          have digits := completes_exponent_iff.1 rest
          exact .digits mark ⟨List.cons_ne_nil c text, List.forall_mem_cons.2 ⟨digit, digits⟩⟩
        · cases first
  · intro h
    cases h with
    | @digits _ digits _ h =>
      obtain ⟨c, text, rfl⟩ := List.exists_cons_of_ne_nil h.1
      have digit := h.2 c List.mem_cons_self
      have notSign : ¬ (c = plusSign ∨ c = minusSign) := by
        rintro (rfl | rfl) <;> cases digit
      refine completes_cons_iff.2 ⟨exponent, ?_, ?_⟩
      · simp [next?, notSign, digit]
      · exact completes_exponent_iff.2 fun d mem => h.2 d (List.mem_cons_of_mem _ mem)
    | @signed _ c digits _ sign h =>
      refine completes_cons_iff.2 ⟨exponentSign, ?_, completes_exponentSign_iff.2 h⟩
      simp [next?, sign]

theorem completes_fraction_iff (no : NoDigit text) :
    fraction.Completes text ↔ ExponentText text := by
  cases text with
  | nil => exact ⟨fun _ => .none, fun _ => completes_nil_iff.2 rfl⟩
  | cons b text =>
    have noDigit : isDigit b = false := no b rfl
    rw [completes_cons_iff]
    simp only [next?, noDigit, Bool.false_eq_true, if_false]
    by_cases mark : isExponentMark b = true
    · simp [mark, completes_exponentMark_iff mark]
    · simp only [mark, Bool.false_eq_true, if_false, reduceCtorEq, false_and, exists_false,
        false_iff]
      intro h
      cases h with
      | digits mark' _ => exact mark mark'
      | signed mark' _ _ => exact mark mark'

theorem completes_point_iff : point.Completes text ↔
    ∃ digits exponent, IsDigits digits ∧ ExponentText exponent ∧ text = digits ++ exponent := by
  have first : ∀ d, isDigit d = true → point.next? d = some fraction := fun d digit => if_pos digit
  constructor
  · intro h
    -- the digits at the front are all taken, so that no digit comes behind them
    obtain ⟨split, all, no⟩ := digits_of_front text
    generalize text.takeWhile isDigit = digits at split all
    generalize text.dropWhile isDigit = rest at split no
    subst split
    by_cases nonempty : digits = []
    · exfalso
      rw [nonempty, List.nil_append] at h
      cases rest with
      | nil => cases completes_nil_iff.1 h
      | cons b rest =>
        obtain ⟨next, first, -⟩ := completes_cons_iff.1 h
        simp [next?, show isDigit b = false from no b rfl] at first
    · have rest := (completes_of_first_digit takesDigits_fraction first ⟨nonempty, all⟩).1 h
      exact ⟨digits, _, ⟨nonempty, all⟩, (completes_fraction_iff no).1 rest, rfl⟩
  · rintro ⟨digits, exponent, isDigits, isExponent, rfl⟩
    rw [completes_of_first_digit takesDigits_fraction first isDigits]
    exact (completes_fraction_iff isExponent.noDigit).2 isExponent

theorem completes_afterWhole_iff (complete : part.isComplete = true)
    (next : ∀ b, isDigit b = false → part.next? b = afterWhole? b) (no : NoDigit text) :
    part.Completes text ↔
      ∃ fraction exponent, FractionText fraction ∧ ExponentText exponent ∧
        text = fraction ++ exponent := by
  constructor
  · intro h
    cases text with
    | nil => exact ⟨[], [], .none, .none, rfl⟩
    | cons b text =>
      obtain ⟨after, first, rest⟩ := completes_cons_iff.1 h
      rw [next b (no b rfl), afterWhole?] at first
      split at first
      · next isPoint =>
        cases first
        obtain ⟨digits, exponent, isDigits, isExponent, rfl⟩ := completes_point_iff.1 rest
        exact ⟨_, exponent, .digits isDigits, isExponent, by rw [isPoint]; rfl⟩
      · split at first
        · next mark =>
          cases first
          exact ⟨[], _, .none, (completes_exponentMark_iff mark).1 rest, rfl⟩
        · cases first
  · rintro ⟨fraction, exponent, isFraction, isExponent, rfl⟩
    cases isFraction with
    | @digits digits isDigits =>
      refine completes_cons_iff.2 ⟨point, next _ rfl, ?_⟩
      exact completes_point_iff.2 ⟨digits, exponent, isDigits, isExponent, rfl⟩
    | none =>
      rw [List.nil_append] at no ⊢
      have mark {b : UInt8} {text : Bytes} (mark : isExponentMark b = true)
          (isExponent : ExponentText (b :: text)) : part.Completes (b :: text) := by
        have notPoint : b ≠ Json.point := by
          rintro rfl
          cases mark
        have rest := (completes_exponentMark_iff mark).2 isExponent
        refine completes_cons_iff.2 ⟨exponentMark, ?_, rest⟩
        rw [next b (not_digit_of_exponentMark mark), afterWhole?, if_neg notPoint, if_pos mark]
      cases isExponent with
      | none => exact completes_nil_iff.2 complete
      | digits isMark h => exact mark isMark (.digits isMark h)
      | signed isMark sign h => exact mark isMark (.signed isMark sign h)

theorem noDigit_of_completes_zero (h : zero.Completes text) : NoDigit text := by
  intro b mem
  cases text with
  | nil => cases mem
  | cons c text =>
    cases mem
    obtain ⟨next, first, -⟩ := completes_cons_iff.1 h
    refine Bool.eq_false_iff.2 fun digit => ?_
    have notMark : isExponentMark b = false := by
      refine Bool.eq_false_iff.2 fun mark => ?_
      rw [not_digit_of_exponentMark mark] at digit
      cases digit
    have notPoint : b ≠ Json.point := by
      rintro rfl
      cases digit
    simp [next?, afterWhole?, notMark, notPoint] at first

/-- The numbers without a sign that are gone through are those of the grammar. -/
theorem completes_minus_iff : minus.Completes text ↔ UnsignedText text := by
  have nextWhole (b : UInt8) (noDigit : isDigit b = false) : whole.next? b = afterWhole? b := by
    simp [next?, noDigit]
  constructor
  · intro h
    cases text with
    | nil => cases completes_nil_iff.1 h
    | cons b text =>
      obtain ⟨next, first, rest⟩ := completes_cons_iff.1 h
      simp only [next?] at first
      split at first
      · next isZero =>
        cases first
        subst isZero
        have no := noDigit_of_completes_zero rest
        obtain ⟨fraction, exponent, isFraction, isExponent, rfl⟩ :=
          (completes_afterWhole_iff rfl (fun _ _ => rfl) no).1 rest
        exact ⟨[0x30], fraction, exponent, .zero, isFraction, isExponent, rfl⟩
      next nonzero =>
      split at first
      · next digit =>
        cases first
        obtain ⟨split, all, no⟩ := digits_of_front text
        generalize text.takeWhile isDigit = digits at split all
        generalize text.dropWhile isDigit = after at split no
        subst split
        rw [completes_digits_append takesDigits_whole all] at rest
        obtain ⟨fraction, exponent, isFraction, isExponent, rfl⟩ :=
          (completes_afterWhole_iff rfl nextWhole no).1 rest
        have isDigits : IsDigits (b :: digits) :=
          ⟨List.cons_ne_nil b digits, List.forall_mem_cons.2 ⟨digit, all⟩⟩
        have isWhole : WholeText (b :: digits) := .digits nonzero isDigits
        exact ⟨b :: digits, fraction, exponent, isWhole, isFraction, isExponent, rfl⟩
      · cases first
  · rintro ⟨digits, fraction, exponent, isWhole, isFraction, isExponent, rfl⟩
    have no := isFraction.noDigit_append isExponent
    -- a zero takes no digit behind it, and other digits take all that follow
    cases isWhole with
    | zero =>
      refine completes_cons_iff.2 ⟨zero, rfl, ?_⟩
      exact (completes_afterWhole_iff rfl (fun _ _ => rfl) no).2 ⟨_, _, isFraction, isExponent, rfl⟩
    | @digits b tail nonzero isDigits =>
      have digit := isDigits.2 b List.mem_cons_self
      refine completes_cons_iff.2 ⟨whole, by simp [next?, nonzero, digit], ?_⟩
      have all : ∀ d ∈ tail, isDigit d = true :=
        fun d mem => isDigits.2 d (List.mem_cons_of_mem _ mem)
      refine (completes_digits_append takesDigits_whole all).2 ?_
      exact (completes_afterWhole_iff rfl nextWhole no).2 ⟨_, _, isFraction, isExponent, rfl⟩

end NumberPart

/-! ## Scalars -/

/-- The texts of words, strings and numbers. -/
inductive RawScalar : Bytes → Prop where
  | word {b : UInt8} {letters : Bytes} {v : Value} (h : word? b = some (letters, v)) :
      RawScalar (b :: letters)
  | string {text : Bytes} (h : RawString text) : RawScalar (quoteMark :: text)
  | number {text : Bytes} (h : RawNumber text) : RawScalar text

theorem rawNumber_of_numberText {text : Bytes} {n : Number} (h : NumberText text n) :
    RawNumber text := by
  obtain ⟨text', split, -, last, complete, run⟩ := takesNumber_number h
  rw [List.append_nil] at split
  subst split
  rcases run with run | ⟨tail, rfl, run⟩
  · exact .positive (NumberPart.completes_minus_iff.1 ⟨last, run, complete⟩)
  · exact .negative (NumberPart.completes_minus_iff.1 ⟨last, run, complete⟩)

theorem rawScalar_of_scalarText {text : Bytes} {v : Value} (h : ScalarText text v) :
    RawScalar text := by
  cases h with
  | word h => exact .word h
  | string h => exact .string (passes_iff.1 h.passes)
  | number h => exact .number (rawNumber_of_numberText h)

theorem RawNumber.begins {text : Bytes} (h : RawNumber text) :
    ∃ b tail, text = b :: tail ∧ (b = minusSign || isDigit b) = true := by
  cases h with
  | negative _ => exact ⟨minusSign, _, rfl, rfl⟩
  | positive h =>
    obtain ⟨whole, fraction, exponent, isWhole, -, -, rfl⟩ := h
    cases isWhole with
    | zero => exact ⟨0x30, _, rfl, rfl⟩
    | @digits b tail _ isDigits =>
      exact ⟨b, _, rfl, by simp [isDigits.2 b List.mem_cons_self]⟩

theorem RawScalar.begins {text : Bytes} (h : RawScalar text) :
    ∃ b tail, text = b :: tail ∧ isDelimiter b = false := by
  cases h with
  | @word b letters v h => exact ⟨b, letters, rfl, begins_word b (by rw [h]; rfl)⟩
  | string h => exact ⟨quoteMark, _, rfl, rfl⟩
  | number h =>
    obtain ⟨b, tail, rfl, begins⟩ := h.begins
    exact ⟨b, tail, rfl, (begins_number b begins).1⟩

/-! ## Values -/

/-- The parts of a composite: values, or names with a value. -/
inductive RawPart (Text : Bytes → Prop) : Composite → Bytes → Prop where
  | item {text : Bytes} (h : Text text) : RawPart Text .list text
  | member {name after before text : Bytes} (isName : RawString name) (blank : IsBlanks after)
      (blank' : IsBlanks before) (h : Text text) :
      RawPart Text .object (quoteMark :: (name ++ (after ++ colon :: (before ++ text))))

/-- A part that is known by its text alone. -/
def ByItself (Part : Bytes → Prop) (text part : Bytes) : Prop :=
  part = text ∧ Part text

def RawComposite (Text : Bytes → Prop) (text : Bytes) : Prop :=
  ∃ kind parts, Enclosed kind (ByItself (RawPart Text kind)) text parts

/-- The texts of values with lists and objects nested at most `depth` deep. -/
def RawText : (depth : Nat) → Bytes → Prop
  | 0 => RawScalar
  | depth + 1 => fun text => RawScalar text ∨ RawComposite (RawText depth) text

/-- A text that is one value. -/
def RawDocument (text : Bytes) : Prop :=
  (∃ depth, RawText depth text) ∧ Bytes.IsUtf8 text

section
variable {α : Type} {Part : Bytes → α → Prop} {Part' : Bytes → Prop}

theorem Sequence.byItself (weaker : ∀ text part, Part text part → Part' text) {text : Bytes}
    {parts : List α} (h : Sequence Part text parts) :
    ∃ texts, Sequence (ByItself Part') text texts := by
  induction h with
  | last part blank => exact ⟨_, .last ⟨rfl, weaker _ _ part⟩ blank⟩
  | more part blank blank' _ ih =>
    obtain ⟨texts, rest⟩ := ih
    exact ⟨_, .more ⟨rfl, weaker _ _ part⟩ blank blank' rest⟩

theorem Enclosed.byItself (weaker : ∀ text part, Part text part → Part' text) {kind : Composite}
    {text : Bytes} {parts : List α} (h : Enclosed kind Part text parts) :
    ∃ texts, Enclosed kind (ByItself Part') text texts := by
  cases h with
  | empty blank => exact ⟨[], .empty blank⟩
  | filled blank sequence =>
    obtain ⟨texts, sequence'⟩ := sequence.byItself weaker
    exact ⟨texts, .filled blank sequence'⟩

end

theorem rawPart_of_memberText {Text : Bytes → Value → Prop} {Text' : Bytes → Prop}
    (weaker : ∀ text v, Text text v → Text' text) (text : Bytes) (member : String × Value)
    (h : MemberText Text text member) : RawPart Text' .object text := by
  obtain ⟨name, after, before, inner, isName, blank, blank', isValue, rfl⟩ := h
  exact .member (passes_iff.1 isName.passes) blank blank' (weaker _ _ isValue)

theorem rawText_of_scalarText : ∀ (depth : Nat) (text : Bytes) (v : Value),
    ScalarText text v → RawText depth text
  | 0, _, _, h => rawScalar_of_scalarText h
  | _ + 1, _, _, h => .inl (rawScalar_of_scalarText h)

theorem rawComposite_of_compositeText {Text : Bytes → Value → Prop} {Text' : Bytes → Prop}
    (weaker : ∀ text v, Text text v → Text' text) {text : Bytes} {v : Value}
    (h : CompositeText Text text v) : RawComposite Text' text := by
  cases h with
  | list enclosed => exact ⟨.list, enclosed.byItself fun _ _ item => .item (weaker _ _ item)⟩
  | object enclosed => exact ⟨.object, enclosed.byItself (rawPart_of_memberText weaker)⟩

/-- A text that is read as a value is one of JSON, also where it is read as another value than it
would be by itself. -/
theorem rawText_of_valueText {Document : String → Value → Prop} :
    ∀ (depth : Nat) (text : Bytes) (v : Value), ValueText Document depth text v → RawText depth text
  | 0, _, _, h => rawScalar_of_scalarText h
  | depth + 1, text, v, h => by
    rcases h with scalar | ⟨composite, -⟩ | ⟨string, composite, -⟩
    · exact .inl (rawScalar_of_scalarText scalar)
    · exact .inr (rawComposite_of_compositeText (rawText_of_valueText depth) composite)
    · exact .inr (rawComposite_of_compositeText (rawText_of_scalarText depth) composite)

theorem rawText_of_objectText {text : Bytes} {members : List (String × Value)}
    (h : ObjectText text members) : RawText (memberDepth + 1) text :=
  .inr ⟨.object, Enclosed.byItself (rawPart_of_memberText (rawText_of_valueText _)) h⟩

theorem RawText.begins {depth : Nat} {text : Bytes} (h : RawText depth text) :
    ∃ b tail, text = b :: tail ∧ isDelimiter b = false := by
  cases depth with
  | zero => exact RawScalar.begins h
  | succ depth =>
    rcases h with scalar | ⟨kind, parts, enclosed⟩
    · exact scalar.begins
    · obtain ⟨tail, rfl⟩ := enclosed.begins
      exact ⟨kind.opening, tail, rfl, by cases kind <;> rfl⟩

end TokenTariff.Json
