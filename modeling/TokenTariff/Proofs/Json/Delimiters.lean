import Mathlib.Data.List.TakeWhile
import TokenTariff.Json.Reader
/-!
# Blanks, delimiters and digits

Where a part of a JSON text ends. A value is followed by a blank, a comma or a closing bracket, or
by nothing, and none of these can belong to a number; so the reader takes the same value whatever
delimiter comes next.

* `IsBlanks`: texts that are passed over between the parts;
* `Stops`: the texts that may follow a value.
-/

namespace TokenTariff.Json
set_option autoImplicit false

/-! ## Blanks -/

/-- A text of blanks only. -/
def IsBlanks (text : Bytes) : Prop :=
  ∀ b ∈ text, isBlank b = true

theorem IsBlanks.nil : IsBlanks [] := nofun

theorem IsBlanks.append {a b : Bytes} (ha : IsBlanks a) (hb : IsBlanks b) : IsBlanks (a ++ b) :=
  fun c mem => (List.mem_append.1 mem).elim (ha c) (hb c)

theorem skipBlanks_cons {b : UInt8} (h : isBlank b = false) (rest : Bytes) :
    skipBlanks (b :: rest) = b :: rest :=
  List.dropWhile_cons_of_neg (by simp [h])

theorem skipBlanks_append {blanks : Bytes} (h : IsBlanks blanks) (rest : Bytes) :
    skipBlanks (blanks ++ rest) = skipBlanks rest :=
  List.dropWhile_append_of_pos h

theorem skipBlanks_append_cons {blanks : Bytes} (h : IsBlanks blanks) {b : UInt8}
    (hb : isBlank b = false) (rest : Bytes) : skipBlanks (blanks ++ b :: rest) = b :: rest := by
  rw [skipBlanks_append h, skipBlanks_cons hb]

theorem skipBlanks_eq_nil_iff {bytes : Bytes} : skipBlanks bytes = [] ↔ IsBlanks bytes :=
  List.dropWhile_eq_nil_iff

theorem exists_blanks (bytes : Bytes) :
    ∃ blanks, IsBlanks blanks ∧ bytes = blanks ++ skipBlanks bytes :=
  ⟨bytes.takeWhile isBlank, fun _ mem => List.mem_takeWhile_imp mem,
    List.takeWhile_append_dropWhile.symm⟩

/-- What is passed over, and what comes first after it. -/
theorem blanks_of_skipBlanks {bytes : Bytes} {b : UInt8} {rest : Bytes}
    (h : skipBlanks bytes = b :: rest) :
    isBlank b = false ∧ ∃ blanks, IsBlanks blanks ∧ bytes = blanks ++ b :: rest := by
  constructor
  · have := List.head?_dropWhile_not isBlank bytes
    rw [show bytes.dropWhile isBlank = b :: rest from h] at this
    simpa using this
  · rw [← h]
    exact exists_blanks bytes

@[simp] theorem skipBlanks_skipBlanks (bytes : Bytes) :
    skipBlanks (skipBlanks bytes) = skipBlanks bytes := by
  cases h : skipBlanks bytes with
  | nil => rfl
  | cons b rest => exact skipBlanks_cons (blanks_of_skipBlanks h).1 rest

/-! ## Delimiters -/

/-- The bytes that may follow a value. -/
def isDelimiter (b : UInt8) : Bool :=
  isBlank b || b == comma || b == closeList || b == closeObject

/-- Whether a value may end before `rest`. -/
def Stops (rest : Bytes) : Prop :=
  ∀ b ∈ rest.head?, isDelimiter b = true

/-- What holds of each delimiter. -/
theorem forall_delimiter {P : UInt8 → Prop}
    (h : ∀ b ∈ [0x20, 0x0A, 0x0D, 0x09, comma, closeList, closeObject], P b) {b : UInt8}
    (delimiter : isDelimiter b = true) : P b := by
  refine h b ?_
  simp only [isDelimiter, isBlank, Bool.or_eq_true, beq_iff_eq] at delimiter
  simp only [List.mem_cons, List.not_mem_nil, or_false]
  simpa only [or_assoc] using delimiter

theorem Stops.nil : Stops [] := nofun

theorem Stops.cons {b : UInt8} (h : isDelimiter b = true) (rest : Bytes) : Stops (b :: rest) := by
  intro c mem
  rw [List.head?_cons, Option.mem_def, Option.some.injEq] at mem
  exact mem ▸ h

theorem Stops.blanks_append {blanks : Bytes} (h : IsBlanks blanks) {rest : Bytes}
    (stops : Stops rest) : Stops (blanks ++ rest) := by
  cases blanks with
  | nil => exact stops
  | cons b blanks =>
    refine .cons ?_ _
    rw [isDelimiter, h b List.mem_cons_self]
    rfl

theorem Stops.blanks {blanks : Bytes} (h : IsBlanks blanks) : Stops blanks := by
  rw [← List.append_nil blanks]
  exact .blanks_append h .nil

/-! ## Digits -/

/-- Whether a run of digits may end before `rest`. -/
def NoDigit (rest : Bytes) : Prop :=
  ∀ b ∈ rest.head?, isDigit b = false

theorem isDigit_of_isDelimiter {b : UInt8} (h : isDelimiter b = true) : isDigit b = false :=
  forall_delimiter (P := fun b => isDigit b = false) (by decide +kernel) h

theorem noDigit_iff {rest : Bytes} : NoDigit rest ↔ rest.head?.any isDigit = false := by
  cases rest with
  | nil => exact ⟨fun _ => rfl, fun _ => nofun⟩
  | cons b rest => simp [NoDigit]

theorem Stops.noDigit {rest : Bytes} (stops : Stops rest) : NoDigit rest :=
  fun b mem => isDigit_of_isDelimiter (stops b mem)

/-- What does not go on with a digit before one text does not before any delimiter. -/
theorem NoDigit.append {text rest rest' : Bytes} (h : NoDigit (text ++ rest))
    (stops : Stops rest') : NoDigit (text ++ rest') := by
  cases text with
  | nil => exact stops.noDigit
  | cons b text => exact h

theorem noDigit_dropWhile (bytes : Bytes) : NoDigit (bytes.dropWhile isDigit) := by
  intro b mem
  have := List.head?_dropWhile_not isDigit bytes
  rw [Option.mem_def.1 mem] at this
  simpa using this

theorem takeWhile_digits {digits rest : Bytes} (h : ∀ d ∈ digits, isDigit d = true)
    (no : NoDigit rest) : (digits ++ rest).takeWhile isDigit = digits := by
  rw [List.takeWhile_append_of_pos h]
  cases rest with
  | nil => simp
  | cons b rest => rw [List.takeWhile_cons_of_neg (by simp [no b rfl]), List.append_nil]

theorem dropWhile_digits {digits rest : Bytes} (h : ∀ d ∈ digits, isDigit d = true)
    (no : NoDigit rest) : (digits ++ rest).dropWhile isDigit = rest := by
  rw [List.dropWhile_append_of_pos h]
  cases rest with
  | nil => rfl
  | cons b rest => exact List.dropWhile_cons_of_neg (by simp [no b rfl])

/-! ## Words and colons -/

theorem takeLetters_eq_ok_iff {rest : Bytes} :
    ∀ {letters bytes : Bytes}, takeLetters letters bytes = .ok rest ↔ bytes = letters ++ rest
  | [], bytes => by
    rw [takeLetters, Except.ok.injEq, List.nil_append]
  | letter :: letters, [] => by
    simp [takeLetters]
  | letter :: letters, b :: bytes => by
    rw [takeLetters]
    split
    · next eq => rw [takeLetters_eq_ok_iff, List.cons_append, List.cons.injEq, and_iff_right eq]
    · next ne => simp [ne]

theorem takeColon_eq_ok_iff {bytes rest : Bytes} :
    takeColon bytes = .ok rest ↔ skipBlanks bytes = colon :: rest := by
  unfold takeColon
  cases skipBlanks bytes with
  | nil => simp
  | cons b tail =>
    by_cases h : b = colon
    · simp [h]
    · simp [h]

end TokenTariff.Json
