import Mathlib.Data.String.Basic
import Mathlib.Order.RelClasses
import TokenTariff.Text.Utf8
/-!
# The bytes of a text

`Bytes.text?` accepts exactly the byte lists that `Bytes.ofText` writes, and gives back the text
(`text?_eq_some_iff`), so a text and its bytes determine each other.

* `characters?_encode`: what stands behind a whole character is read on its own;
* `isUtf8_of_append`: a text may be cut in front of every byte that begins a character;
* `ofText_lt_ofText_iff`: texts are in the order of their bytes.
-/

namespace TokenTariff.Bytes
set_option autoImplicit false

/-! ## Bytes as numbers -/

/-- A statement about all bytes is checked on the 256 of them. -/
theorem forall_byte {p : UInt8 → Prop} (h : ∀ i : Fin 256, p (.ofFin i)) (b : UInt8) : p b := by
  have := h b.toFin
  rwa [UInt8.ofFin_toFin] at this

theorem highBits (a : UInt8) :
    (continues a = decide (a.toNat / 64 = 2) ∧ (a &&& 0xE0 == 0xC0) = decide (a.toNat / 32 = 6)) ∧
      (a &&& 0xF0 == 0xE0) = decide (a.toNat / 16 = 14) ∧
      (a &&& 0xF8 == 0xF0) = decide (a.toNat / 8 = 30) :=
  forall_byte (p := fun a =>
    (continues a = decide (a.toNat / 64 = 2) ∧ (a &&& 0xE0 == 0xC0) = decide (a.toNat / 32 = 6)) ∧
      (a &&& 0xF0 == 0xE0) = decide (a.toNat / 16 = 14) ∧
      (a &&& 0xF8 == 0xF0) = decide (a.toNat / 8 = 30)) (by decide +kernel) a

theorem continues_eq (b : UInt8) : continues b = decide (b.toNat / 64 = 2) :=
  (highBits b).1.1

theorem begins_two (a : UInt8) : (a &&& 0xE0 == 0xC0) = decide (a.toNat / 32 = 6) :=
  (highBits a).1.2

theorem begins_three (a : UInt8) : (a &&& 0xF0 == 0xE0) = decide (a.toNat / 16 = 14) :=
  (highBits a).2.1

theorem begins_four (a : UInt8) : (a &&& 0xF8 == 0xF0) = decide (a.toNat / 8 = 30) :=
  (highBits a).2.2

theorem sixBits_eq (b : UInt8) : sixBits b = b.toNat % 64 := by
  rw [sixBits, UInt8.toNat_and]
  exact Nat.and_two_pow_sub_one_eq_mod _ 6

theorem lowBits (a : UInt8) : (a &&& 0x1F).toNat = a.toNat % 32 ∧ (a &&& 0x0F).toNat = a.toNat % 16 ∧
    (a &&& 0x07).toNat = a.toNat % 8 := by
  simp only [UInt8.toNat_and]
  exact ⟨Nat.and_two_pow_sub_one_eq_mod _ 5, Nat.and_two_pow_sub_one_eq_mod _ 4,
    Nat.and_two_pow_sub_one_eq_mod _ 3⟩

theorem scalar?_eq_some_iff {least code : Nat} {c : Char} :
    scalar? least code = some c ↔ code = c.toNat ∧ least ≤ code := by
  unfold scalar?
  by_cases valid : code.isValidChar
  · rw [dif_pos valid]
    by_cases le : least ≤ code
    · rw [if_pos le, Option.some.injEq]
      constructor
      · rintro rfl
        exact ⟨rfl, le⟩
      · rintro ⟨same, -⟩
        exact Char.toNat_inj.1 same
    · rw [if_neg le]
      exact ⟨nofun, fun h => absurd h.2 le⟩
  · rw [dif_neg valid]
    refine ⟨nofun, ?_⟩
    rintro ⟨rfl, -⟩
    exact absurd c.valid valid

/-! ## One character -/

theorem byte_eq_ofNat_iff {b : UInt8} {n : Nat} (h : n < 256) : UInt8.ofNat n = b ↔ b.toNat = n := by
  rw [← UInt8.toNat_inj, UInt8.toNat_ofNat_of_lt' h, eq_comm]

theorem encode_eq_one_iff {c : Char} {a : UInt8} :
    String.utf8EncodeChar c = [a] ↔ c.toNat ≤ 0x7F ∧ a.toNat = c.toNat := by
  have value : c.val.toNat = c.toNat := rfl
  unfold String.utf8EncodeChar
  simp only [value]
  by_cases h : c.toNat ≤ 0x7F
  · rw [if_pos h, List.singleton_inj, byte_eq_ofNat_iff (by omega)]
    exact ⟨fun e => ⟨h, e⟩, fun e => e.2⟩
  · rw [if_neg h]
    split_ifs <;> simp [h]

theorem encode_eq_two_iff {c : Char} {a b : UInt8} :
    String.utf8EncodeChar c = [a, b] ↔ 0x7F < c.toNat ∧ c.toNat ≤ 0x7FF ∧
      a.toNat = c.toNat / 64 % 0x20 + 0xC0 ∧ b.toNat = c.toNat % 0x40 + 0x80 := by
  have value : c.val.toNat = c.toNat := rfl
  unfold String.utf8EncodeChar
  simp only [value]
  split_ifs with h1 h2 h3
  · simp; omega
  · simp only [List.cons.injEq, and_true]
    rw [byte_eq_ofNat_iff (by omega), byte_eq_ofNat_iff (by omega)]
    omega
  · simp; omega
  · simp; omega

theorem encode_eq_three_iff {c : Char} {a b d : UInt8} :
    String.utf8EncodeChar c = [a, b, d] ↔ 0x7FF < c.toNat ∧ c.toNat ≤ 0xFFFF ∧
      a.toNat = c.toNat / 4096 % 0x10 + 0xE0 ∧ b.toNat = c.toNat / 64 % 0x40 + 0x80 ∧
      d.toNat = c.toNat % 0x40 + 0x80 := by
  have value : c.val.toNat = c.toNat := rfl
  unfold String.utf8EncodeChar
  simp only [value]
  split_ifs with h1 h2 h3
  · simp; omega
  · simp; omega
  · simp only [List.cons.injEq, and_true]
    rw [byte_eq_ofNat_iff (by omega), byte_eq_ofNat_iff (by omega), byte_eq_ofNat_iff (by omega)]
    omega
  · simp; omega

theorem encode_eq_four_iff {c : Char} {a b d e : UInt8} :
    String.utf8EncodeChar c = [a, b, d, e] ↔ 0xFFFF < c.toNat ∧
      a.toNat = c.toNat / 262144 % 0x08 + 0xF0 ∧ b.toNat = c.toNat / 4096 % 0x40 + 0x80 ∧
      d.toNat = c.toNat / 64 % 0x40 + 0x80 ∧ e.toNat = c.toNat % 0x40 + 0x80 := by
  have value : c.val.toNat = c.toNat := rfl
  unfold String.utf8EncodeChar
  simp only [value]
  split_ifs with h1 h2 h3
  · simp; omega
  · simp; omega
  · simp; omega
  · simp only [List.cons.injEq, and_true]
    rw [byte_eq_ofNat_iff (by omega), byte_eq_ofNat_iff (by omega), byte_eq_ofNat_iff (by omega),
      byte_eq_ofNat_iff (by omega)]
    omega

theorem toNat_lt (c : Char) : c.toNat < 0x110000 := by
  have := c.valid
  unfold UInt32.isValidChar Nat.isValidChar at this
  have value : c.val.toNat = c.toNat := rfl
  omega

theorem twoBytes?_eq_some_iff {a b : UInt8} {c : Char} :
    twoBytes? a b = some c ↔ String.utf8EncodeChar c = [a, b] := by
  have ha := a.toNat_lt
  have hb := b.toNat_lt
  rw [encode_eq_two_iff, twoBytes?, begins_two, continues_eq, sixBits_eq, (lowBits a).1]
  split
  · next h =>
    simp only [Bool.and_eq_true, decide_eq_true_eq] at h
    rw [scalar?_eq_some_iff]
    omega
  · next h =>
    simp only [Bool.and_eq_true, decide_eq_true_eq, not_and_or] at h
    simp only [reduceCtorEq, false_iff]
    omega

theorem threeBytes?_eq_some_iff {a b d : UInt8} {c : Char} :
    threeBytes? a b d = some c ↔ String.utf8EncodeChar c = [a, b, d] := by
  have ha := a.toNat_lt
  have hb := b.toNat_lt
  have hd := d.toNat_lt
  rw [encode_eq_three_iff, threeBytes?, begins_three, continues_eq, continues_eq, sixBits_eq,
    sixBits_eq, (lowBits a).2.1]
  split
  · next h =>
    simp only [Bool.and_eq_true, decide_eq_true_eq] at h
    rw [scalar?_eq_some_iff]
    omega
  · next h =>
    simp only [Bool.and_eq_true, decide_eq_true_eq, not_and_or] at h
    simp only [reduceCtorEq, false_iff]
    omega

theorem fourBytes?_eq_some_iff {a b d e : UInt8} {c : Char} :
    fourBytes? a b d e = some c ↔ String.utf8EncodeChar c = [a, b, d, e] := by
  have ha := a.toNat_lt
  have hb := b.toNat_lt
  have hd := d.toNat_lt
  have he := e.toNat_lt
  have hc := toNat_lt c
  rw [encode_eq_four_iff, fourBytes?, begins_four, continues_eq, continues_eq, continues_eq,
    sixBits_eq, sixBits_eq, sixBits_eq, (lowBits a).2.2]
  split
  · next h =>
    simp only [Bool.and_eq_true, decide_eq_true_eq] at h
    rw [scalar?_eq_some_iff]
    omega
  · next h =>
    simp only [Bool.and_eq_true, decide_eq_true_eq, not_and_or] at h
    simp only [reduceCtorEq, false_iff]
    omega

theorem encode_cases (c : Char) :
    (∃ a, String.utf8EncodeChar c = [a]) ∨ (∃ a b, String.utf8EncodeChar c = [a, b]) ∨
      (∃ a b d, String.utf8EncodeChar c = [a, b, d]) ∨
      ∃ a b d e, String.utf8EncodeChar c = [a, b, d, e] := by
  unfold String.utf8EncodeChar
  extract_lets v
  split_ifs
  · exact .inl ⟨_, rfl⟩
  · exact .inr (.inl ⟨_, _, rfl⟩)
  · exact .inr (.inr (.inl ⟨_, _, _, rfl⟩))
  · exact .inr (.inr (.inr ⟨_, _, _, _, rfl⟩))

theorem encode_ofNat {a : UInt8} (ascii : a < 0x80) :
    String.utf8EncodeChar (Char.ofNat a.toNat) = [a] := by
  have small : a.toNat < 0x80 := ascii
  have same : (Char.ofNat a.toNat).toNat = a.toNat := by
    have valid : a.toNat.isValidChar := .inl (by omega)
    rw [Char.ofNat, dif_pos valid]
    rfl
  rw [encode_eq_one_iff, same]
  omega

/-! ## Lists of characters -/

/-- What stands behind a whole character is read on its own. -/
theorem characters?_encode (c : Char) (rest : Bytes) :
    characters? (String.utf8EncodeChar c ++ rest) = (characters? rest).map (c :: ·) := by
  rcases encode_cases c with ⟨a, e⟩ | ⟨a, b, e⟩ | ⟨a, b, d, e⟩ | ⟨a, b, d, f, e⟩
  · have size := encode_eq_one_iff.1 e
    have ascii : a < 0x80 := UInt8.lt_iff_toNat_lt.2 (by simp only [UInt8.reduceToNat]; omega)
    rw [e, List.singleton_append, characters?.eq_def]
    simp only [if_pos ascii, size.2, Char.ofNat_toNat]
  · have size := encode_eq_two_iff.1 e
    have high : ¬ a < 0x80 := by rw [UInt8.lt_iff_toNat_lt]; simp only [UInt8.reduceToNat]; omega
    have two := twoBytes?_eq_some_iff.2 e
    rw [e, characters?.eq_def]
    simp only [List.cons_append, List.nil_append, if_neg high, two]
  · have size := encode_eq_three_iff.1 e
    have high : ¬ a < 0x80 := by rw [UInt8.lt_iff_toNat_lt]; simp only [UInt8.reduceToNat]; omega
    have two : twoBytes? a b = none := by
      refine Option.eq_none_iff_forall_ne_some.2 fun c' h => ?_
      have := encode_eq_two_iff.1 (twoBytes?_eq_some_iff.1 h)
      omega
    have three := threeBytes?_eq_some_iff.2 e
    rw [e, characters?.eq_def]
    simp only [List.cons_append, List.nil_append, if_neg high, two, three]
  · have size := encode_eq_four_iff.1 e
    have high : ¬ a < 0x80 := by rw [UInt8.lt_iff_toNat_lt]; simp only [UInt8.reduceToNat]; omega
    have two : twoBytes? a b = none := by
      refine Option.eq_none_iff_forall_ne_some.2 fun c' h => ?_
      have := encode_eq_two_iff.1 (twoBytes?_eq_some_iff.1 h)
      omega
    have three : threeBytes? a b d = none := by
      refine Option.eq_none_iff_forall_ne_some.2 fun c' h => ?_
      have := encode_eq_three_iff.1 (threeBytes?_eq_some_iff.1 h)
      omega
    have four := fourBytes?_eq_some_iff.2 e
    rw [e, characters?.eq_def]
    simp only [List.cons_append, List.nil_append, if_neg high, two, three, four]

theorem characters?_flatMap (chars : List Char) :
    characters? (chars.flatMap String.utf8EncodeChar) = some chars := by
  induction chars with
  | nil => rfl
  | cons c chars ih => rw [List.flatMap_cons, characters?_encode, ih, Option.map_some]

theorem eq_flatMap_of_characters? {bytes : Bytes} {chars : List Char}
    (h : characters? bytes = some chars) : bytes = chars.flatMap String.utf8EncodeChar := by
  fun_induction characters? bytes generalizing chars with
  | case1 => cases h; rfl
  | case2 a rest ascii ih =>
    obtain ⟨tail, read, rfl⟩ := Option.map_eq_some_iff.1 h
    rw [List.flatMap_cons, encode_ofNat ascii, ← ih read, List.singleton_append]
  | case3 => cases h
  | case4 a _ b rest c two ih =>
    obtain ⟨tail, read, rfl⟩ := Option.map_eq_some_iff.1 h
    rw [List.flatMap_cons, twoBytes?_eq_some_iff.1 two, ← ih read]
    rfl
  | case5 => cases h
  | case6 a _ b _ d rest c three ih =>
    obtain ⟨tail, read, rfl⟩ := Option.map_eq_some_iff.1 h
    rw [List.flatMap_cons, threeBytes?_eq_some_iff.1 three, ← ih read]
    rfl
  | case7 => cases h
  | case8 a _ b _ d _ e rest c four ih =>
    obtain ⟨tail, read, rfl⟩ := Option.map_eq_some_iff.1 h
    rw [List.flatMap_cons, fourBytes?_eq_some_iff.1 four, ← ih read]
    rfl
  | case9 => cases h

/-! ## Texts -/

/-- A byte list has a text exactly when it is the UTF-8 form of that text. -/
theorem text?_eq_some_iff {bytes : Bytes} {text : String} :
    text? bytes = some text ↔ bytes = ofText text := by
  unfold text? ofText
  constructor
  · intro h
    obtain ⟨chars, read, rfl⟩ := Option.map_eq_some_iff.1 h
    rw [eq_flatMap_of_characters? read, String.toList_ofList]
  · rintro rfl
    rw [characters?_flatMap, Option.map_some, String.ofList_toList]

@[simp] theorem text?_ofText (text : String) : text? (ofText text) = some text :=
  text?_eq_some_iff.2 rfl

/-! ## Well-formed lists -/

/-- The byte lists that have a text. -/
def IsUtf8 (bytes : Bytes) : Prop := (text? bytes).isSome

theorem isUtf8_iff {bytes : Bytes} :
    IsUtf8 bytes ↔ ∃ chars : List Char, bytes = chars.flatMap String.utf8EncodeChar := by
  unfold IsUtf8
  rw [Option.isSome_iff_exists]
  simp only [text?_eq_some_iff, ofText]
  constructor
  · rintro ⟨text, rfl⟩
    exact ⟨text.toList, rfl⟩
  · rintro ⟨chars, rfl⟩
    exact ⟨String.ofList chars, by rw [String.toList_ofList]⟩

theorem IsUtf8.nil : IsUtf8 [] := rfl

theorem IsUtf8.append {a b : Bytes} (ha : IsUtf8 a) (hb : IsUtf8 b) : IsUtf8 (a ++ b) := by
  rw [isUtf8_iff] at *
  obtain ⟨as, rfl⟩ := ha
  obtain ⟨bs, rfl⟩ := hb
  exact ⟨as ++ bs, List.flatMap_append.symm⟩

theorem IsUtf8.encode (c : Char) : IsUtf8 (String.utf8EncodeChar c) :=
  isUtf8_iff.2 ⟨[c], by simp⟩

theorem IsUtf8.ascii {b : UInt8} (h : b < 0x80) : IsUtf8 [b] :=
  encode_ofNat h ▸ IsUtf8.encode _

theorem IsUtf8.of_all_ascii {bytes : Bytes} (h : ∀ b ∈ bytes, b < 0x80) : IsUtf8 bytes := by
  induction bytes with
  | nil => exact .nil
  | cons b rest ih =>
    have tail := ih fun c mem => h c (List.mem_cons_of_mem b mem)
    exact (IsUtf8.ascii (h b List.mem_cons_self)).append tail

/-! ### Where a list may be cut -/

/-- Whether a list is empty or begins with a byte that does not continue a character. -/
def StartsFresh (bytes : Bytes) : Prop := ∀ b ∈ bytes.head?, continues b = false

theorem startsFresh_encode (c : Char) (rest : Bytes) :
    StartsFresh (String.utf8EncodeChar c ++ rest) := by
  intro b mem
  rw [continues_eq, decide_eq_false_iff_not]
  rcases encode_cases c with ⟨_, e⟩ | ⟨_, _, e⟩ | ⟨_, _, _, e⟩ | ⟨_, _, _, _, e⟩
  all_goals
    rw [e, List.cons_append, List.head?_cons, Option.mem_some_iff] at mem
    subst mem
  · have := encode_eq_one_iff.1 e
    omega
  · have := encode_eq_two_iff.1 e
    omega
  · have := encode_eq_three_iff.1 e
    omega
  · have := encode_eq_four_iff.1 e
    omega

theorem continues_of_mem_tail_encode {c : Char} {b : UInt8}
    (mem : b ∈ (String.utf8EncodeChar c).tail) : continues b = true := by
  rw [continues_eq, decide_eq_true_iff]
  rcases encode_cases c with ⟨_, e⟩ | ⟨_, _, e⟩ | ⟨_, _, _, e⟩ | ⟨_, _, _, _, e⟩
  all_goals simp only [e, List.tail_cons, List.mem_cons, List.not_mem_nil, or_false] at mem
  · have := encode_eq_two_iff.1 e
    subst mem
    omega
  · have := encode_eq_three_iff.1 e
    rcases mem with rfl | rfl <;> omega
  · have := encode_eq_four_iff.1 e
    rcases mem with rfl | rfl | rfl <;> omega

/-- A text may be cut in front of every byte that begins a character. -/
theorem isUtf8_of_append {a b : Bytes} (whole : IsUtf8 (a ++ b)) (fresh : StartsFresh b) :
    IsUtf8 a ∧ IsUtf8 b := by
  obtain ⟨chars, e⟩ := isUtf8_iff.1 whole
  clear whole
  induction chars generalizing a with
  | nil =>
    obtain ⟨rfl, rfl⟩ := List.append_eq_nil_iff.1 e
    exact ⟨.nil, .nil⟩
  | cons c chars ih =>
    rw [List.flatMap_cons] at e
    rcases List.append_eq_append_iff.1 e with ⟨cut, encoded, split⟩ | ⟨cut, split, encoded⟩
    · cases a with
      | nil =>
        rw [List.nil_append] at e
        exact ⟨.nil, e ▸ (IsUtf8.encode c).append (isUtf8_iff.2 ⟨chars, rfl⟩)⟩
      | cons head a =>
        -- A cut inside of the first character would leave a continuing byte in front.
        cases cut with
        | nil =>
          rw [List.append_nil] at encoded
          rw [List.nil_append] at split
          exact ⟨encoded ▸ .encode c, split ▸ isUtf8_iff.2 ⟨chars, rfl⟩⟩
        | cons first cut =>
          have inside : first ∈ (String.utf8EncodeChar c).tail := by simp [encoded]
          have := fresh first (by simp [split])
          rw [continues_of_mem_tail_encode inside] at this
          cases this
    · obtain ⟨front, back⟩ := ih encoded.symm
      exact ⟨split ▸ (IsUtf8.encode c).append front, back⟩

theorem isUtf8_of_encode_append {c : Char} {rest : Bytes}
    (whole : IsUtf8 (String.utf8EncodeChar c ++ rest)) : IsUtf8 rest := by
  unfold IsUtf8 text? at *
  rw [characters?_encode] at whole
  simpa using whole

/-! ## The order of texts -/

/-- A code point is determined by its digits to base 64. -/
theorem sixBit_digits {n : Nat} (lt : n < 0x110000) :
    n = 262144 * (n / 262144 % 0x08) + 4096 * (n / 4096 % 0x40) + 64 * (n / 64 % 0x40) +
      n % 0x40 := by
  omega

theorem encode_append_lt {c d : Char} (lt : c < d) (x y : Bytes) :
    String.utf8EncodeChar c ++ x < String.utf8EncodeChar d ++ y := by
  have lt : c.toNat < d.toNat := lt
  have digits := sixBit_digits (toNat_lt c)
  have digits' := sixBit_digits (toNat_lt d)
  rcases encode_cases c with ⟨_, e⟩ | ⟨_, _, e⟩ | ⟨_, _, _, e⟩ | ⟨_, _, _, _, e⟩
  all_goals
    rcases encode_cases d with ⟨_, f⟩ | ⟨_, _, f⟩ | ⟨_, _, _, f⟩ | ⟨_, _, _, _, f⟩
  all_goals
    rw [e, f]
    simp only [List.cons_append, List.nil_append, List.cons_lt_cons_iff, UInt8.lt_iff_toNat_lt,
      ← UInt8.toNat_inj]
    simp only [encode_eq_one_iff, encode_eq_two_iff, encode_eq_three_iff, encode_eq_four_iff]
      at e f
    omega

theorem flatMap_encode_lt {a b : List Char} (lt : a < b) :
    a.flatMap String.utf8EncodeChar < b.flatMap String.utf8EncodeChar := by
  induction lt with
  | nil =>
    rename_i c b
    rw [List.flatMap_nil, List.flatMap_cons]
    rcases encode_cases c with ⟨_, e⟩ | ⟨_, _, e⟩ | ⟨_, _, _, e⟩ | ⟨_, _, _, _, e⟩
    all_goals
      rw [e]
      exact List.nil_lt_cons ..
  | cons _ ih => exact List.append_left_lt ih
  | rel lt => exact encode_append_lt lt _ _

/-- Texts are in the order of their bytes. -/
theorem ofText_lt_ofText_iff {a b : String} : ofText a < ofText b ↔ a < b := by
  constructor
  · intro lt
    rcases lt_trichotomy a b with h | rfl | h
    · exact h
    · exact absurd lt (List.lt_irrefl _)
    · exact absurd lt (List.lt_asymm (flatMap_encode_lt h))
  · exact fun lt => flatMap_encode_lt lt

end TokenTariff.Bytes
