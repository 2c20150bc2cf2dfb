import TokenTariff.Json.Span
import TokenTariff.Proofs.Json.Delimiters
import TokenTariff.Proofs.Results
import TokenTariff.Proofs.Text.Utf8
/-!
# Texts of strings

What the reader of strings takes from the front is a text for itself, whatever follows it
(`stringBody_eq_ok_iff`). Passing over the text, with less asked of the escapes, ends with the same
quote (`StringText.passes`). Only the bytes that a string stands for are judged by the reader, but
where those are UTF-8 the text is as well (`StringText.isUtf8`): every escape is in ASCII and stands
for whole characters.

* `StringPlace.Reads`: the texts read from a place up to the closing quote, with what they stand for;
* `StringText`: the texts after the opening quote, with the string;
* `SkippedString.Passes`: the texts that are passed over.
-/

namespace TokenTariff.Json
set_option autoImplicit false

/-! ## What is read -/

/-- Reading `text` from a place ends with its last byte, and it stands for `content`. -/
inductive StringPlace.Reads : StringPlace → (text content : Bytes) → Prop where
  | last {place : StringPlace} {b : UInt8} (step : place.step b = .ok .finished) :
      Reads place [b] []
  | more {place next : StringPlace} {b : UInt8} {written text content : Bytes}
      (step : place.step b = .ok (.onward next written)) (tail : Reads next text content) :
      Reads place (b :: text) (written ++ content)

theorem stringBytes_of_reads {place : StringPlace} {text content : Bytes}
    (h : place.Reads text content) (rest : Bytes) :
    stringBytes place (text ++ rest) = .ok (content, rest) := by
  induction h with
  | last step => rw [List.cons_append, stringBytes, step]; rfl
  | more step _ ih => rw [List.cons_append, stringBytes, step]; simp only [ih]; rfl

theorem reads_of_stringBytes {rest : Bytes} :
    ∀ {bytes : Bytes} {place : StringPlace} {content : Bytes},
      stringBytes place bytes = .ok (content, rest) →
        ∃ text, bytes = text ++ rest ∧ place.Reads text content
  | [], place, content, h => by cases h
  | b :: bytes, place, content, h => by
    rw [stringBytes] at h
    cases step : place.step b with
    | error e => rw [step] at h; cases h
    | ok done =>
      rw [step] at h
      cases done with
      | finished =>
        obtain ⟨rfl, rfl⟩ := Prod.mk.inj (Except.ok.inj h)
        exact ⟨[b], rfl, .last step⟩
      | onward next written =>
        obtain ⟨⟨inner, rest'⟩, read, e⟩ := map_eq_ok_iff.1 h
        obtain ⟨rfl, rfl⟩ := Prod.mk.inj e
        obtain ⟨text, rfl, reads⟩ := reads_of_stringBytes read
        exact ⟨b :: text, rfl, .more step reads⟩

/-- The texts between the quotes of a string, the closing one included. -/
def StringText (text : Bytes) (string : String) : Prop :=
  ∃ content, StringPlace.plain.Reads text content ∧ Bytes.text? content = some string

theorem stringBody_eq_ok_iff {bytes rest : Bytes} {string : String} :
    stringBody bytes = .ok (string, rest) ↔
      ∃ text, bytes = text ++ rest ∧ StringText text string := by
  unfold stringBody
  rw [bind_eq_ok_iff]
  constructor
  · rintro ⟨⟨content, rest'⟩, read, found⟩
    cases string' : Bytes.text? content with
    | none => simp only [string'] at found; cases found
    | some string =>
      simp only [string'] at found
      cases found
      obtain ⟨text, split, reads⟩ := reads_of_stringBytes read
      exact ⟨text, split, content, reads, string'⟩
  · rintro ⟨text, rfl, content, reads, string⟩
    refine ⟨_, stringBytes_of_reads reads rest, ?_⟩
    simp only [string]

theorem stringText_of_stringBody {text : Bytes} {string : String}
    (h : (stringBody text).toOption = some (string, [])) : StringText text string := by
  obtain ⟨text', split, isText⟩ := stringBody_eq_ok_iff.1 (toOption_eq_some_iff.1 h)
  rw [List.append_nil] at split
  exact split ▸ isText

/-! ## What is passed over -/

/-- Passing over `text` from where the machine stands ends with its last byte. -/
inductive SkippedString.Passes : SkippedString → (text : Bytes) → Prop where
  | last {inside : SkippedString} {b : UInt8} (step : inside.step b = .ok none) : Passes inside [b]
  | more {inside next : SkippedString} {b : UInt8} {text : Bytes}
      (step : inside.step b = .ok (some next)) (tail : Passes next text) : Passes inside (b :: text)

/-- Where the machine that passes over a string stands, which knows nothing of surrogates. -/
def StringPlace.skipped : StringPlace → SkippedString
  | plain => .plain
  | escape => .escape
  | digits _ seen => .digits seen
  | afterLead _ => .plain
  | afterLeadBackslash _ => .escape

/-- What one byte does at a place when it leads on. -/
inductive StringPlace.Onward : StringPlace → UInt8 → StringPlace → (written : Bytes) → Prop where
  | backslash : Onward plain Json.backslash escape []
  | plain {b : UInt8} (notQuote : b ≠ quoteMark) (notBackslash : b ≠ Json.backslash)
      (notControl : ¬ b < 0x20) : Onward plain b plain [b]
  | letter {b c : UInt8} (h : simpleEscape? b = some c) : Onward escape b plain [c]
  | unicode : Onward escape letterU (digits none []) []
  | digit {lead : Option Nat} {seen : Bytes} {b : UInt8} (few : (seen ++ [b]).length < 4) :
      Onward (digits lead seen) b (digits lead (seen ++ [b])) []
  | lead {lead : Option Nat} {seen : Bytes} {b : UInt8} {code : Nat}
      (enough : ¬ (seen ++ [b]).length < 4) (hex : hexNumber? (seen ++ [b]) = some code) :
      Onward (digits lead seen) b (afterLead code) []
  | character {lead : Option Nat} {seen : Bytes} {b : UInt8} {code : Nat} (n : Nat)
      (enough : ¬ (seen ++ [b]).length < 4) (hex : hexNumber? (seen ++ [b]) = some code) :
      Onward (digits lead seen) b plain (encodeCode n)
  | partner (lead : Nat) : Onward (afterLead lead) Json.backslash (afterLeadBackslash lead) []
  | partnerUnicode (lead : Nat) :
      Onward (afterLeadBackslash lead) letterU (digits (some lead) []) []

theorem onward_of_ofCode {lead : Option Nat} {seen : Bytes} {b : UInt8} {code : Nat}
    {done : StringStep} (enough : ¬ (seen ++ [b]).length < 4)
    (hex : hexNumber? (seen ++ [b]) = some code) (h : StringStep.ofCode lead code = .ok done) :
    ∃ next written, done = .onward next written ∧
      (StringPlace.digits lead seen).Onward b next written := by
  unfold StringStep.ofCode at h
  split at h <;> split at h
  · cases h
  · split at h
    · cases h
      exact ⟨_, _, rfl, .lead enough hex⟩
    · cases h
      exact ⟨_, _, rfl, .character _ enough hex⟩
  · cases h
    exact ⟨_, _, rfl, .character _ enough hex⟩
  · cases h

/-- Only a quote between characters ends a string; any other byte that may stand there leads on. -/
theorem step_cases {place : StringPlace} {b : UInt8} {done : StringStep}
    (h : place.step b = .ok done) :
    (place = .plain ∧ b = quoteMark ∧ done = .finished) ∨
      ∃ next written, done = .onward next written ∧ place.Onward b next written := by
  cases place with
  | plain =>
    rw [StringPlace.step] at h
    split at h
    · next quote =>
      cases h
      exact .inl ⟨rfl, quote, rfl⟩
    next notQuote =>
    split at h
    · next isBackslash =>
      cases h
      exact .inr ⟨_, _, rfl, isBackslash ▸ .backslash⟩
    next notBackslash =>
    split at h
    · cases h
    · next notControl =>
      cases h
      exact .inr ⟨_, _, rfl, .plain notQuote notBackslash notControl⟩
  | escape =>
    rw [StringPlace.step] at h
    split at h
    · next c found =>
      cases h
      exact .inr ⟨_, _, rfl, .letter found⟩
    · split at h
      · next isU =>
        cases h
        exact .inr ⟨_, _, rfl, isU ▸ .unicode⟩
      · cases h
  | digits lead seen =>
    simp only [StringPlace.step] at h
    split at h
    · next few =>
      cases h
      exact .inr ⟨_, _, rfl, .digit few⟩
    · next enough =>
      split at h
      · cases h
      · next code hex => exact .inr (onward_of_ofCode enough hex h)
  | afterLead lead =>
    rw [StringPlace.step] at h
    split at h
    · next isBackslash =>
      cases h
      exact .inr ⟨_, _, rfl, isBackslash ▸ .partner lead⟩
    · cases h
  | afterLeadBackslash lead =>
    rw [StringPlace.step] at h
    split at h
    · next isU =>
      cases h
      exact .inr ⟨_, _, rfl, isU ▸ .partnerUnicode lead⟩
    · cases h

theorem finished_of_step {place : StringPlace} {b : UInt8} (h : place.step b = .ok .finished) :
    place = .plain ∧ b = quoteMark := by
  obtain ⟨isPlain, quote, -⟩ | ⟨_, _, e, -⟩ := step_cases h
  · exact ⟨isPlain, quote⟩
  · cases e

theorem onward_of_step {place next : StringPlace} {b : UInt8} {written : Bytes}
    (h : place.step b = .ok (.onward next written)) : place.Onward b next written := by
  obtain ⟨-, -, e⟩ | ⟨_, _, e, onward⟩ := step_cases h
  · cases e
  · cases e
    exact onward

theorem skipped_step {place next : StringPlace} {b : UInt8} {written : Bytes}
    (h : place.Onward b next written) : place.skipped.step b = .ok (some next.skipped) := by
  cases h with
  | backslash => rfl
  | plain notQuote notBackslash notControl =>
    simp [StringPlace.skipped, SkippedString.step, notQuote, notBackslash, notControl]
  | letter found => simp [StringPlace.skipped, SkippedString.step, found]
  | unicode => rfl
  | digit few =>
    simp only [StringPlace.skipped, SkippedString.step]
    rw [if_pos few]
  | lead enough hex =>
    simp only [StringPlace.skipped, SkippedString.step]
    rw [if_neg enough, hex]
    rfl
  | character n enough hex =>
    simp only [StringPlace.skipped, SkippedString.step]
    rw [if_neg enough, hex]
    rfl
  | partner => rfl
  | partnerUnicode => rfl

theorem StringPlace.Reads.passes {place : StringPlace} {text content : Bytes}
    (h : place.Reads text content) : place.skipped.Passes text := by
  induction h with
  | last step =>
    obtain ⟨rfl, rfl⟩ := finished_of_step step
    exact .last rfl
  | more step _ ih => exact .more (skipped_step (onward_of_step step)) ih

theorem StringText.passes {text : Bytes} {string : String} (h : StringText text string) :
    SkippedString.plain.Passes text := by
  obtain ⟨content, reads, -⟩ := h
  exact reads.passes

/-! ## Lengths -/

/-- How many bytes have been read at a place of which nothing is written yet. -/
def StringPlace.backlog : StringPlace → Nat
  | escape | afterLeadBackslash _ => 1
  | digits _ seen => seen.length + 2
  | plain | afterLead _ => 0

theorem length_encodeCode_le (n : Nat) : (encodeCode n).length ≤ 4 := by
  rw [encodeCode, String.length_utf8EncodeChar]
  exact Char.utf8Size_le_four _

theorem length_written_le {place next : StringPlace} {b : UInt8} {written : Bytes}
    (h : place.Onward b next written) :
    written.length + next.backlog ≤ place.backlog + 1 := by
  cases h with
  | digit few =>
    simp only [StringPlace.backlog, List.length_append, List.length_cons, List.length_nil]
    omega
  | lead enough _ => simp [StringPlace.backlog]
  | character n enough _ =>
    have short := length_encodeCode_le n
    simp only [List.length_append, List.length_singleton] at enough
    simp only [StringPlace.backlog]
    omega
  | _ => simp [StringPlace.backlog]

theorem StringPlace.Reads.length_lt {place : StringPlace} {text content : Bytes}
    (h : place.Reads text content) : content.length < text.length + place.backlog := by
  induction h with
  | last _ => simp only [List.length_nil, List.length_singleton]; omega
  | more step _ ih =>
    have written := length_written_le (onward_of_step step)
    simp only [List.length_append, List.length_cons]
    omega

/-- A string is shorter than its text, which ends with a quote. -/
theorem StringText.length_lt {text : Bytes} {string : String} (h : StringText text string) :
    (Bytes.ofText string).length < text.length := by
  obtain ⟨content, reads, found⟩ := h
  rw [← Bytes.text?_eq_some_iff.1 found]
  exact reads.length_lt

/-! ## Well-formed texts -/

theorem ascii_of_hexValue? (b : UInt8) : (hexValue? b).isSome → b < 0x80 :=
  Bytes.forall_byte (p := fun b => (hexValue? b).isSome → b < 0x80) (by decide +kernel) b

theorem ascii_of_simpleEscape? (b : UInt8) :
    (simpleEscape? b).all (fun c => b < 0x80 && c < 0x80) = true :=
  Bytes.forall_byte (p := fun b => (simpleEscape? b).all (fun c => b < 0x80 && c < 0x80) = true)
    (by decide +kernel) b

theorem ascii_of_foldlM_hexValue? :
    ∀ {digits : Bytes} {start n : Nat},
      digits.foldlM (fun n b => (hexValue? b).map (n * 16 + ·)) start = some n →
        ∀ d ∈ digits, d < 0x80
  | [], _, _, _, d, mem => by cases mem
  | b :: digits, start, n, h, d, mem => by
    rw [List.foldlM_cons] at h
    obtain ⟨next, first, rest⟩ := Option.bind_eq_some_iff.1 h
    obtain ⟨value, found, -⟩ := Option.map_eq_some_iff.1 first
    rcases List.mem_cons.1 mem with rfl | mem
    · exact ascii_of_hexValue? d (by rw [found]; rfl)
    · exact ascii_of_foldlM_hexValue? rest d mem

/-- What holds of a text that is read from a place if it stands for `content`: between characters,
where the bytes before it may be the beginning of one, it completes the same characters as
`content`; anywhere else `content` begins with a whole character. -/
def StringPlace.KeepsUtf8 (text content : Bytes) : StringPlace → Prop
  | plain => ∀ pending, Bytes.IsUtf8 (pending ++ content) → Bytes.IsUtf8 (pending ++ text)
  | digits _ seen => (∀ d ∈ seen, d < 0x80) ∧ Bytes.StartsFresh content ∧
      (Bytes.IsUtf8 content → Bytes.IsUtf8 text)
  | _ => Bytes.StartsFresh content ∧ (Bytes.IsUtf8 content → Bytes.IsUtf8 text)

theorem isUtf8_cons_ascii {b : UInt8} (ascii : b < 0x80) {text : Bytes} (h : Bytes.IsUtf8 text) :
    Bytes.IsUtf8 (b :: text) :=
  (Bytes.IsUtf8.ascii ascii).append h

/-- One character and then a text read between characters. -/
theorem keepsUtf8_encode {text content : Bytes} (c : Char)
    (h : StringPlace.plain.KeepsUtf8 text content) {b : UInt8} (ascii : b < 0x80) :
    Bytes.StartsFresh (String.utf8EncodeChar c ++ content) ∧
      (Bytes.IsUtf8 (String.utf8EncodeChar c ++ content) → Bytes.IsUtf8 (b :: text)) :=
  ⟨Bytes.startsFresh_encode c content,
    fun whole => isUtf8_cons_ascii ascii (h [] (Bytes.isUtf8_of_encode_append whole))⟩

theorem keepsUtf8_onward {place next : StringPlace} {b : UInt8} {written text content : Bytes}
    (step : place.Onward b next written) (ih : next.KeepsUtf8 text content) :
    place.KeepsUtf8 (b :: text) (written ++ content) := by
  cases step with
  | backslash =>
    intro pending whole
    obtain ⟨front, back⟩ := Bytes.isUtf8_of_append whole ih.1
    exact front.append (isUtf8_cons_ascii (by decide) (ih.2 back))
  | plain notQuote notBackslash notControl =>
    intro pending whole
    rw [← List.singleton_append, ← List.append_assoc] at whole ⊢
    exact ih (pending ++ [b]) whole
  | letter found =>
    have ascii := ascii_of_simpleEscape? b
    rw [found] at ascii
    simp only [Option.all_some, Bool.and_eq_true, decide_eq_true_eq] at ascii
    rw [← Bytes.encode_ofNat ascii.2]
    exact keepsUtf8_encode _ ih ascii.1
  | unicode => exact ⟨ih.2.1, fun whole => isUtf8_cons_ascii (by decide) (ih.2.2 whole)⟩
  | digit few =>
    have ascii := ih.1
    refine ⟨fun d mem => ascii d (List.mem_append_left _ mem), ih.2.1, fun whole => ?_⟩
    exact isUtf8_cons_ascii (ascii b (by simp)) (ih.2.2 whole)
  | lead enough hex =>
    have ascii := ascii_of_foldlM_hexValue? hex
    refine ⟨fun d mem => ascii d (List.mem_append_left _ mem), ih.1, fun whole => ?_⟩
    exact isUtf8_cons_ascii (ascii b (by simp)) (ih.2 whole)
  | character n enough hex =>
    have ascii := ascii_of_foldlM_hexValue? hex
    refine ⟨fun d mem => ascii d (List.mem_append_left _ mem), ?_⟩
    exact keepsUtf8_encode _ ih (ascii b (by simp))
  | partner => exact ⟨ih.1, fun whole => isUtf8_cons_ascii (by decide) (ih.2 whole)⟩
  | partnerUnicode => exact ⟨ih.2.1, fun whole => isUtf8_cons_ascii (by decide) (ih.2.2 whole)⟩

theorem StringPlace.Reads.keepsUtf8 {place : StringPlace} {text content : Bytes}
    (h : place.Reads text content) : place.KeepsUtf8 text content := by
  induction h with
  | last step =>
    obtain ⟨rfl, rfl⟩ := finished_of_step step
    intro pending whole
    rw [List.append_nil] at whole
    exact whole.append (.ascii (by decide))
  | more step _ ih => exact keepsUtf8_onward (onward_of_step step) ih

theorem StringText.isUtf8 {text : Bytes} {string : String} (h : StringText text string) :
    Bytes.IsUtf8 (quoteMark :: text) := by
  obtain ⟨content, reads, found⟩ := h
  have whole : Bytes.IsUtf8 content := by
    rw [Bytes.IsUtf8, found]
    rfl
  exact reads.keepsUtf8 [quoteMark] (isUtf8_cons_ascii (by decide) whole)

end TokenTariff.Json
