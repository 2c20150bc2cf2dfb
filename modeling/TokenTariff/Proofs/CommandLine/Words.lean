import Mathlib.Data.List.Perm.Basic
import Mathlib.Data.List.TakeWhile
import TokenTariff.CommandLine.Command
/-!
# Words of a command line

One word of a command line says one thing: that a switch is on, a text, a count, or the model. On
both sides of the name of the command a word that is read adds to the findings what it says
(`parseFrom_word`, `takeWords_word`), so that the findings tell one argument more than before
(`Given.Tells.add`).

* `Argument`: what one word says, with `Argument.word`: the word;
* `Given.Tells`: the findings are what some arguments say;
* `count?_toString`: a count is read from its decimal text.
-/

namespace TokenTariff.CommandLine
set_option autoImplicit false

/-! ## Counts -/

theorem digit?_of_isDigit {c : Char} (h : c.isDigit = true) :
    digit? c = some (c.toNat - '0'.toNat) := by
  rw [Char.isDigit, Bool.and_eq_true] at h
  exact if_pos ⟨of_decide_eq_true h.1, of_decide_eq_true h.2⟩

theorem foldlM_digits {chars : List Char} (digits : ∀ c ∈ chars, c.isDigit = true) (n : Nat) :
    chars.foldlM (fun n c => (digit? c).map (n * 10 + ·)) n =
      some (Nat.ofDigitChars 10 chars n) := by
  induction chars generalizing n with
  | nil => rfl
  | cons c chars ih =>
    have digit := digit?_of_isDigit (digits c List.mem_cons_self)
    have rest := ih fun d mem => digits d (List.mem_cons_of_mem c mem)
    rw [List.foldlM_cons, digit, Option.map_some, Nat.ofDigitChars_cons, Nat.mul_comm 10 n]
    exact rest _

theorem digits_repr (n : Nat) : ∀ c ∈ n.repr.toList, c.isDigit = true := by
  intro c mem
  rw [Nat.toList_repr] at mem
  exact Nat.isDigit_of_mem_toDigits (by decide) (by decide) mem

theorem natural?_repr (n : Nat) : natural? n.repr.toList = some n := by
  have read := foldlM_digits (digits_repr n) 0
  rw [Nat.toList_repr, Nat.ofDigitChars_ten_toDigits] at read
  rw [Nat.toList_repr]
  cases chars : Nat.toDigits 10 n with
  | nil => exact absurd chars Nat.toDigits_ne_nil
  | cons c rest => rwa [chars] at read

/-- Digits begin with no sign. -/
theorem wholeNumber?_of_digits {chars : List Char} (digits : ∀ c ∈ chars, c.isDigit = true)
    {n : Nat} (read : natural? chars = some n) : wholeNumber? chars = some (n : Int) := by
  unfold wholeNumber?
  split
  · exact absurd (digits '-' List.mem_cons_self) (by decide)
  · exact absurd (digits '+' List.mem_cons_self) (by decide)
  · rw [read]
    rfl

theorem wholeNumber?_toString (n : Int) : wholeNumber? (toString n).toList = some n := by
  cases n with
  | ofNat n => exact wholeNumber?_of_digits (digits_repr n) (natural?_repr n)
  | negSucc n =>
    have chars : (toString (Int.negSucc n)).toList = '-' :: (n + 1).repr.toList := by
      rw [show toString (Int.negSucc n) = "-" ++ (n + 1).repr from rfl, String.toList_append]
      rfl
    rw [chars, wholeNumber?, natural?_repr, Int.negSucc_eq]
    rfl

/-- The decimal text of a count is read as that count. -/
theorem count?_toString (n : TokenCount) : count? (toString n.val) = some n := by
  rw [count?, wholeNumber?_toString, Option.bind_some, TokenCount.ofInt?]
  exact dif_pos ⟨n.least, n.greatest⟩

/-! ## Words -/

/-- What one word of a command line can say. -/
inductive Argument where
  | switch (s : Switch)
  | text (flag : TextFlag) (value : String)
  | count (flag : CountFlag) (value : TokenCount)
  | model (name : String)
  deriving DecidableEq

def Switch.name : Switch → String
  | json => "json"
  | offline => "offline"
  | debug => "debug"

def TextFlag.name : TextFlag → String
  | pricingFile => "pricing-file"
  | pricingUrl => "pricing-url"

def CountFlag.name : CountFlag → String
  | input => "input"
  | output => "output"
  | cacheWrite => "cache-create"
  | cacheRead => "cache-read"
  | fiveMinuteWrite => "cache-5m"
  | oneHourWrite => "cache-1h"

namespace Argument

/-- The word that says it. -/
def word : Argument → String
  | switch s => "--" ++ s.name
  | text flag value => "--" ++ flag.name ++ "=" ++ value
  | count flag n => "--" ++ flag.name ++ "=" ++ toString n.val
  | model name => name

/-- Whether the word may stand before the name of the command as well as after it. -/
def isGlobal : Argument → Bool
  | switch _ => true
  | text _ _ => true
  | count _ _ => false
  | model _ => false

/-- Whether the word can be read as what it says: a name that begins with a dash would be taken for
a flag, and an empty path for none. -/
def IsClear : Argument → Prop
  | switch _ => True
  | text flag value => flag = .pricingFile → value ≠ ""
  | count _ _ => True
  | model name => name.toList.head? ≠ some '-'

/-- What may be said once only. -/
inductive Subject where
  | switch (s : Switch)
  | text (flag : TextFlag)
  | count (flag : CountFlag)
  | model
  deriving DecidableEq

def subject : Argument → Subject
  | switch s => .switch s
  | text flag _ => .text flag
  | count flag _ => .count flag
  | model _ => .model

/-- Findings with one more of them. -/
def addTo (given : Given) : Argument → Given
  | switch s => { given with switches := s :: given.switches }
  | text flag value => { given with texts := (flag, value) :: given.texts }
  | count flag n => { given with counts := (flag, n) :: given.counts }
  | model name => { given with model := some name }

end Argument

/-! ## Findings -/

/-- Findings are what some arguments say. -/
structure Given.Tells (given : Given) (told : List Argument) : Prop where
  switches : ∀ s, s ∈ given.switches ↔ .switch s ∈ told
  texts : ∀ flag value, given.texts.lookup flag = some value ↔ .text flag value ∈ told
  counts : ∀ flag n, given.counts.lookup flag = some n ↔ .count flag n ∈ told
  model : ∀ name, given.model = some name ↔ .model name ∈ told

theorem Given.tells_empty : Given.empty.Tells [] where
  switches s := by simp [empty]
  texts flag value := by simp [empty]
  counts flag n := by simp [empty]
  model name := by simp [empty]

/-- An entry under a new name hides no other one. -/
theorem lookup_cons_iff {α β : Type} [DecidableEq α] {a a' : α} {b b' : β} {items : List (α × β)}
    (new : ∀ b, items.lookup a' ≠ some b) :
    List.lookup a ((a', b') :: items) = some b ↔ (a = a' ∧ b = b') ∨ items.lookup a = some b := by
  rw [List.lookup_cons]
  by_cases same : a = a'
  · subst same
    simp [new b, eq_comm]
  · simp [beq_eq_false_iff_ne.2 same, same]

variable {given : Given} {told : List Argument} {a : Argument}

namespace Given.Tells
variable (tells : given.Tells told)
include tells

theorem perm {told' : List Argument} (same : told.Perm told') : given.Tells told' where
  switches s := (tells.switches s).trans same.mem_iff
  texts flag value := (tells.texts flag value).trans same.mem_iff
  counts flag n := (tells.counts flag n).trans same.mem_iff
  model name := (tells.model name).trans same.mem_iff

/-! Nothing is found on a subject that no argument is about. -/

theorem no_switch {s : Switch} (new : .switch s ∉ told.map Argument.subject) :
    s ∉ given.switches :=
  fun on => new (List.mem_map_of_mem (f := Argument.subject) ((tells.switches s).1 on))

theorem no_text {flag : TextFlag} (new : .text flag ∉ told.map Argument.subject) (value : String) :
    given.texts.lookup flag ≠ some value :=
  fun has => new (List.mem_map_of_mem (f := Argument.subject) ((tells.texts flag value).1 has))

theorem no_count {flag : CountFlag} (new : .count flag ∉ told.map Argument.subject)
    (n : TokenCount) : given.counts.lookup flag ≠ some n :=
  fun has => new (List.mem_map_of_mem (f := Argument.subject) ((tells.counts flag n).1 has))

theorem no_model (new : .model ∉ told.map Argument.subject) (name : String) :
    given.model ≠ some name :=
  fun has => new (List.mem_map_of_mem (f := Argument.subject) ((tells.model name).1 has))

/-- Findings with one more of them tell one argument more, if it is about a new subject. -/
theorem add (new : a.subject ∉ told.map Argument.subject) : (a.addTo given).Tells (a :: told) := by
  have ⟨switches, texts, counts, models⟩ := tells
  cases a with
  | switch s => constructor <;> simp [Argument.addTo, switches, texts, counts, models]
  | text flag value =>
    have fresh := tells.no_text new
    constructor <;> simp [Argument.addTo, lookup_cons_iff fresh, switches, texts, counts, models]
  | count flag n =>
    have fresh := tells.no_count new
    constructor <;> simp [Argument.addTo, lookup_cons_iff fresh, switches, texts, counts, models]
  | model name =>
    have fresh : ∀ other, .model other ∉ told := fun other =>
      (models other).not.1 (tells.no_model new other)
    constructor <;> simp [Argument.addTo, fresh, switches, texts, counts, eq_comm]

end Given.Tells

/-! ## Reading a word -/

theorem Switch.named? (part : Part) (s : Switch) :
    '=' ∉ s.name.toList ∧ Flag.named? part s.name = some (.switch s) := by
  cases part <;> cases s <;> decide

theorem TextFlag.named? (part : Part) (flag : TextFlag) :
    '=' ∉ flag.name.toList ∧ Flag.named? part flag.name = some (.value (.text flag)) := by
  cases part <;> cases flag <;> decide

theorem CountFlag.named? (flag : CountFlag) :
    '=' ∉ flag.name.toList ∧ Flag.named? .cost flag.name = some (.value (.count flag)) := by
  cases flag <;> decide

section Words
variable {part : Part} {name : String}

theorem forall_ne_of_not_mem {chars : List Char} (plain : '=' ∉ chars) :
    ∀ c ∈ chars, (c != '=') = true :=
  fun _ mem => bne_iff_ne.2 fun e => plain (e ▸ mem)

theorem takeFlagWord?_of_dashes {word : String} {chars : List Char}
    (h : word.toList = '-' :: '-' :: chars) (scan : Scan) :
    takeFlagWord? part word scan = some (scan.takeName part chars) := by
  simp only [takeFlagWord?, h]

theorem takeFlagWord?_of_no_dash {word : String} (h : word.toList.head? ≠ some '-')
    (given : Given) : takeFlagWord? part word ⟨given, none⟩ = none := by
  unfold takeFlagWord?
  split
  · next e => simp [e] at h
  · next e => simp [e] at h
  · next waiting _ _ => cases waiting
  · rfl

/-- The name of a switch turns it on. -/
theorem takeFlagWord?_name {s : Switch} (plain : '=' ∉ name.toList)
    (named : Flag.named? part name = some (.switch s)) (given : Given) :
    takeFlagWord? part ("--" ++ name) ⟨given, none⟩ =
      some ((given.addSwitch s).map (Scan.mk · none)) := by
  have chars : ("--" ++ name).toList = '-' :: '-' :: name.toList := by simp
  have whole : name.toList.takeWhile (· != '=') = name.toList :=
    List.takeWhile_eq_self_iff.2 (forall_ne_of_not_mem plain)
  have taken : (Scan.mk given none).takeFlag (.switch s) none =
      (given.addSwitch s).map (Scan.mk · none) := by
    show (given.addSwitch s >>= fun given => Except.ok (Scan.mk given none)) = _
    cases given.addSwitch s <;> rfl
  rw [takeFlagWord?_of_dashes chars, Scan.takeName]
  simp only [whole, String.ofList_toList, named, List.drop_length, taken]

/-- What follows the first equals sign is the value. -/
theorem takeFlagWord?_value {flag : ValueFlag} (plain : '=' ∉ name.toList)
    (named : Flag.named? part name = some (.value flag)) (value : String) (given : Given) :
    takeFlagWord? part ("--" ++ name ++ "=" ++ value) ⟨given, none⟩ =
      some ((given.addValue flag value).map (Scan.mk · none)) := by
  have chars : ("--" ++ name ++ "=" ++ value).toList =
      '-' :: '-' :: (name.toList ++ '=' :: value.toList) := by simp
  have front : (name.toList ++ '=' :: value.toList).takeWhile (· != '=') = name.toList := by
    rw [List.takeWhile_append_of_pos (forall_ne_of_not_mem plain)]
    simp
  have taken : (Scan.mk given none).takeFlag (.value flag) (some value) =
      (given.addValue flag value).map (Scan.mk · none) := by
    show (given.addValue flag value >>= fun given => Except.ok (Scan.mk given none)) = _
    cases given.addValue flag value <;> rfl
  rw [takeFlagWord?_of_dashes chars, Scan.takeName]
  simp only [front, String.ofList_toList, named, List.drop_left, taken]

end Words

theorem Given.addText_of_new {flag : TextFlag} {value : String}
    (new : ∀ other, given.texts.lookup flag ≠ some other)
    (clear : flag = .pricingFile → value ≠ "") :
    given.addText flag value = .ok { given with texts := (flag, value) :: given.texts } := by
  have none : given.texts.lookup flag = none := Option.eq_none_iff_forall_ne_some.2 new
  rw [addText, none, if_neg (by simp), if_neg fun empty => clear empty.1 empty.2]

theorem Given.addCount_of_new {flag : CountFlag} (n : TokenCount)
    (new : ∀ other, given.counts.lookup flag ≠ some other) :
    given.addCount flag (toString n.val) =
      .ok { given with counts := (flag, n) :: given.counts } := by
  have none : given.counts.lookup flag = none := Option.eq_none_iff_forall_ne_some.2 new
  rw [addCount, none, if_neg (by simp), count?_toString]

/-- A word that is no model adds what it says, wherever in the command line it may stand. -/
theorem takeFlagWord?_word (tells : given.Tells told) (new : a.subject ∉ told.map Argument.subject)
    (clear : a.IsClear) (noModel : ∀ name, a ≠ .model name) {part : Part}
    (allowed : a.isGlobal = true ∨ part = .cost) :
    takeFlagWord? part a.word ⟨given, none⟩ = some (.ok ⟨a.addTo given, none⟩) := by
  cases a with
  | switch s =>
    obtain ⟨plain, named⟩ := Switch.named? part s
    rw [Argument.word, takeFlagWord?_name plain named, Given.addSwitch,
      if_neg (tells.no_switch new)]
    rfl
  | text flag value =>
    obtain ⟨plain, named⟩ := TextFlag.named? part flag
    rw [Argument.word, takeFlagWord?_value plain named, Given.addValue,
      Given.addText_of_new (tells.no_text new) clear]
    rfl
  | count flag n =>
    obtain rfl : part = .cost := allowed.resolve_left nofun
    obtain ⟨plain, named⟩ := CountFlag.named? flag
    rw [Argument.word, takeFlagWord?_value plain named, Given.addValue,
      Given.addCount_of_new n (tells.no_count new)]
    rfl
  | model name => exact absurd rfl (noModel name)

/-- Two dashes alone, behind which nothing is a flag, are no such word. -/
theorem Argument.word_ne_dashes (clear : a.IsClear) : a.word ≠ "--" := by
  intro e
  have chars := congrArg String.toList e
  cases a with
  | switch s => cases s <;> simp [word, Switch.name] at chars
  | text flag value => cases flag <;> simp [word, TextFlag.name] at chars
  | count flag n => cases flag <;> simp [word, CountFlag.name] at chars
  | model name => exact clear (by rw [show name.toList = _ from chars]; rfl)

/-- A word after the name of the command adds what it says. -/
theorem takeWords_word (tells : given.Tells told) (new : a.subject ∉ told.map Argument.subject)
    (clear : a.IsClear) (words : List String) :
    takeWords .cost (a.word :: words) ⟨given, none⟩ =
      takeWords .cost words ⟨a.addTo given, none⟩ := by
  rw [takeWords, if_neg (Argument.word_ne_dashes clear)]
  by_cases model : ∃ name, a = .model name
  · obtain ⟨name, rfl⟩ := model
    have none : given.model = none := Option.eq_none_iff_forall_ne_some.2 (tells.no_model new)
    have taken : Scan.takeModel .cost name ⟨given, .none⟩ =
        .ok ⟨{ given with model := some name }, .none⟩ := by
      rw [Scan.takeModel, none]
      rfl
    rw [Argument.word, takeFlagWord?_of_no_dash clear, Option.getD_none, taken]
    rfl
  · have noModel : ∀ name, a ≠ .model name := fun name e => model ⟨name, e⟩
    rw [takeFlagWord?_word tells new clear noModel (.inr rfl)]
    rfl

/-- A word before the name of the command does so too, if it may stand there. -/
theorem parseFrom_word (tells : given.Tells told) (new : a.subject ∉ told.map Argument.subject)
    (clear : a.IsClear) (isGlobal : a.isGlobal = true) (words : List String) :
    parseFrom (a.word :: words) ⟨given, none⟩ = parseFrom words ⟨a.addTo given, none⟩ := by
  have noModel : ∀ name, a ≠ .model name := by
    rintro name rfl
    cases isGlobal
  rw [parseFrom, if_neg (Argument.word_ne_dashes clear),
    takeFlagWord?_word tells new clear noModel (.inl isGlobal)]
  rfl

end TokenTariff.CommandLine
