import TokenTariff.Proofs.Json.Numbers
import TokenTariff.Proofs.Json.Strings
/-!
# The grammar of JSON texts

Which texts are read as which values, told apart from any reading: scalars, and the parts of a list
or an object with commas between them.

* `Sequence`, `Enclosed`: texts of parts with commas between them, and between brackets;
* `CompositeText`: the texts of lists and objects;
* `Takes read Text`: a reader takes from the front what a grammar says, and nothing else.

The readers of the parts of a list (`readList_eq_ok_iff`) and of the members of an object
(`readObject_eq_ok_iff`) take what the grammar says. The amount of fuel is irrelevant as soon as it is
that of the number of parts (`IsLoop.complete`).
-/

namespace TokenTariff.Json
set_option autoImplicit false

/-! ## Texts -/

def NumberText (text : Bytes) (n : Number) : Prop :=
  number text = .ok (n, [])

/-- The texts of words, strings and numbers. -/
inductive ScalarText : Bytes → Value → Prop where
  | word {b : UInt8} {letters : Bytes} {v : Value} (h : word? b = some (letters, v)) :
      ScalarText (b :: letters) v
  | string {text : Bytes} {string : String} (h : StringText text string) :
      ScalarText (quoteMark :: text) (.string string)
  | number {text : Bytes} {n : Number} (h : NumberText text n) : ScalarText text (.number n)

section
variable {α : Type}

/-- A part with the blanks around it. -/
def Spaced (Part : Bytes → α → Prop) (text : Bytes) (part : α) : Prop :=
  ∃ before inner after, IsBlanks before ∧ IsBlanks after ∧ Part inner part ∧
    text = before ++ (inner ++ after)

/-- Parts with commas between them; blanks may stand after each part and after each comma. -/
inductive Sequence (Part : Bytes → α → Prop) : Bytes → List α → Prop where
  | last {text after : Bytes} {part : α} (h : Part text part) (blanks : IsBlanks after) :
      Sequence Part (text ++ after) [part]
  | more {text after before rest : Bytes} {part : α} {parts : List α} (h : Part text part)
      (blanks : IsBlanks after) (blanks' : IsBlanks before) (tail : Sequence Part rest parts) :
      Sequence Part (text ++ (after ++ comma :: (before ++ rest))) (part :: parts)

def Composite.opening : Composite → UInt8
  | list => openList
  | object => openObject

/-- Parts between the brackets of a list or an object. -/
inductive Enclosed (kind : Composite) (Part : Bytes → α → Prop) : Bytes → List α → Prop where
  | empty {blanks : Bytes} (h : IsBlanks blanks) :
      Enclosed kind Part (kind.opening :: (blanks ++ [kind.closing])) []
  | filled {blanks text : Bytes} {parts : List α} (h : IsBlanks blanks)
      (sequence : Sequence Part text parts) :
      Enclosed kind Part (kind.opening :: (blanks ++ (text ++ [kind.closing]))) parts

end

/-- A name, a colon and a value. -/
def MemberText (Text : Bytes → Value → Prop) (text : Bytes) (member : String × Value) : Prop :=
  ∃ name after before inner, StringText name member.1 ∧ IsBlanks after ∧ IsBlanks before ∧
    Text inner member.2 ∧ text = quoteMark :: (name ++ (after ++ colon :: (before ++ inner)))

/-- The texts of lists and objects of which `Text` tells the texts of the values inside. -/
inductive CompositeText (Text : Bytes → Value → Prop) : Bytes → Value → Prop where
  | list {text : Bytes} {items : List Value} (h : Enclosed .list Text text items) :
      CompositeText Text text (.list items)
  | object {text : Bytes} {members : List (String × Value)}
      (h : Enclosed .object (MemberText Text) text members) :
      CompositeText Text text (.object members)

/-! ## Parts of a text -/

section
variable {α : Type} {Part Part' : Bytes → α → Prop} {Text Text' : Bytes → Value → Prop}

/-- The parts of a sequence may be known by another grammar; none is longer than the sequence. -/
theorem Sequence.imp {text : Bytes} {parts : List α} (h : Sequence Part text parts) :
    (∀ inner part, inner.length ≤ text.length → Part inner part → Part' inner part) →
      Sequence Part' text parts := by
  induction h with
  | last isPart blank => exact fun imp => .last (imp _ _ (by simp) isPart) blank
  | more isPart blank blank' _ ih =>
    refine fun imp => .more (imp _ _ (by simp) isPart) blank blank' (ih fun inner part le => ?_)
    refine imp inner part (le.trans ?_)
    simp only [List.length_append, List.length_cons]
    omega

theorem Enclosed.imp {kind : Composite} {text : Bytes} {parts : List α}
    (h : Enclosed kind Part text parts)
    (imp : ∀ inner part, inner.length < text.length → Part inner part → Part' inner part) :
    Enclosed kind Part' text parts := by
  cases h with
  | empty blank => exact .empty blank
  | filled blank sequence =>
    refine .filled blank (sequence.imp fun inner part le => imp inner part ?_)
    simp only [List.length_append, List.length_cons]
    omega

theorem MemberText.imp {text : Bytes} {member : String × Value} (h : MemberText Text text member)
    (imp : ∀ inner v, inner.length < text.length → Text inner v → Text' inner v) :
    MemberText Text' text member := by
  obtain ⟨name, after, before, inner, isName, blank, blank', isValue, rfl⟩ := h
  refine ⟨name, after, before, inner, isName, blank, blank', imp inner _ ?_ isValue, rfl⟩
  simp only [List.length_append, List.length_cons]
  omega

/-- The values inside of a text may be known by another grammar; each is shorter than the text. -/
theorem CompositeText.imp {text : Bytes} {v : Value} (h : CompositeText Text text v)
    (imp : ∀ inner v, inner.length < text.length → Text inner v → Text' inner v) :
    CompositeText Text' text v := by
  cases h with
  | list enclosed => exact .list (enclosed.imp imp)
  | object enclosed =>
    refine .object (enclosed.imp fun inner member lt isMember => isMember.imp fun inner' v lt' => ?_)
    exact imp inner' v (lt'.trans lt)

theorem Enclosed.begins {kind : Composite} {text : Bytes} {parts : List α}
    (h : Enclosed kind Part text parts) : ∃ tail, text = kind.opening :: tail := by
  cases h with
  | empty _ => exact ⟨_, rfl⟩
  | filled _ _ => exact ⟨_, rfl⟩

theorem Sequence.exists_first {text : Bytes} {part : α} {parts : List α}
    (h : Sequence Part text (part :: parts)) :
    ∃ inner rest, Part inner part ∧ text = inner ++ rest := by
  cases h with
  | last isPart _ => exact ⟨_, _, isPart, rfl⟩
  | more isPart _ _ _ => exact ⟨_, _, isPart, rfl⟩

end

/-! ## Readers of a grammar -/

/-- `read` takes the texts of a grammar from the front, behind any blanks. -/
structure Takes {α : Type} (read : Reader α) (Text : Bytes → α → Prop) : Prop where
  skip : ∀ bytes, read (skipBlanks bytes) = read bytes
  sound : ∀ {bytes rest a}, read bytes = .ok (a, rest) →
    ∃ text, skipBlanks bytes = text ++ rest ∧ Text text a
  complete : ∀ {text rest a}, Text text a → Stops rest → read (text ++ rest) = .ok (a, rest)
  begins : ∀ {text a}, Text text a → ∃ b tail, text = b :: tail ∧ isDelimiter b = false

theorem isBlank_of_not_delimiter {b : UInt8} (h : isDelimiter b = false) : isBlank b = false := by
  simp only [isDelimiter, Bool.or_eq_false_iff] at h
  exact h.1.1.1

namespace Takes
variable {α : Type} {read : Reader α} {Text : Bytes → α → Prop} (takes : Takes read Text)
include takes

theorem skipBlanks_append {blanks text : Bytes} {a : α} (blank : IsBlanks blanks)
    (h : Text text a) (rest : Bytes) : skipBlanks (blanks ++ (text ++ rest)) = text ++ rest := by
  obtain ⟨b, tail, rfl, begins⟩ := takes.begins h
  exact skipBlanks_append_cons blank (isBlank_of_not_delimiter begins) _

/-- What a reader makes of a text that holds nothing else. -/
theorem whole_eq_ok_iff {bytes : Bytes} {a : α} :
    whole read bytes = .ok a ↔ Spaced Text bytes a := by
  unfold whole
  rw [bind_eq_ok_iff]
  constructor
  · rintro ⟨⟨a', rest⟩, found, h⟩
    simp only at h
    split at h
    · next ended =>
      cases h
      obtain ⟨text, split, isText⟩ := takes.sound found
      obtain ⟨b, tail, rfl, begins⟩ := takes.begins isText
      obtain ⟨-, before, blank, e⟩ := blanks_of_skipBlanks split
      refine ⟨before, b :: tail, rest, blank, ?_, isText, e⟩
      exact skipBlanks_eq_nil_iff.1 (List.isEmpty_iff.1 ended)
    · cases h
  · rintro ⟨before, text, after, blank, blank', isText, rfl⟩
    refine ⟨(a, after), ?_, ?_⟩
    · rw [← takes.skip, takes.skipBlanks_append blank isText,
        takes.complete isText (.blanks blank')]
    · have ended : (skipBlanks after).isEmpty = true :=
        List.isEmpty_iff.2 (skipBlanks_eq_nil_iff.2 blank')
      simp only [ended]
      rfl

end Takes

/-! ## Lists and objects -/

section
variable {α σ : Type}

theorem Sequence.length_le {Part : Bytes → α → Prop}
    (begins : ∀ {text a}, Part text a → ∃ b tail, text = b :: tail ∧ isDelimiter b = false)
    {text : Bytes} {parts : List α} (h : Sequence Part text parts) :
    parts.length ≤ text.length := by
  induction h with
  | last part _ =>
    obtain ⟨b, tail, rfl, -⟩ := begins part
    simp
  | more part _ _ _ ih =>
    obtain ⟨b, tail, rfl, -⟩ := begins part
    simp only [List.length_cons, List.length_append]
    omega

theorem Sequence.begins {Part : Bytes → α → Prop}
    (begins : ∀ {text a}, Part text a → ∃ b tail, text = b :: tail ∧ isDelimiter b = false)
    {text : Bytes} {parts : List α} (h : Sequence Part text parts) :
    ∃ b tail, text = b :: tail ∧ isDelimiter b = false := by
  cases h with
  | last part _ =>
    obtain ⟨b, tail, rfl, begins⟩ := begins part
    exact ⟨b, _, rfl, begins⟩
  | more part _ _ _ =>
    obtain ⟨b, tail, rfl, begins⟩ := begins part
    exact ⟨b, _, rfl, begins⟩

theorem Composite.isDelimiter_closing (kind : Composite) : isDelimiter kind.closing = true := by
  cases kind <;> rfl

theorem Composite.isBlank_closing (kind : Composite) : isBlank kind.closing = false := by
  cases kind <;> rfl

theorem Composite.closing_ne_comma (kind : Composite) : kind.closing ≠ comma := by
  cases kind <;> decide

/-- `loop` takes a part and goes on behind a comma, until it finds the closing bracket. -/
structure IsLoop (kind : Composite) (take : σ → Reader σ) (loop : Nat → σ → Reader σ) : Prop where
  zero : ∀ {state bytes result}, loop 0 state bytes ≠ .ok result
  succ : ∀ {fuel state bytes state' rest},
    loop (fuel + 1) state bytes = .ok (state', rest) ↔
      ∃ next tail, take state bytes = .ok (next, tail) ∧
        (skipBlanks tail = kind.closing :: rest ∧ next = state' ∨
          ∃ more, skipBlanks tail = comma :: more ∧
            loop fuel next (skipBlanks more) = .ok (state', rest))

/-- `take` takes parts one after another, and goes from one state to another. -/
inductive TakesEach (take : σ → Reader σ) (Part : Bytes → α → Prop) : σ → List α → σ → Prop where
  | nil (state : σ) : TakesEach take Part state [] state
  | cons {state next last : σ} {part : α} {parts : List α}
      (first : ∀ {text rest}, Part text part → Stops rest →
        take state (text ++ rest) = .ok (next, rest))
      (others : TakesEach take Part next parts last) : TakesEach take Part state (part :: parts) last

theorem takesEach_foldl {take : σ → Reader σ} {Part : Bytes → α → Prop} {add : σ → α → σ}
    (takes : ∀ state, Takes (take state) fun text next => ∃ part, Part text part ∧
      next = add state part) (parts : List α) :
    ∀ state, TakesEach take Part state parts (parts.foldl add state) := by
  induction parts with
  | nil => exact .nil
  | cons part parts ih =>
    intro state
    refine .cons (fun isPart stops => ?_) (ih (add state part))
    exact (takes state).complete ⟨part, isPart, rfl⟩ stops

namespace IsLoop
variable {kind : Composite} {take : σ → Reader σ} {loop : Nat → σ → Reader σ}
  {Part : Bytes → α → Prop} {add : σ → α → σ}

theorem sound (isLoop : IsLoop kind take loop)
    (takes : ∀ state, Takes (take state) fun text next => ∃ part, Part text part ∧
      next = add state part)
    {rest : Bytes} {state' : σ} :
    ∀ {fuel : Nat} {state : σ} {bytes : Bytes}, loop fuel state bytes = .ok (state', rest) →
      ∃ text parts, parts.length ≤ fuel ∧ skipBlanks bytes = text ++ kind.closing :: rest ∧
        Sequence Part text parts ∧ state' = parts.foldl add state
  | 0, state, bytes, h => absurd h isLoop.zero
  | fuel + 1, state, bytes, h => by
    obtain ⟨next, tail, found, goesOn⟩ := isLoop.succ.1 h
    obtain ⟨text, e, part, isPart, rfl⟩ := (takes state).sound found
    rcases goesOn with ended | ⟨more, split, goesOn⟩
    · obtain ⟨-, blanks, blank, rfl⟩ := blanks_of_skipBlanks ended.1
      refine ⟨text ++ blanks, [part], by simp, ?_, .last isPart blank, ended.2.symm⟩
      rw [e, List.append_assoc]
    · obtain ⟨-, blanks, blank, rfl⟩ := blanks_of_skipBlanks split
      obtain ⟨before, blank', e'⟩ := exists_blanks more
      obtain ⟨inner, parts, few, e'', sequence, rfl⟩ := sound isLoop takes goesOn
      rw [skipBlanks_skipBlanks] at e''
      refine ⟨_, part :: parts, by simpa using few, ?_, .more isPart blank blank' sequence, rfl⟩
      rw [e, e', e'']
      simp

/-- A loop takes a sequence of parts if `take` takes each of them, as soon as it has fuel for each. -/
theorem complete (isLoop : IsLoop kind take loop)
    (begins : ∀ {text part}, Part text part → ∃ b tail, text = b :: tail ∧ isDelimiter b = false)
    {text : Bytes} {parts : List α} (sequence : Sequence Part text parts) {last : σ}
    (rest : Bytes) :
    ∀ {fuel : Nat} {state : σ}, parts.length ≤ fuel → TakesEach take Part state parts last →
      loop fuel state (text ++ kind.closing :: rest) = .ok (last, rest) := by
  induction sequence with
  | @last text after part isPart blank =>
    intro fuel state few each
    obtain ⟨fuel, rfl⟩ := Nat.exists_eq_add_of_le' few
    cases each with
    | cons first others =>
      cases others
      refine isLoop.succ.2 ⟨last, after ++ kind.closing :: rest, ?_, .inl ⟨?_, rfl⟩⟩
      · rw [List.append_assoc]
        exact first isPart (.blanks_append blank (.cons kind.isDelimiter_closing _))
      · exact skipBlanks_append_cons blank kind.isBlank_closing rest
  | @more text after before inner part parts isPart blank blank' sequence ih =>
    intro fuel state few each
    obtain ⟨fuel, rfl⟩ := Nat.exists_eq_add_of_le' (Nat.one_le_of_lt few)
    cases each with
    | @cons _ next _ _ _ first others =>
      refine isLoop.succ.2 ⟨next, after ++ comma :: (before ++ (inner ++ kind.closing :: rest)), ?_,
        .inr ⟨before ++ (inner ++ kind.closing :: rest), ?_, ?_⟩⟩
      · simp only [List.append_assoc, List.cons_append]
        exact first isPart (.blanks_append blank (.cons rfl _))
      · exact skipBlanks_append_cons blank rfl _
      · obtain ⟨b, tail, rfl, notDelimiter⟩ := sequence.begins begins
        rw [List.cons_append, skipBlanks_append_cons blank' (isBlank_of_not_delimiter notDelimiter)]
        exact ih (Nat.le_of_succ_le_succ few) others

end IsLoop

/-- What comes first for a reader that takes something. -/
theorem Takes.front {read : Reader α} {Text : Bytes → α → Prop} (takes : Takes read Text)
    {bytes rest : Bytes} {a : α} (h : read bytes = .ok (a, rest)) :
    ∃ b tail, skipBlanks bytes = b :: tail ∧ isDelimiter b = false := by
  obtain ⟨text, split, isText⟩ := takes.sound h
  obtain ⟨b, tail, rfl, begins⟩ := takes.begins isText
  exact ⟨b, tail ++ rest, split, begins⟩

/-- What may follow a part: the closing bracket, or a comma and more. -/
theorem afterPart_eq_ok_iff {kind : Composite} {state state' : σ} {more : UInt8 → Reader σ}
    {bytes rest : Bytes} :
    afterPart kind state more bytes = .ok (state', rest) ↔
      (skipBlanks bytes = kind.closing :: rest ∧ state = state') ∨
        ∃ inner c tail, skipBlanks bytes = comma :: inner ∧ skipBlanks inner = c :: tail ∧
          more c tail = .ok (state', rest) := by
  have notComma := kind.closing_ne_comma
  unfold afterPart
  cases skipBlanks bytes with
  | nil => simp
  | cons b tail =>
    by_cases close : b = kind.closing
    · simp [close, notComma, and_comm]
    · by_cases isComma : b = comma
      · subst isComma
        cases split : skipBlanks tail <;> simp [close, split]
      · simp [close, isComma]

theorem isLoop_readItems {take : σ → Reader σ}
    (front : ∀ {state bytes next tail}, take state bytes = .ok (next, tail) →
      ∃ b more, skipBlanks bytes = b :: more ∧ isDelimiter b = false) :
    IsLoop .list take (readItems take) where
  zero := nofun
  succ := by
    intro fuel state bytes state' rest
    rw [readItems, bind_eq_ok_iff, Prod.exists]
    refine exists_congr fun next => exists_congr fun tail => and_congr_right fun _ => ?_
    simp only
    rw [afterPart_eq_ok_iff]
    refine or_congr_right ⟨?_, ?_⟩
    · rintro ⟨inner, c, rest', split, split', found⟩
      split at found
      · cases found
      · exact ⟨inner, split, split' ▸ found⟩
    · rintro ⟨inner, split, found⟩
      have goesOn : ∃ c rest', skipBlanks inner = c :: rest' ∧ isDelimiter c = false := by
        cases fuel with
        | zero => cases found
        | succ fuel =>
          rw [readItems, bind_eq_ok_iff] at found
          obtain ⟨_, first, -⟩ := found
          rw [← skipBlanks_skipBlanks]
          exact front first
      obtain ⟨c, rest', split', begins⟩ := goesOn
      refine ⟨inner, c, rest', split, split', ?_⟩
      rw [if_neg, ← split', found]
      rintro rfl
      cases begins

/-- Reads a member with its name, behind any blanks. -/
def takeNamed (take : σ → String → Reader σ) (state : σ) : Reader σ := fun bytes =>
  match skipBlanks bytes with
  | [] => .error .endInObject
  | b :: rest =>
    if b = quoteMark then do
      let (name, rest) ← stringBody rest
      take state name rest
    else .error .nameNotString

/-- Reads members up to the end of the object, the first of them behind any blanks. -/
def membersFrom (take : σ → String → Reader σ) (fuel : Nat) (state : σ) : Reader σ := fun bytes =>
  match skipBlanks bytes with
  | [] => .error .endInObject
  | b :: rest =>
    if b = quoteMark then readMembers take fuel state rest else .error .nameNotString

/-- One round of the loop over the members: one of them is taken, and the others behind it. -/
theorem membersFrom_succ (take : σ → String → Reader σ) (fuel : Nat) (state : σ) (bytes : Bytes) :
    membersFrom take (fuel + 1) state bytes =
      (takeNamed take state bytes >>= fun (next, tail) =>
        afterPart .object next (fun c more =>
          if c = quoteMark then readMembers take fuel next more
          else if c = closeObject then .error .trailingComma
          else .error .nameNotString) tail) := by
  unfold membersFrom takeNamed
  cases skipBlanks bytes with
  | nil => rfl
  | cons b rest =>
    simp only
    split
    · rw [readMembers]
      cases stringBody rest <;> rfl
    · rfl

theorem membersFrom_eq_ok_iff {take : σ → String → Reader σ} {fuel : Nat} {state : σ}
    {bytes : Bytes} {result : σ × Bytes} :
    membersFrom take fuel state bytes = .ok result ↔
      ∃ rest, skipBlanks bytes = quoteMark :: rest ∧ readMembers take fuel state rest = .ok result := by
  unfold membersFrom
  cases skipBlanks bytes with
  | nil => simp
  | cons b rest => by_cases quote : b = quoteMark <;> simp [quote]

theorem takeNamed_eq_ok_iff {take : σ → String → Reader σ} {state : σ} {bytes : Bytes}
    {result : σ × Bytes} :
    takeNamed take state bytes = .ok result ↔
      ∃ rest, skipBlanks bytes = quoteMark :: rest ∧
        ∃ name tail, stringBody rest = .ok (name, tail) ∧ take state name tail = .ok result := by
  unfold takeNamed
  cases skipBlanks bytes with
  | nil => simp
  | cons b rest => by_cases quote : b = quoteMark <;> simp [quote]

theorem isLoop_membersFrom (take : σ → String → Reader σ) :
    IsLoop .object (takeNamed take) (membersFrom take) where
  zero := by
    intro state bytes result h
    obtain ⟨_, -, h⟩ := membersFrom_eq_ok_iff.1 h
    cases h
  succ := by
    intro fuel state bytes state' rest
    rw [membersFrom_succ, bind_eq_ok_iff, Prod.exists]
    refine exists_congr fun next => exists_congr fun tail => and_congr_right fun _ => ?_
    simp only
    rw [afterPart_eq_ok_iff]
    refine or_congr_right (exists_congr fun inner => ?_)
    simp only [exists_and_left, membersFrom_eq_ok_iff, skipBlanks_skipBlanks]
    refine and_congr_right fun _ => ⟨?_, ?_⟩
    · rintro ⟨c, rest', split, found⟩
      split at found
      · next quote => exact ⟨rest', quote ▸ split, found⟩
      · split at found <;> cases found
    · rintro ⟨rest', split, found⟩
      exact ⟨quoteMark, rest', split, by rw [if_pos rfl, found]⟩

/-- An object is read as nothing, or as members up to its end. -/
theorem readObject_iff_membersFrom {take : σ → String → Reader σ} {start state' : σ}
    {bytes rest : Bytes} :
    readObject take start bytes = .ok (state', rest) ↔
      skipBlanks bytes = Composite.object.closing :: rest ∧ start = state' ∨
        membersFrom take bytes.length start (skipBlanks bytes) = .ok (state', rest) := by
  rw [membersFrom_eq_ok_iff, skipBlanks_skipBlanks]
  unfold readObject
  cases skipBlanks bytes with
  | nil => simp
  | cons b tail =>
    by_cases close : b = closeObject
    · subst close
      simp [Composite.closing, show closeObject ≠ quoteMark by decide, and_comm]
    · by_cases quote : b = quoteMark
      · simp [Composite.closing, quote, show quoteMark ≠ closeObject by decide]
      · simp [Composite.closing, close, quote]

theorem IsLoop.front {kind : Composite} {take : σ → Reader σ} {loop : Nat → σ → Reader σ}
    {Text : σ → Bytes → σ → Prop} (isLoop : IsLoop kind take loop)
    (takes : ∀ state, Takes (take state) (Text state)) {fuel : Nat} {state : σ} {bytes : Bytes}
    {result : σ × Bytes} (h : loop fuel state bytes = .ok result) :
    ∃ b tail, skipBlanks bytes = b :: tail ∧ isDelimiter b = false := by
  cases fuel with
  | zero => exact absurd h isLoop.zero
  | succ fuel =>
    obtain ⟨next, tail, found, -⟩ := isLoop.succ.1 h
    exact (takes state).front found

/-- A loop takes what is between brackets, unless there is nothing. -/
theorem IsLoop.of_enclosed {kind : Composite} {take : σ → Reader σ} {loop : Nat → σ → Reader σ}
    {Part : Bytes → α → Prop} (isLoop : IsLoop kind take loop)
    (begins : ∀ {text part}, Part text part → ∃ b tail, text = b :: tail ∧ isDelimiter b = false)
    {text bytes rest : Bytes} {parts : List α} (enclosed : Enclosed kind Part text parts)
    {start last : σ} (each : TakesEach take Part start parts last)
    (split : kind.opening :: bytes = text ++ rest) :
    skipBlanks bytes = kind.closing :: rest ∧ start = last ∨
      loop bytes.length start (skipBlanks bytes) = .ok (last, rest) := by
  cases enclosed with
  | @empty blanks blank =>
    rw [List.cons_append, List.cons.injEq, List.append_assoc] at split
    rw [split.2]
    cases each
    exact .inl ⟨skipBlanks_append_cons blank kind.isBlank_closing rest, rfl⟩
  | @filled blanks text parts blank sequence =>
    rw [List.cons_append, List.cons.injEq, List.append_assoc, List.append_assoc] at split
    have few := sequence.length_le begins
    obtain ⟨b, tail, rfl, notDelimiter⟩ := sequence.begins begins
    rw [split.2, List.cons_append,
      skipBlanks_append_cons blank (isBlank_of_not_delimiter notDelimiter), ← List.cons_append]
    refine .inr (isLoop.complete begins sequence rest ?_ each)
    simp only [List.length_append, List.length_cons] at few ⊢
    omega

/-- What is read between brackets, if it is either nothing or what a loop takes. -/
theorem IsLoop.enclosed_iff {kind : Composite} {take : σ → Reader σ} {loop : Nat → σ → Reader σ}
    {Part : Bytes → α → Prop} {add : σ → α → σ} (isLoop : IsLoop kind take loop)
    (takes : ∀ state, Takes (take state) fun text next => ∃ part, Part text part ∧
      next = add state part)
    {start state' : σ} {bytes rest : Bytes} :
    (skipBlanks bytes = kind.closing :: rest ∧ start = state' ∨
        loop bytes.length start (skipBlanks bytes) = .ok (state', rest)) ↔
      ∃ text parts, kind.opening :: bytes = text ++ rest ∧ Enclosed kind Part text parts ∧
        state' = parts.foldl add start := by
  constructor
  · obtain ⟨blanks, blank, split⟩ := exists_blanks bytes
    rintro (⟨e, rfl⟩ | taken)
    · refine ⟨_, [], ?_, .empty blank, rfl⟩
      rw [split, e]
      simp
    · obtain ⟨text, parts, -, e, sequence, rfl⟩ := isLoop.sound takes taken
      rw [skipBlanks_skipBlanks] at e
      refine ⟨_, parts, ?_, .filled blank sequence, rfl⟩
      rw [split, e]
      simp
  · rintro ⟨text, parts, split, enclosed, rfl⟩
    exact isLoop.of_enclosed (fun part => (takes start).begins ⟨_, part, rfl⟩) enclosed
      (takesEach_foldl takes parts start) split

end

section
variable {read : Reader Value} {Text : Bytes → Value → Prop}

theorem takes_takeItem (takes : Takes read Text) (items : List Value) :
    Takes (takeItem read items) fun text next => ∃ item, Text text item ∧ next = item :: items where
  skip bytes := by rw [takeItem, takeItem, takes.skip]
  sound h := by
    obtain ⟨⟨item, rest⟩, found, e⟩ := map_eq_ok_iff.1 h
    cases e
    obtain ⟨text, split, isText⟩ := takes.sound found
    exact ⟨text, split, item, isText, rfl⟩
  complete h stops := by
    obtain ⟨item, isText, rfl⟩ := h
    exact map_eq_ok_iff.2 ⟨_, takes.complete isText stops, rfl⟩
  begins h := by
    obtain ⟨item, isText, -⟩ := h
    exact takes.begins isText

theorem takeMember_eq_ok_iff {members members' : List (String × Value)} {name : String}
    {bytes rest : Bytes} :
    takeMember read members name bytes = .ok (members', rest) ↔
      ∃ tail value, skipBlanks bytes = colon :: tail ∧ read tail = .ok (value, rest) ∧
        members' = (name, value) :: members := by
  unfold takeMember
  simp only [bind_eq_ok_iff, takeColon_eq_ok_iff, Prod.exists, Except.ok.injEq, Prod.mk.injEq]
  constructor
  · rintro ⟨tail, split, value, rest', found, rfl, rfl⟩
    exact ⟨tail, value, split, found, rfl⟩
  · rintro ⟨tail, value, split, found, rfl⟩
    exact ⟨tail, split, value, rest, found, rfl, rfl⟩

theorem takes_takeNamed (takes : Takes read Text) (members : List (String × Value)) :
    Takes (takeNamed (takeMember read) members) fun text next =>
      ∃ member, MemberText Text text member ∧ next = member :: members where
  skip bytes := by rw [takeNamed, takeNamed, skipBlanks_skipBlanks]
  sound h := by
    obtain ⟨inner, split, name, tail, named, taken⟩ := takeNamed_eq_ok_iff.1 h
    obtain ⟨tail', value, split', found, rfl⟩ := takeMember_eq_ok_iff.1 taken
    obtain ⟨text, rfl, isName⟩ := stringBody_eq_ok_iff.1 named
    obtain ⟨-, after, blank, rfl⟩ := blanks_of_skipBlanks split'
    obtain ⟨valueText, e, isValue⟩ := takes.sound found
    obtain ⟨before, blank', e'⟩ := exists_blanks tail'
    refine ⟨_, ?_, (name, value), ⟨text, after, before, valueText, isName, blank, blank', isValue,
      rfl⟩, rfl⟩
    rw [split, e', e]
    simp
  complete := by
    intro text rest next h stops
    obtain ⟨⟨name, value⟩, ⟨named, after, before, inner, isName, blank, blank', isValue, rfl⟩,
      rfl⟩ := h
    refine takeNamed_eq_ok_iff.2 ⟨_, skipBlanks_cons rfl _, name, _,
      stringBody_eq_ok_iff.2 ⟨named, List.append_assoc .., isName⟩, ?_⟩
    refine takeMember_eq_ok_iff.2 ⟨before ++ (inner ++ rest), value, ?_, ?_, rfl⟩
    · rw [List.append_assoc, List.cons_append, List.append_assoc]
      exact skipBlanks_append_cons blank rfl _
    · rw [← takes.skip, takes.skipBlanks_append blank' isValue]
      exact takes.complete isValue stops
  begins h := by
    obtain ⟨member, ⟨text, after, before, inner, -, -, -, -, rfl⟩, -⟩ := h
    exact ⟨quoteMark, _, rfl, rfl⟩

theorem foldl_cons_eq {α : Type} (parts : List α) :
    parts.foldl (fun parts part => part :: parts) [] = parts.reverse := by
  rw [List.foldl_flip_cons_eq_append', List.append_nil]

theorem readList_eq_ok_iff (takes : Takes read Text) {items : List Value} {bytes rest : Bytes} :
    readList (takeItem read) [] bytes = .ok (items, rest) ↔
      ∃ text parts, openList :: bytes = text ++ rest ∧ Enclosed .list Text text parts ∧
        items = parts.reverse := by
  have isLoop : IsLoop .list (takeItem read) (readItems (takeItem read)) :=
    isLoop_readItems fun h => (takes_takeItem takes _).front h
  simp only [← foldl_cons_eq]
  rw [← show Composite.list.opening = openList from rfl,
    ← isLoop.enclosed_iff fun items => takes_takeItem takes items]
  have front {fuel : Nat} {bytes : Bytes} {result : List Value × Bytes}
      (h : readItems (takeItem read) fuel [] bytes = .ok result) :=
    isLoop.front (fun items => takes_takeItem takes items) h
  unfold readList
  cases skipped : skipBlanks bytes with
  | nil =>
    simp only [reduceCtorEq, false_and, false_or, false_iff]
    intro h
    obtain ⟨_, _, e, -⟩ := front h
    cases e
  | cons b tail =>
    by_cases close : b = closeList
    · subst close
      have none : ¬ readItems (takeItem read) bytes.length [] (closeList :: tail) =
          .ok (items, rest) := fun h => by
        obtain ⟨_, _, e, begins⟩ := front h
        cases e
        cases begins
      simp [Composite.closing, none, and_comm]
    · simp [Composite.closing, close]

theorem readObject_eq_ok_iff (takes : Takes read Text) {members : List (String × Value)}
    {bytes rest : Bytes} :
    readObject (takeMember read) [] bytes = .ok (members, rest) ↔
      ∃ text parts, openObject :: bytes = text ++ rest ∧
        Enclosed .object (MemberText Text) text parts ∧ members = parts.reverse := by
  simp only [← foldl_cons_eq]
  rw [← show Composite.object.opening = openObject from rfl,
    ← (isLoop_membersFrom (takeMember read)).enclosed_iff fun members =>
      takes_takeNamed takes members]
  exact readObject_iff_membersFrom

end

end TokenTariff.Json
