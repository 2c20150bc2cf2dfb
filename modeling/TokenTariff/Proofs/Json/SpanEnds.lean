import TokenTariff.Proofs.Json.Spans
/-!
# What the machine for the ends of values goes through

The machine that finds the end of a value accepts texts of JSON only. From where a value begins, up
to where one outside of all composites may be complete, it goes through a value, and from there on
it is as behind any value (`splits_value`). So a raw value is taken from a byte list if and only if
a text of JSON stands at its front (`takes_takeRaw`).

* `Finishes`: the texts that lead from a place to the end of the outermost value;
* `SplitsValue n`: the texts of at most `n` bytes that do so split behind their first value;
* `IsDocument`: the texts of JSON with blanks around them, which are taken without these.
-/

namespace TokenTariff.Json
set_option autoImplicit false

/-! ## Ways to the end -/

/-- A text leads from a place to where a value outside of all composites may be complete. -/
def Finishes (place : Place) (stack : List Composite) (text : Bytes) : Prop :=
  ∃ last, last.IsSettled ∧ Leads place stack text last []

section
variable {place : Place} {stack : List Composite} {b : UInt8} {text : Bytes}

theorem finishes_nil_iff : Finishes place stack [] ↔ place.IsSettled ∧ stack = [] := by
  constructor
  · rintro ⟨last, settled, way⟩
    cases way
    exact ⟨settled, rfl⟩
  · rintro ⟨settled, rfl⟩
    exact ⟨place, settled, .refl place []⟩

theorem finishes_cons_iff : Finishes place stack (b :: text) ↔
    place.endsBefore stack b = false ∧
      ∃ next stack', place.step stack b = .ok (next, stack') ∧ Finishes next stack' text := by
  constructor
  · rintro ⟨last, settled, way⟩
    cases way with
    | step goesOn step way => exact ⟨goesOn, _, _, step, last, settled, way⟩
  · rintro ⟨goesOn, next, stack', step, last, settled, way⟩
    exact ⟨last, settled, .step goesOn step way⟩

theorem finishes_of_step {next : Place} {stack' : List Composite}
    (step : place.step stack b = .ok (next, stack')) (h : Finishes place stack (b :: text)) :
    Finishes next stack' text := by
  obtain ⟨-, _, _, step', rest⟩ := finishes_cons_iff.1 h
  cases step.symm.trans step'
  exact rest

theorem settled_of_endError? (h : place.endError? stack = none) : place.IsSettled ∧ stack = [] := by
  cases place with
  | number part =>
    rw [Place.endError?] at h
    split at h
    · next complete =>
      cases stack with
      | nil => exact ⟨complete, rfl⟩
      | cons kind outer => cases h
    · cases h
  | after =>
    cases stack with
    | nil => exact ⟨trivial, rfl⟩
    | cons kind outer => cases h
  | _ => cases h

theorem settled_of_endsBefore (h : place.endsBefore stack b = true) :
    place.IsSettled ∧ stack = [] := by
  cases place with
  | number part =>
    simp only [Place.endsBefore, NumberPart.endsBefore, Bool.and_eq_true, List.isEmpty_iff] at h
    exact ⟨h.2.1.1, h.1⟩
  | after => exact ⟨trivial, List.isEmpty_iff.1 h⟩
  | _ => cases h

end

theorem finishes_of_spanFrom {rest : Bytes} :
    ∀ {bytes text : Bytes} {place : Place} {stack : List Composite},
      spanFrom place stack bytes = .ok (text, rest) →
        bytes = text ++ rest ∧ Finishes place stack text
  | [], text, place, stack, h => by
    rw [spanFrom] at h
    split at h
    · cases h
    · next ends =>
      cases h
      exact ⟨rfl, finishes_nil_iff.2 (settled_of_endError? ends)⟩
  | b :: bytes, text, place, stack, h => by
    rw [spanFrom] at h
    split at h
    · next ends =>
      cases h
      exact ⟨rfl, finishes_nil_iff.2 (settled_of_endsBefore ends)⟩
    · next goesOn =>
      cases step : place.step stack b with
      | error e =>
        rw [step] at h
        cases h
      | ok next =>
        rw [step] at h
        obtain ⟨⟨inner, rest'⟩, found, e⟩ := map_eq_ok_iff.1 h
        cases e
        obtain ⟨rfl, way⟩ := finishes_of_spanFrom found
        have here := Bool.eq_false_iff.2 goesOn
        exact ⟨rfl, finishes_cons_iff.2 ⟨here, _, _, step, way⟩⟩

/-- Where blanks are passed over and the text may not end, something else comes behind them. -/
theorem Finishes.skip {place : Place} {stack : List Composite}
    (waits : ∀ b, isBlank b = true → place.step stack b = .ok (place, stack))
    (more : ¬ (place.IsSettled ∧ stack = [])) :
    ∀ {text : Bytes}, Finishes place stack text →
      ∃ blanks b rest, text = blanks ++ b :: rest ∧ IsBlanks blanks ∧ isBlank b = false ∧
        Finishes place stack (b :: rest)
  | [], h => absurd (finishes_nil_iff.1 h) more
  | b :: text, h => by
    by_cases blank : isBlank b = true
    · obtain ⟨blanks, c, rest, rfl, all, first, way⟩ :=
        Finishes.skip waits more (finishes_of_step (waits b blank) h)
      exact ⟨b :: blanks, c, rest, rfl, List.forall_mem_cons.2 ⟨blank, all⟩, first, way⟩
    · exact ⟨[], b, text, rfl, .nil, Bool.eq_false_iff.2 blank, h⟩

/-! ## Scalars -/

theorem splits_word {stack : List Composite} :
    ∀ {letters text : Bytes}, letters ≠ [] → Finishes (.word letters) stack text →
      ∃ rest, text = letters ++ rest ∧ Finishes .after stack rest
  | [], _, nonempty, _ => absurd rfl nonempty
  | _ :: _, [], _, h => (finishes_nil_iff.1 h).1.elim
  | letter :: letters, b :: text, _, h => by
    obtain ⟨-, next, stack', step, way⟩ := finishes_cons_iff.1 h
    rw [Place.step] at step
    split at step
    · next same =>
      cases step
      subst same
      cases letters with
      | nil => exact ⟨text, rfl, way⟩
      | cons letter' letters =>
        obtain ⟨rest, rfl, way'⟩ := splits_word (List.cons_ne_nil letter' letters) way
        exact ⟨rest, rfl, way'⟩
    · cases step

theorem splits_string {isName : Bool} {stack : List Composite} :
    ∀ {text : Bytes} {inside : SkippedString}, Finishes (.string isName inside) stack text →
      ∃ front rest, text = front ++ rest ∧ inside.Passes front ∧
        Finishes (if isName then .colon else .after) stack rest
  | [], _, h => (finishes_nil_iff.1 h).1.elim
  | b :: text, inside, h => by
    obtain ⟨-, next, stack', step, way⟩ := finishes_cons_iff.1 h
    rw [Place.step, bind_eq_ok_iff] at step
    obtain ⟨done, first, step⟩ := step
    cases done with
    | none =>
      cases step
      exact ⟨[b], text, rfl, .last first, way⟩
    | some next =>
      cases step
      obtain ⟨front, rest, rfl, passes, way'⟩ := splits_string way
      exact ⟨b :: front, rest, rfl, .more first passes, way'⟩

theorem splits_number {stack : List Composite} :
    ∀ {text : Bytes} {part : NumberPart}, Finishes (.number part) stack text →
      ∃ front rest, text = front ++ rest ∧ part.Completes front ∧ Finishes .after stack rest
  | [], part, h => by
    obtain ⟨complete, rfl⟩ := finishes_nil_iff.1 h
    refine ⟨[], [], rfl, NumberPart.completes_nil_iff.2 complete, ?_⟩
    exact finishes_nil_iff.2 ⟨trivial, rfl⟩
  | b :: text, part, h => by
    obtain ⟨goesOn, next, stack', step, way⟩ := finishes_cons_iff.1 h
    cases first : part.next? b with
    | some more =>
      simp only [Place.step, first] at step
      cases step
      obtain ⟨front, rest, rfl, completes, way'⟩ := splits_number way
      exact ⟨b :: front, rest, rfl, NumberPart.completes_cons_iff.2 ⟨more, first, completes⟩, way'⟩
    | none =>
      -- the byte behind a number is taken as behind any value
      simp only [Place.step, first] at step
      split at step
      · next ends =>
        have complete : part.isComplete = true := by
          simp only [NumberPart.endsBefore, Bool.and_eq_true] at ends
          exact ends.1.1
        have inside : Place.after.endsBefore stack b = false := by
          simpa [Place.endsBefore, ends] using goesOn
        refine ⟨[], b :: text, rfl, NumberPart.completes_nil_iff.2 complete, ?_⟩
        exact finishes_cons_iff.2 ⟨inside, next, stack', step, way⟩
      · cases step

/-! ## Between the parts of a composite -/

section
variable {kind : Composite} {outer : List Composite} {text : Bytes}

/-- Behind a part comes a comma with another part, or the end of the composite. -/
theorem splits_after (h : Finishes .after (kind :: outer) text) :
    ∃ blanks rest, IsBlanks blanks ∧
      (text = blanks ++ comma :: rest ∧ Finishes kind.next (kind :: outer) rest ∨
        text = blanks ++ kind.closing :: rest ∧ Finishes .after outer rest) := by
  have waits (b : UInt8) (blank : isBlank b = true) :
      Place.after.step (kind :: outer) b = .ok (.after, kind :: outer) :=
    separate_blank kind outer blank
  obtain ⟨blanks, b, rest, rfl, blank, first, way⟩ := h.skip waits (by simp)
  refine ⟨blanks, rest, blank, ?_⟩
  obtain ⟨-, next, stack', step, way'⟩ := finishes_cons_iff.1 way
  by_cases isComma : b = comma
  · subst isComma
    cases (separate_comma kind outer).symm.trans step
    exact .inl ⟨rfl, way'⟩
  by_cases closing : b = kind.closing
  · subst closing
    cases (separate_closing kind outer).symm.trans step
    exact .inr ⟨rfl, way'⟩
  · simp [Place.step, Place.separate, first, isComma, closing] at step

/-- Behind the opening byte comes the end of the composite, or what may come behind a comma. -/
theorem splits_opened (h : Finishes .opened (kind :: outer) text) :
    ∃ blanks rest, IsBlanks blanks ∧ text = blanks ++ rest ∧
      ((∃ rest', rest = kind.closing :: rest' ∧ Finishes .after outer rest') ∨
        Finishes kind.next (kind :: outer) rest) := by
  obtain ⟨blanks, b, rest, rfl, blank, first, way⟩ := h.skip (waits_opened kind outer) (by simp)
  refine ⟨blanks, b :: rest, blank, rfl, ?_⟩
  by_cases closing : b = kind.closing
  · subst closing
    have step : Place.opened.step (kind :: outer) kind.closing = .ok (.after, outer) := by
      cases kind <;> rfl
    exact .inl ⟨rest, rfl, finishes_of_step step way⟩
  · right
    obtain ⟨-, next, stack', step, way'⟩ := finishes_cons_iff.1 way
    have same : kind.next.step (kind :: outer) b = Place.opened.step (kind :: outer) b := by
      cases kind with
      | list =>
        have notClosing : b ≠ closeList := closing
        simp [Composite.next, Place.step, first, notClosing]
      | object =>
        have notClosing : b ≠ closeObject := closing
        simp [Composite.next, Place.step, first, notClosing]
    exact finishes_cons_iff.2 ⟨goesOn_inside _ _ _ _, next, stack', same.trans step, way'⟩

theorem splits_name (h : Finishes .name (.object :: outer) text) :
    ∃ blanks name rest, text = blanks ++ quoteMark :: (name ++ rest) ∧ IsBlanks blanks ∧
      RawString name ∧ Finishes .colon (.object :: outer) rest := by
  obtain ⟨blanks, b, rest, rfl, blank, first, way⟩ :=
    h.skip (waits_name (.object :: outer)) nofun
  obtain ⟨-, next, stack', step, way'⟩ := finishes_cons_iff.1 way
  simp only [Place.step, first, Bool.false_eq_true, if_false] at step
  split at step
  · next quote =>
    cases step
    subst quote
    obtain ⟨name, rest, rfl, passes, way⟩ := splits_string way'
    exact ⟨blanks, name, rest, rfl, blank, passes_iff.1 passes, way⟩
  · cases step

theorem splits_colon {stack : List Composite} (h : Finishes .colon stack text) :
    ∃ blanks rest, text = blanks ++ colon :: rest ∧ IsBlanks blanks ∧
      Finishes .value stack rest := by
  obtain ⟨blanks, b, rest, rfl, blank, first, way⟩ := h.skip (waits_colon stack) nofun
  obtain ⟨-, next, stack', step, way'⟩ := finishes_cons_iff.1 way
  simp only [Place.step, first, Bool.false_eq_true, if_false] at step
  split at step
  · next isColon =>
    cases step
    subst isColon
    exact ⟨blanks, rest, rfl, blank, way'⟩
  · cases step

end

/-! ## Values -/

/-- A text of at most `n` bytes that goes on from where a value begins has one, behind some blanks,
and from there goes on as behind a value. -/
def SplitsValue (n : Nat) : Prop :=
  ∀ stack text, text.length ≤ n → Finishes .value stack text →
    ∃ before inner rest, text = before ++ (inner ++ rest) ∧ IsBlanks before ∧ RawText n inner ∧
      Finishes .after stack rest

section
variable {n : Nat} (inner : SplitsValue n) {kind : Composite} {outer : List Composite}
include inner

theorem splits_part {text : Bytes} (short : text.length ≤ n)
    (h : Finishes kind.next (kind :: outer) text) :
    ∃ before part rest, text = before ++ (part ++ rest) ∧ IsBlanks before ∧
      RawPart (RawText n) kind part ∧ Finishes .after (kind :: outer) rest := by
  cases kind with
  | list =>
    obtain ⟨before, item, rest, rfl, blank, isItem, way⟩ := inner _ text short h
    exact ⟨before, item, rest, rfl, blank, .item isItem, way⟩
  | object =>
    obtain ⟨before, name, rest, rfl, blank, isName, way⟩ := splits_name h
    obtain ⟨after, rest, rfl, blank', way⟩ := splits_colon way
    have short' : rest.length ≤ n := by
      simp only [List.length_append, List.length_cons] at short
      omega
    obtain ⟨before', value, rest, rfl, blank'', isValue, way⟩ := inner _ rest short' way
    refine ⟨before, _, rest, ?_, blank, .member isName blank' blank'' isValue, way⟩
    simp

theorem splits_sequence : ∀ (m : Nat) {text : Bytes}, text.length ≤ m → text.length ≤ n →
    Finishes kind.next (kind :: outer) text →
      ∃ before sequence parts rest, text = before ++ (sequence ++ kind.closing :: rest) ∧
        IsBlanks before ∧ Sequence (ByItself (RawPart (RawText n) kind)) sequence parts ∧
          Finishes .after outer rest := by
  -- a part takes the byte behind it too, so that less is left for the parts that follow
  intro m
  induction m with
  | zero =>
    intro text few _ h
    have empty : text = [] := List.length_eq_zero_iff.1 (by omega)
    subst empty
    cases (finishes_nil_iff.1 h).2
  | succ m ih =>
    intro text few short h
    obtain ⟨before, part, rest, rfl, blank, isPart, way⟩ := splits_part inner short h
    obtain ⟨after, rest, blank', ⟨rfl, onward⟩ | ⟨rfl, onward⟩⟩ := splits_after way
    · have few' : rest.length ≤ m := by
        simp only [List.length_append, List.length_cons] at few
        omega
      have short' : rest.length ≤ n := by
        simp only [List.length_append, List.length_cons] at short
        omega
      obtain ⟨before', sequence, parts, rest, rfl, blank'', isSequence, beyond⟩ :=
        ih few' short' onward
      refine ⟨before, _, part :: parts, rest, ?_, blank,
        .more ⟨rfl, isPart⟩ blank' blank'' isSequence, beyond⟩
      simp
    · refine ⟨before, part ++ after, [part], rest, ?_, blank, .last ⟨rfl, isPart⟩ blank', onward⟩
      simp

theorem splits_composite {text : Bytes} (short : text.length ≤ n)
    (h : Finishes .opened (kind :: outer) text) :
    ∃ tail rest, text = tail ++ rest ∧ RawComposite (RawText n) (kind.opening :: tail) ∧
      Finishes .after outer rest := by
  obtain ⟨blanks, rest, blank, rfl, ⟨rest, rfl, way⟩ | way⟩ := splits_opened h
  · refine ⟨blanks ++ [kind.closing], rest, by simp, ⟨kind, [], .empty blank⟩, way⟩
  · have short' : rest.length ≤ n := by
      simp only [List.length_append] at short
      omega
    obtain ⟨before, sequence, parts, rest, rfl, blank', isSequence, way⟩ :=
      splits_sequence inner n short' short' way
    refine ⟨(blanks ++ before) ++ (sequence ++ [kind.closing]), rest, by simp,
      ⟨kind, parts, .filled (blank.append blank') isSequence⟩, way⟩

end

/-- What the first byte of a value leads to. -/
theorem begin_cases {stack stack' : List Composite} {b : UInt8} {next : Place}
    (notBlank : isBlank b = false) (step : Place.begin stack b = .ok (next, stack')) :
    (∃ letters v, word? b = some (letters, v) ∧ next = .word letters ∧ stack' = stack) ∨
      (∃ kind : Composite, b = kind.opening ∧ next = .opened ∧ stack' = kind :: stack) ∨
      (b = quoteMark ∧ next = .string false .plain ∧ stack' = stack) ∨
      (b = minusSign ∧ next = .number .minus ∧ stack' = stack) ∨
      ∃ part, NumberPart.minus.next? b = some part ∧ next = .number part ∧ stack' = stack := by
  rw [Place.begin, notBlank] at step
  simp only [Bool.false_eq_true, if_false] at step
  split at step
  · next letters v word =>
    cases step
    exact .inl ⟨letters, v, word, rfl, rfl⟩
  · next kind _ opened =>
    cases step
    exact .inr (.inl ⟨kind, opening_of_opened? opened, rfl, rfl⟩)
  · split at step
    · next quote =>
      cases step
      exact .inr (.inr (.inl ⟨quote, rfl, rfl⟩))
    split at step
    · next minus =>
      cases step
      exact .inr (.inr (.inr (.inl ⟨minus, rfl, rfl⟩)))
    split at step
    · next isZero =>
      cases step
      exact .inr (.inr (.inr (.inr ⟨.zero, by simp [NumberPart.next?, isZero], rfl, rfl⟩)))
    next nonzero =>
    split at step
    · next digit =>
      cases step
      exact .inr (.inr (.inr (.inr ⟨.whole, by simp [NumberPart.next?, nonzero, digit], rfl, rfl⟩)))
    · cases step

theorem splits_value : ∀ n, SplitsValue n := by
  intro n
  -- what stands inside of a composite is shorter than it by the opening byte, so that the depth of
  -- a value is bounded by the length of its text
  induction n with
  | zero =>
    intro stack text short h
    have empty : text = [] := List.length_eq_zero_iff.1 (by omega)
    subst empty
    exact (finishes_nil_iff.1 h).1.elim
  | succ n ih =>
    intro stack text short h
    obtain ⟨before, b, rest, rfl, blank, first, way⟩ := h.skip (waits_value stack) nofun
    obtain ⟨-, next, stack', step, onward⟩ := finishes_cons_iff.1 way
    have short' : rest.length ≤ n := by
      simp only [List.length_append, List.length_cons] at short
      omega
    obtain ⟨letters, v, word, rfl, rfl⟩ | ⟨kind, rfl, rfl, rfl⟩ | ⟨rfl, rfl, rfl⟩ |
      ⟨rfl, rfl, rfl⟩ | ⟨part, begins, rfl, rfl⟩ := begin_cases first step
    · obtain ⟨rest, rfl, beyond⟩ := splits_word (letters_ne_nil word) onward
      exact ⟨before, b :: letters, rest, rfl, blank, .inl (.word word), beyond⟩
    · obtain ⟨tail, rest, rfl, composite, beyond⟩ := splits_composite ih short' onward
      exact ⟨before, kind.opening :: tail, rest, rfl, blank, .inr composite, beyond⟩
    · obtain ⟨text, rest, rfl, passes, beyond⟩ := splits_string onward
      have isString : RawScalar (quoteMark :: text) := .string (passes_iff.1 passes)
      exact ⟨before, quoteMark :: text, rest, rfl, blank, .inl isString, beyond⟩
    · obtain ⟨text, rest, rfl, completes, beyond⟩ := splits_number onward
      have isNumber : RawNumber (minusSign :: text) :=
        .negative (NumberPart.completes_minus_iff.1 completes)
      exact ⟨before, minusSign :: text, rest, rfl, blank, .inl (.number isNumber), beyond⟩
    · obtain ⟨text, rest, rfl, completes, beyond⟩ := splits_number onward
      have isNumber : RawNumber (b :: text) := .positive (NumberPart.completes_minus_iff.1
        (NumberPart.completes_cons_iff.2 ⟨part, begins, completes⟩))
      exact ⟨before, b :: text, rest, rfl, blank, .inl (.number isNumber), beyond⟩

/-! ## Raw values -/

theorem takeRaw_eq_ok_iff {bytes taken rest : Bytes} :
    takeRaw bytes = .ok (taken, rest) ↔
      span (skipBlanks bytes) = .ok (taken, rest) ∧ Bytes.IsUtf8 taken := by
  unfold takeRaw
  rw [bind_eq_ok_iff]
  constructor
  · rintro ⟨⟨text, rest'⟩, found, h⟩
    simp only at h
    split at h
    · next utf8 =>
      cases h
      exact ⟨found, utf8⟩
    · cases h
  · rintro ⟨found, utf8⟩
    refine ⟨_, found, ?_⟩
    simp only
    exact if_pos utf8

/-- A raw value is taken from where a text of JSON stands, and is that text. -/
theorem takes_takeRaw : Takes takeRaw fun text taken => RawDocument text ∧ taken = text where
  skip bytes := by rw [takeRaw, takeRaw, skipBlanks_skipBlanks]
  sound := by
    intro bytes rest taken h
    obtain ⟨found, utf8⟩ := takeRaw_eq_ok_iff.1 h
    obtain ⟨split, way⟩ := finishes_of_spanFrom found
    obtain ⟨before, inner, rest', rfl, blank, isText, way⟩ :=
      splits_value taken.length [] taken le_rfl way
    -- the way ends behind the value, and it begins with it, since the blanks have been skipped
    have ends : rest' = [] := by
      cases rest' with
      | nil => rfl
      | cons b rest' => cases (finishes_cons_iff.1 way).1
    have trimmed : before = [] := by
      cases before with
      | nil => rfl
      | cons b before =>
        have notBlank := (blanks_of_skipBlanks split).1
        rw [blank b List.mem_cons_self] at notBlank
        cases notBlank
    subst ends trimmed
    rw [List.nil_append, List.append_nil] at split utf8
    refine ⟨inner, split, ⟨⟨_, isText⟩, utf8⟩, by simp⟩
  complete := by
    rintro text rest taken ⟨isDocument, rfl⟩ stops
    exact takeRaw_append isDocument stops
  begins := by
    rintro text taken ⟨⟨⟨depth, isText⟩, -⟩, -⟩
    exact isText.begins

/-! ## Documents -/

/-- The texts of JSON with blanks around them. -/
def IsDocument (document text : Bytes) : Prop :=
  ∃ before after, IsBlanks before ∧ IsBlanks after ∧ RawDocument text ∧
    document = before ++ (text ++ after)

/-- A document is taken if it is one text of JSON, and without the blanks around it. -/
theorem whole_takeRaw_eq_ok_iff {document text : Bytes} :
    whole takeRaw document = .ok text ↔ IsDocument document text := by
  rw [takes_takeRaw.whole_eq_ok_iff]
  constructor
  · rintro ⟨before, _, after, blank, blank', ⟨isText, rfl⟩, rfl⟩
    exact ⟨before, after, blank, blank', isText, rfl⟩
  · rintro ⟨before, after, blank, blank', isText, rfl⟩
    exact ⟨before, text, after, blank, blank', ⟨isText, rfl⟩, rfl⟩

theorem rawDocument_of_whole {document text : Bytes} (h : whole takeRaw document = .ok text) :
    RawDocument text := by
  obtain ⟨-, -, -, -, isText, -⟩ := whole_takeRaw_eq_ok_iff.1 h
  exact isText

/-- A text of one object is one object by itself, and is taken as it stands. -/
theorem whole_takeRaw {document : Bytes} {members : List (String × Value)}
    (h : whole objectMembers document = .ok members) :
    ∃ text, RawDocument text ∧ whole takeRaw document = .ok text ∧
      whole objectMembers text = .ok members := by
  obtain ⟨before, text, after, blank, blank', isText, rfl⟩ :=
    takes_objectMembers.whole_eq_ok_iff.1 h
  have isDocument := rawDocument_of_objectText isText
  refine ⟨text, isDocument, ?_, ?_⟩
  · exact whole_takeRaw_eq_ok_iff.2 ⟨before, after, blank, blank', isDocument, rfl⟩
  · exact takes_objectMembers.whole_eq_ok_iff.2 ⟨[], text, [], .nil, .nil, isText, by simp⟩

end TokenTariff.Json
