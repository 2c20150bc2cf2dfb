import TokenTariff.Proofs.Json.Grammar
/-!
# Values and documents

Which texts are read as values, and which documents as objects. An object whose first name is
`embeddingName` stands for the embedded document whose text is the string in its only member. Such a
document may have others inside it (`isEmbedded_iff`); each is shorter than the one around it, so the
fuel for them, which is the length of the text, is always enough (`DocumentText.of_length_lt`).

* `ValueText`: the texts of values that are nested at most so deep;
* `IsEmbedded`: the texts of embedded documents;
* `ObjectText`: the texts of objects.

The readers of values (`takes_value`) and of the members of an object (`takes_objectMembers`) take
what the grammar says.
-/

namespace TokenTariff.Json
set_option autoImplicit false

/-! ## Texts -/

/-- Whether the first name of an object is the one for embedded documents. -/
def Value.IsEmbedding : Value → Prop
  | .object ((name, _) :: _) => name = embeddingName
  | _ => False

/-- The texts of objects that stand for the document in the string which is their only member. -/
def EmbeddingText (Document : String → Value → Prop) (text : Bytes) (v : Value) : Prop :=
  ∃ string, CompositeText ScalarText text (.object [(embeddingName, .string string)]) ∧
    Document string v

/-- The texts of values with lists and objects nested at most `depth` deep, with the embedded
documents that `Document` tells. -/
def ValueText (Document : String → Value → Prop) : (depth : Nat) → Bytes → Value → Prop
  | 0 => ScalarText
  | depth + 1 => fun text v => ScalarText text v ∨
      CompositeText (ValueText Document depth) text v ∧ ¬ v.IsEmbedding ∨
      EmbeddingText Document text v

/-- The texts of embedded documents that have fewer than `levels` others inside each other. -/
def DocumentText : (levels : Nat) → String → Value → Prop
  | 0 => fun _ _ => False
  | levels + 1 => fun string =>
      Spaced (ValueText (DocumentText levels) documentDepth) (Bytes.ofText string)

/-- The texts of embedded documents. -/
def IsEmbedded (string : String) (v : Value) : Prop :=
  ∃ levels, DocumentText levels string v

/-- The texts of objects whose values are nested no deeper than `memberDepth`. -/
def ObjectText (text : Bytes) (members : List (String × Value)) : Prop :=
  Enclosed .object (MemberText (ValueText IsEmbedded memberDepth)) text members

/-! ## Scalars -/

/-- What is read behind the opening byte of a list or an object. -/
structure TakesComposite (read : Composite → Reader Value) (Text : Bytes → Value → Prop) :
    Prop where
  sound : ∀ {kind bytes rest v}, read kind bytes = .ok (v, rest) →
    ∃ text, kind.opening :: bytes = text ++ rest ∧ Text text v
  complete : ∀ {text v}, Text text v →
    ∃ kind tail, text = kind.opening :: tail ∧ ∀ rest, read kind (tail ++ rest) = .ok (v, rest)

theorem numberText_of_number {bytes rest : Bytes} {n : Number} (h : number bytes = .ok (n, rest)) :
    ∃ text, bytes = text ++ rest ∧ NumberText text n := by
  obtain ⟨text, split, again, -⟩ := takesNumber_number h
  exact ⟨text, split, by simpa [NumberText] using again [] .nil⟩

theorem NumberText.number_append {text : Bytes} {n : Number} (h : NumberText text n) {rest : Bytes}
    (stops : Stops rest) : number (text ++ rest) = .ok (n, rest) := by
  obtain ⟨text', split, again, -⟩ := takesNumber_number h
  rw [List.append_nil] at split
  exact split ▸ again rest stops

theorem NumberText.begins {text : Bytes} {n : Number} (h : NumberText text n) :
    ∃ b tail, text = b :: tail ∧ (b = minusSign || isDigit b) = true := by
  cases text with
  | nil => cases h
  | cons b tail =>
    refine ⟨b, tail, rfl, ?_⟩
    unfold NumberText at h
    rw [number] at h
    split at h
    · next minus => simp [minus]
    · rw [unsignedNumber] at h
      split at h
      · next zero => simp [zero, isDigit]
      · split at h
        · next digit => simp [digit]
        · cases h

theorem begins_word (b : UInt8) : (word? b).isSome → isDelimiter b = false :=
  Bytes.forall_byte (p := fun b => (word? b).isSome → isDelimiter b = false) (by decide +kernel) b

/-- A byte that begins a number begins nothing else. -/
theorem begins_number (b : UInt8) : (b = minusSign || isDigit b) = true →
    isDelimiter b = false ∧ (word? b).isNone ∧ (Composite.opened? b).isNone ∧ b ≠ quoteMark :=
  Bytes.forall_byte (p := fun b => (b = minusSign || isDigit b) = true →
    isDelimiter b = false ∧ (word? b).isNone ∧ (Composite.opened? b).isNone ∧ b ≠ quoteMark)
    (by decide +kernel) b

theorem value_of_word? {b : UInt8} {letters : Bytes} {v : Value}
    (h : word? b = some (letters, v)) : v = .null ∨ ∃ truth, v = .boolean truth := by
  obtain ⟨before, after, split, -⟩ := List.lookup_eq_some_iff.1 h
  have mem : (b, letters, v) ∈ words := by rw [split]; simp
  simp only [words, List.mem_cons, Prod.mk.injEq, List.not_mem_nil, or_false] at mem
  rcases mem with ⟨-, -, rfl⟩ | ⟨-, -, rfl⟩ | ⟨-, -, rfl⟩
  · exact .inl rfl
  · exact .inr ⟨_, rfl⟩
  · exact .inr ⟨_, rfl⟩

theorem ScalarText.begins {text : Bytes} {v : Value} (h : ScalarText text v) :
    ∃ b tail, text = b :: tail ∧ isDelimiter b = false := by
  cases h with
  | @word b letters v h => exact ⟨b, letters, rfl, begins_word b (by rw [h]; rfl)⟩
  | string h => exact ⟨quoteMark, _, rfl, rfl⟩
  | number h =>
    obtain ⟨b, tail, rfl, begins⟩ := h.begins
    exact ⟨b, tail, rfl, (begins_number b begins).1⟩

theorem CompositeText.begins {Text : Bytes → Value → Prop} {text : Bytes} {v : Value}
    (h : CompositeText Text text v) : ∃ b tail, text = b :: tail ∧ isDelimiter b = false := by
  cases h with
  | list h =>
    obtain ⟨tail, rfl⟩ := h.begins
    exact ⟨_, tail, rfl, rfl⟩
  | object h =>
    obtain ⟨tail, rfl⟩ := h.begins
    exact ⟨_, tail, rfl, rfl⟩

theorem opened?_opening (kind : Composite) : Composite.opened? kind.opening = some kind := by
  cases kind <;> rfl

theorem opening_of_opened? {b : UInt8} {kind : Composite}
    (h : Composite.opened? b = some kind) : b = kind.opening := by
  unfold Composite.opened? at h
  split at h
  · next e => cases h; exact e
  · split at h
    · next e => cases h; exact e
    · cases h

/-- What a value is goes by its first byte: a word, a list or an object, a string, a number. -/
theorem scalarOr_eq_ok_iff {composite : Composite → Reader Value} {bytes rest : Bytes} {v : Value} :
    scalarOr composite bytes = .ok (v, rest) ↔
      ∃ b tail, skipBlanks bytes = b :: tail ∧
        ((∃ letters, word? b = some (letters, v) ∧ tail = letters ++ rest) ∨
          (∃ kind, b = kind.opening ∧ composite kind tail = .ok (v, rest)) ∨
          (b = quoteMark ∧ ∃ string, stringBody tail = .ok (string, rest) ∧ v = .string string) ∨
          (b = minusSign || isDigit b) = true ∧
            ∃ n, number (b :: tail) = .ok (n, rest) ∧ v = .number n) := by
  unfold scalarOr
  cases skipBlanks bytes with
  | nil => simp
  | cons b tail =>
    simp only [List.cons.injEq, exists_and_left, exists_eq_left', and_assoc]
    constructor
    · intro h
      cases word : word? b with
      | some found =>
        obtain ⟨letters, v'⟩ := found
        simp only [word] at h
        obtain ⟨rest', found, e⟩ := map_eq_ok_iff.1 h
        cases e
        exact .inl ⟨letters, rfl, takeLetters_eq_ok_iff.1 found⟩
      | none =>
      cases opened : Composite.opened? b with
      | some kind =>
        simp only [word, opened] at h
        exact .inr (.inl ⟨kind, opening_of_opened? opened, h⟩)
      | none =>
        simp only [word, opened] at h
        split at h
        · next quote =>
          obtain ⟨⟨string, rest'⟩, found, e⟩ := map_eq_ok_iff.1 h
          cases e
          exact .inr (.inr (.inl ⟨quote, string, found, rfl⟩))
        · split at h
          · next first =>
            obtain ⟨⟨n, rest'⟩, found, e⟩ := map_eq_ok_iff.1 h
            cases e
            exact .inr (.inr (.inr ⟨first, n, found, rfl⟩))
          · cases h
    · rintro (⟨letters, word, split⟩ | ⟨kind, rfl, read⟩ | ⟨rfl, string, read, rfl⟩ |
        ⟨first, n, read, rfl⟩)
      · simp only [word]
        exact map_eq_ok_iff.2 ⟨rest, takeLetters_eq_ok_iff.2 split, rfl⟩
      · have notWord : word? kind.opening = none := by cases kind <;> rfl
        simp only [notWord, opened?_opening, read]
      · exact map_eq_ok_iff.2 ⟨_, read, rfl⟩
      · obtain ⟨-, word, opened, notQuote⟩ := begins_number b first
        simp only [Option.isNone_iff_eq_none.1 word, Option.isNone_iff_eq_none.1 opened,
          if_neg notQuote]
        rw [if_pos first]
        exact map_eq_ok_iff.2 ⟨_, read, rfl⟩

/-- A reader takes the texts of scalars, and behind an opening byte those of `composite`. -/
theorem takes_scalarOr {composite : Composite → Reader Value} {Text : Bytes → Value → Prop}
    (takes : TakesComposite composite Text)
    (begins : ∀ {text v}, Text text v → ∃ b tail, text = b :: tail ∧ isDelimiter b = false) :
    Takes (scalarOr composite) fun text v => ScalarText text v ∨ Text text v where
  skip bytes := by rw [scalarOr, scalarOr, skipBlanks_skipBlanks]
  sound := by
    intro bytes rest v h
    obtain ⟨b, tail, split, ⟨letters, word, rfl⟩ | ⟨kind, rfl, read⟩ | ⟨rfl, string, read, rfl⟩ |
      ⟨-, n, read, rfl⟩⟩ := scalarOr_eq_ok_iff.1 h
    · exact ⟨b :: letters, split, .inl (.word word)⟩
    · obtain ⟨text, e, isText⟩ := takes.sound read
      exact ⟨text, split.trans e, .inr isText⟩
    · obtain ⟨text, rfl, isText⟩ := stringBody_eq_ok_iff.1 read
      exact ⟨quoteMark :: text, split, .inl (.string isText)⟩
    · obtain ⟨text, e, isText⟩ := numberText_of_number read
      exact ⟨text, split.trans e, .inl (.number isText)⟩
  complete := by
    intro text rest v h stops
    have notBlank {b : UInt8} {tail : Bytes} (split : text = b :: tail) : isBlank b = false := by
      obtain ⟨b', tail', split', notDelimiter⟩ := h.elim ScalarText.begins begins
      rw [split] at split'
      cases split'
      exact isBlank_of_not_delimiter notDelimiter
    rw [scalarOr_eq_ok_iff]
    rcases h with scalar | composite'
    · cases scalar with
      | @word b letters v word =>
        exact ⟨b, _, skipBlanks_cons (notBlank rfl) _, .inl ⟨letters, word, rfl⟩⟩
      | @string text string isText =>
        have read : stringBody (text ++ rest) = .ok (string, rest) :=
          stringBody_eq_ok_iff.2 ⟨text, rfl, isText⟩
        exact ⟨quoteMark, _, skipBlanks_cons rfl _, .inr (.inr (.inl ⟨rfl, string, read, rfl⟩))⟩
      | @number text n isText =>
        have read := isText.number_append stops
        obtain ⟨b, tail, rfl, first⟩ := isText.begins
        exact ⟨b, _, skipBlanks_cons (notBlank rfl) _, .inr (.inr (.inr ⟨first, n, read, rfl⟩))⟩
    · obtain ⟨kind, tail, rfl, read⟩ := takes.complete composite'
      exact ⟨_, _, skipBlanks_cons (notBlank rfl) _, .inr (.inl ⟨kind, rfl, read rest⟩)⟩
  begins h := h.elim ScalarText.begins begins

/-- A reader that refuses lists and objects takes the texts of scalars. -/
theorem takes_scalarOr_error (refusal : Composite → Error) :
    Takes (scalarOr fun kind _ => .error (refusal kind)) ScalarText := by
  have none : TakesComposite (fun kind _ => .error (refusal kind)) fun _ _ => False :=
    ⟨nofun, False.elim⟩
  have takes := takes_scalarOr none False.elim
  simp only [or_false] at takes
  exact takes

/-! ## Embedded documents -/

section
variable {read : Reader Value} {Text : Bytes → Value → Prop}
  {document : String → Except Error Value} {Document Document' : String → Value → Prop}

theorem embeddedText_eq_ok_iff {bytes rest : Bytes} {string : String} :
    embeddedText bytes = .ok (string, rest) ↔
      scalar "raw value" bytes = .ok (.string string, rest) := by
  unfold embeddedText
  rw [bind_eq_ok_iff]
  constructor
  · rintro ⟨⟨v, rest'⟩, found, h⟩
    cases v with
    | string string' =>
      cases h
      exact found
    | _ => cases h
  · exact fun found => ⟨_, found, rfl⟩

theorem closeMember_eq_ok_iff {v v' : Value} {bytes rest : Bytes} :
    closeMember v bytes = .ok (v', rest) ↔ skipBlanks bytes = closeObject :: rest ∧ v = v' := by
  unfold closeMember
  cases skipBlanks bytes with
  | nil => simp
  | cons b tail => by_cases close : b = closeObject <;> simp [close, and_comm]

theorem embedding?_eq_some_iff {bytes rest : Bytes} :
    embedding? bytes = some rest ↔
      ∃ tail, skipBlanks bytes = quoteMark :: tail ∧
        stringBody tail = .ok (embeddingName, rest) := by
  unfold embedding?
  cases skipBlanks bytes with
  | nil => simp
  | cons b tail =>
    by_cases quote : b = quoteMark
    · cases read : stringBody tail with
      | error e => simp [quote, read]
      | ok found =>
        obtain ⟨name, rest'⟩ := found
        by_cases isName : name = embeddingName <;> simp [quote, read, isName]
    · simp [quote]

/-- An object with an embedded document is read as its only member, whose string is the text of the
document. -/
theorem embedded_iff_takeNamed {bytes rest : Bytes} {v : Value} :
    (∃ tail, embedding? bytes = some tail ∧ embedded document tail = .ok (v, rest)) ↔
      ∃ string tail, takeNamed (takeMember (scalar "raw value")) [] bytes =
          .ok ([(embeddingName, .string string)], tail) ∧
        document string = .ok v ∧ skipBlanks tail = closeObject :: rest := by
  simp only [embedding?_eq_some_iff, takeNamed_eq_ok_iff, takeMember_eq_ok_iff, embedded,
    bind_eq_ok_iff, takeColon_eq_ok_iff, Prod.exists, embeddedText_eq_ok_iff, closeMember_eq_ok_iff]
  constructor
  · rintro ⟨tail, ⟨named, opened, isName⟩, inner, colon, string, tail', found, _, isDocument,
      closed, rfl⟩
    exact ⟨string, tail', ⟨named, opened, embeddingName, tail, isName, inner, _, colon, found, rfl⟩,
      isDocument, closed⟩
  · rintro ⟨string, tail', ⟨named, opened, name, tail, isName, inner, value, colon, found, e⟩,
      isDocument, closed⟩
    cases e
    exact ⟨tail, ⟨named, opened, isName⟩, inner, colon, string, tail', found, _, isDocument,
      closed, rfl⟩

theorem takes_scalar (wanted : String) : Takes (scalar wanted) ScalarText :=
  takes_scalarOr_error _

/-- The only member of an object, as a text. -/
theorem enclosed_singleton_iff {α : Type} {Part : Bytes → α → Prop} {kind : Composite}
    {text : Bytes} {part : α} :
    Enclosed kind Part text [part] ↔ ∃ before inner after, IsBlanks before ∧ IsBlanks after ∧
      Part inner part ∧
      text = kind.opening :: (before ++ (inner ++ (after ++ [kind.closing]))) := by
  constructor
  · intro h
    cases h with
    | filled blank sequence =>
      cases sequence with
      | last isPart blank' => exact ⟨_, _, _, blank, blank', isPart, by simp⟩
      | more _ _ _ tail => cases tail
  · rintro ⟨before, inner, after, blank, blank', isPart, rfl⟩
    have filled : Enclosed kind Part _ _ := .filled blank (.last isPart blank')
    simpa using filled

/-- An object of one member, without blanks. -/
theorem enclosed_member {Text : Bytes → Value → Prop} {name inner : Bytes} {key : String}
    {v : Value} (isName : StringText name key) (isValue : Text inner v) :
    Enclosed .object (MemberText Text)
      (openObject :: quoteMark :: (name ++ colon :: (inner ++ [closeObject]))) [(key, v)] := by
  refine enclosed_singleton_iff.2 ⟨[], _, [], .nil, .nil,
    ⟨name, [], [], inner, isName, .nil, .nil, isValue, rfl⟩, ?_⟩
  simp [Composite.opening, Composite.closing]

/-- What is read of an object with an embedded document. -/
theorem embedded_eq_ok_iff (reads : ∀ string v, document string = .ok v ↔ Document string v)
    {bytes rest : Bytes} {v : Value} :
    (∃ tail, embedding? bytes = some tail ∧ embedded document tail = .ok (v, rest)) ↔
      ∃ text, openObject :: bytes = text ++ rest ∧ EmbeddingText Document text v := by
  have takes := takes_takeNamed (takes_scalar "raw value") []
  rw [embedded_iff_takeNamed]
  constructor
  · rintro ⟨string, tail, taken, isDocument, closed⟩
    obtain ⟨inner, opened, member, isMember, e⟩ := takes.sound taken
    cases e
    obtain ⟨before, blank, split⟩ := exists_blanks bytes
    obtain ⟨-, after, blank', rfl⟩ := blanks_of_skipBlanks closed
    refine ⟨_, ?_, string, .object (enclosed_singleton_iff.2
      ⟨before, inner, after, blank, blank', isMember, rfl⟩), (reads _ _).1 isDocument⟩
    rw [split, opened]
    simp [Composite.opening, Composite.closing]
  · rintro ⟨text, split, string, composite, isDocument⟩
    cases composite with
    | object enclosed =>
    obtain ⟨before, inner, after, blank, blank', isMember, rfl⟩ := enclosed_singleton_iff.1 enclosed
    obtain rfl : bytes = before ++ (inner ++ (after ++ closeObject :: rest)) := by
      simpa [Composite.opening, Composite.closing] using split
    have stops : Stops (after ++ closeObject :: rest) := .blanks_append blank' (.cons rfl _)
    refine ⟨string, after ++ closeObject :: rest, ?_, (reads _ _).2 isDocument,
      skipBlanks_append_cons blank' rfl rest⟩
    have part : ∃ member, MemberText ScalarText inner member ∧
        [(embeddingName, .string string)] = [member] := ⟨_, isMember, rfl⟩
    rw [← takes.skip, takes.skipBlanks_append blank part]
    exact takes.complete part stops

/-- Whether a document is embedded in an object is told by its first name. -/
theorem isSome_embedding?_iff {text bytes rest : Bytes} {members : List (String × Value)}
    (h : Enclosed .object (MemberText Text) text members)
    (split : openObject :: bytes = text ++ rest) :
    (embedding? bytes).isSome ↔ (Value.object members).IsEmbedding := by
  rw [Option.isSome_iff_exists]
  simp only [embedding?_eq_some_iff]
  cases h with
  | empty blank =>
    obtain ⟨-, rfl⟩ := List.cons.inj split
    have closed := skipBlanks_append_cons blank (b := closeObject) rfl rest
    simp [Value.IsEmbedding, Composite.closing, closed, show closeObject ≠ quoteMark by decide]
  | @filled blanks _ _ blank sequence =>
    obtain ⟨-, rfl⟩ := List.cons.inj split
    cases members with
    | nil => cases sequence
    | cons member members =>
      obtain ⟨inner, more, isMember, rfl⟩ := sequence.exists_first
      obtain ⟨name, after, before, value, isName, -, -, -, rfl⟩ := isMember
      have opened (tail : Bytes) : skipBlanks (blanks ++ quoteMark :: tail) = quoteMark :: tail :=
        skipBlanks_append_cons blank rfl tail
      have found (tail : Bytes) : stringBody (name ++ tail) = .ok (member.1, tail) :=
        stringBody_eq_ok_iff.2 ⟨name, rfl, isName⟩
      simp [opened, found, Value.IsEmbedding, eq_comm]

/-! ## Values -/

/-- What is read of an object without an embedded document. -/
theorem readObject_plain_iff (takes : Takes read Text) {bytes rest : Bytes}
    {members : List (String × Value)} :
    embedding? bytes = none ∧
        readObject (takeMember read) [] bytes = .ok (members.reverse, rest) ↔
      ∃ text, openObject :: bytes = text ++ rest ∧
        Enclosed .object (MemberText Text) text members ∧ ¬ (Value.object members).IsEmbedding := by
  rw [← Option.not_isSome_iff_eq_none, readObject_eq_ok_iff takes]
  constructor
  · rintro ⟨plain, text, members', split, enclosed, same⟩
    cases List.reverse_injective same
    exact ⟨text, split, enclosed, (isSome_embedding?_iff enclosed split).not.1 plain⟩
  · rintro ⟨text, split, enclosed, plain⟩
    exact ⟨(isSome_embedding?_iff enclosed split).not.2 plain, text, members, split, enclosed, rfl⟩

theorem takesComposite_compositeOf (takes : Takes read Text)
    (reads : ∀ string v, document string = .ok v ↔ Document string v) :
    TakesComposite (compositeOf document read) fun text v =>
      CompositeText Text text v ∧ ¬ v.IsEmbedding ∨ EmbeddingText Document text v where
  sound := by
    intro kind bytes rest v h
    cases kind with
    | list =>
      obtain ⟨⟨items, rest⟩, found, e⟩ := map_eq_ok_iff.1 h
      cases e
      obtain ⟨text, parts, split, enclosed, rfl⟩ := (readList_eq_ok_iff takes).1 found
      rw [List.reverse_reverse]
      exact ⟨text, split, .inl ⟨.list enclosed, id⟩⟩
    | object =>
      rw [compositeOf] at h
      cases embeds : embedding? bytes with
      | some tail =>
        simp only [embeds] at h
        obtain ⟨text, split, isText⟩ := (embedded_eq_ok_iff reads).1 ⟨tail, embeds, h⟩
        exact ⟨text, split, .inr isText⟩
      | none =>
        simp only [embeds] at h
        obtain ⟨⟨members, rest⟩, found, e⟩ := map_eq_ok_iff.1 h
        cases e
        rw [← members.reverse_reverse] at found
        obtain ⟨text, split, enclosed, plain⟩ := (readObject_plain_iff takes).1 ⟨embeds, found⟩
        exact ⟨text, split, .inl ⟨.object enclosed, plain⟩⟩
  complete := by
    rintro text v (⟨composite, plain⟩ | embedding)
    · cases composite with
      | @list items enclosed =>
        obtain ⟨tail, rfl⟩ := enclosed.begins
        refine ⟨.list, tail, rfl, fun rest => map_eq_ok_iff.2 ⟨(items.reverse, rest), ?_, ?_⟩⟩
        · exact (readList_eq_ok_iff takes).2 ⟨_, items, rfl, enclosed, rfl⟩
        · simp only [List.reverse_reverse]
      | @object members enclosed =>
        obtain ⟨tail, rfl⟩ := enclosed.begins
        refine ⟨.object, tail, rfl, fun rest => ?_⟩
        obtain ⟨none, found⟩ : embedding? (tail ++ rest) = none ∧
            readObject (takeMember read) [] (tail ++ rest) = .ok (members.reverse, rest) :=
          (readObject_plain_iff takes).2 ⟨_, rfl, enclosed, plain⟩
        rw [compositeOf]
        simp only [none]
        exact map_eq_ok_iff.2 ⟨_, found, by simp only [List.reverse_reverse]⟩
    · obtain ⟨string, composite, -⟩ := id embedding
      obtain ⟨tail, rfl⟩ : ∃ tail, text = openObject :: tail := by
        cases composite with
        | object enclosed => exact enclosed.begins
      refine ⟨.object, tail, rfl, fun rest => ?_⟩
      obtain ⟨tail', embeds, read⟩ : ∃ tail', embedding? (tail ++ rest) = some tail' ∧
          embedded document tail' = .ok (v, rest) :=
        (embedded_eq_ok_iff reads).2 ⟨_, rfl, embedding⟩
      rw [compositeOf]
      simp only [embeds, read]

theorem takes_value (reads : ∀ string v, document string = .ok v ↔ Document string v) :
    ∀ depth, Takes (value document depth) (ValueText Document depth)
  | 0 => takes_scalarOr_error fun _ => .tooDeep
  | depth + 1 => by
    refine takes_scalarOr (takesComposite_compositeOf (takes_value reads depth) reads) ?_
    rintro text v (⟨composite, -⟩ | ⟨string, composite, -⟩)
    · exact composite.begins
    · exact composite.begins

/-! ## Documents -/

theorem embeddedDocument_eq_ok_iff : ∀ (levels : Nat) (string : String) (v : Value),
    embeddedDocument levels string = .ok v ↔ DocumentText levels string v
  | 0, _, _ => ⟨nofun, False.elim⟩
  | levels + 1, _, _ =>
    (takes_value (embeddedDocument_eq_ok_iff levels) documentDepth).whole_eq_ok_iff

/-- The text of an embedded document is shorter than that of the object around it. -/
theorem length_lt_of_embedding {text : Bytes} {string : String}
    (h : CompositeText ScalarText text (.object [(embeddingName, .string string)])) :
    (Bytes.ofText string).length < text.length := by
  cases h with
  | object enclosed =>
    obtain ⟨_, _, _, -, -, ⟨_, _, _, inner, -, -, -, isText, rfl⟩, rfl⟩ :=
      enclosed_singleton_iff.1 enclosed
    cases isText with
    | word word => rcases value_of_word? word with e | ⟨_, e⟩ <;> cases e
    | string isText =>
      have shorter := isText.length_lt
      simp only [List.length_append, List.length_cons]
      omega

/-- The documents inside of a text may be known by another grammar; each is shorter than the text.
-/
theorem ValueText.imp : ∀ {depth : Nat} {text : Bytes} {v : Value},
    ValueText Document depth text v →
    (∀ string v, (Bytes.ofText string).length < text.length → Document string v →
      Document' string v) →
    ValueText Document' depth text v
  | 0, _, _, h, _ => h
  | depth + 1, text, v, h, imp => by
    rcases h with scalar | ⟨composite, plain⟩ | ⟨string, composite, isDocument⟩
    · exact .inl scalar
    · refine .inr (.inl ⟨composite.imp fun inner v lt isValue => ?_, plain⟩)
      exact isValue.imp fun string v lt' => imp string v (lt'.trans lt)
    · exact .inr (.inr ⟨string, composite,
        imp string v (length_lt_of_embedding composite) isDocument⟩)

/-- A document has fewer others inside each other than it is long. -/
theorem DocumentText.of_length_lt : ∀ {levels enough : Nat} {string : String} {v : Value},
    DocumentText levels string v → (Bytes.ofText string).length < enough →
      DocumentText enough string v
  | levels + 1, enough + 1, string, v, h, lt => by
    obtain ⟨before, text, after, blank, blank', isValue, split⟩ := h
    rw [split, List.length_append, List.length_append] at lt
    have isValue' : ValueText (DocumentText enough) documentDepth text v :=
      isValue.imp fun _ _ shorter isInner => isInner.of_length_lt (by omega)
    exact ⟨before, text, after, blank, blank', isValue', split⟩

/-- An embedded document is the text of a value, in which others may be embedded again. -/
theorem isEmbedded_iff {string : String} {v : Value} :
    IsEmbedded string v ↔ Spaced (ValueText IsEmbedded documentDepth) (Bytes.ofText string) v := by
  constructor
  · rintro ⟨levels, h⟩
    cases levels with
    | zero => exact h.elim
    | succ levels =>
      obtain ⟨before, text, after, blank, blank', isValue, split⟩ := h
      exact ⟨before, text, after, blank, blank',
        isValue.imp fun _ _ _ isDocument => ⟨levels, isDocument⟩, split⟩
  · rintro ⟨before, text, after, blank, blank', isValue, split⟩
    -- each of the others is shorter, so the length of the text is a number for all of them
    refine ⟨text.length + 1, before, text, after, blank, blank', isValue.imp ?_, split⟩
    rintro inner v shorter ⟨levels, isDocument⟩
    exact isDocument.of_length_lt shorter

/-- The members of an object are read from the texts of objects, and from no others. -/
theorem takes_objectMembers : Takes objectMembers ObjectText where
  skip bytes := by rw [objectMembers, objectMembers, skipBlanks_skipBlanks]
  sound := by
    intro bytes rest members h
    unfold objectMembers at h
    cases split : skipBlanks bytes with
    | nil => rw [split] at h; cases h
    | cons b tail =>
      simp only [split] at h
      by_cases opens : b = openObject
      · rw [if_pos opens] at h
        obtain ⟨⟨members', rest'⟩, found, e⟩ := map_eq_ok_iff.1 h
        cases e
        have takes := takes_value (embeddedDocument_eq_ok_iff tail.length) memberDepth
        obtain ⟨text, parts, e, enclosed, rfl⟩ := (readObject_eq_ok_iff takes).1 found
        refine ⟨text, by rw [opens, e], ?_⟩
        rw [List.reverse_reverse]
        exact enclosed.imp fun _ _ _ isMember => isMember.imp fun _ _ _ isValue =>
          isValue.imp fun _ _ _ isDocument => ⟨_, isDocument⟩
      · rw [if_neg opens, refuse, bind_eq_ok_iff] at h
        obtain ⟨_, -, h⟩ := h
        cases h
  complete := by
    intro text rest members h _
    obtain ⟨tail, rfl⟩ := Enclosed.begins h
    unfold objectMembers
    rw [List.cons_append, skipBlanks_cons rfl]
    have takes := takes_value (embeddedDocument_eq_ok_iff (tail ++ rest).length) memberDepth
    have enclosed : Enclosed .object
        (MemberText (ValueText (DocumentText (tail ++ rest).length) memberDepth))
        (openObject :: tail) members := by
      refine h.imp fun _ _ lt isMember => isMember.imp fun _ _ lt' isValue =>
        isValue.imp fun string _ lt'' ⟨levels, isDocument⟩ => isDocument.of_length_lt ?_
      rw [List.length_append]
      rw [List.length_cons] at lt
      omega
    refine map_eq_ok_iff.2 ⟨(members.reverse, rest), ?_, ?_⟩
    · exact (readObject_eq_ok_iff takes).2 ⟨_, members, rfl, enclosed, rfl⟩
    · simp only [List.reverse_reverse]
  begins h := by
    obtain ⟨tail, rfl⟩ := Enclosed.begins h
    exact ⟨_, tail, rfl, rfl⟩

end

end TokenTariff.Json
