import TokenTariff.Proofs.Json.RawTexts
/-!
# Where the texts of values end

The machine that finds the end of a value without building it goes through every text of JSON and
stops right behind it (`span_append`), at any depth: what is still open when it enters a value is
open when it leaves it. So a text in UTF-8 is taken as it stands, by itself and inside of another
text (`takeRaw_append`). The texts that a reader makes values of are among them, since they are
UTF-8 as a whole (`isUtf8_of_valueText`).

* `Leads`: the places and open composites that a text leads through;
* `Place.IsSettled`: the places at which a value may be complete;
* `RunsThrough`: the texts of parts inside of a list or an object.
-/

namespace TokenTariff.Json
set_option autoImplicit false

/-! ## Ways of the machine -/

/-- A text leads from one place to another, and the value does not end inside of it. -/
inductive Leads : Place → List Composite → Bytes → Place → List Composite → Prop where
  | refl (place : Place) (stack : List Composite) : Leads place stack [] place stack
  | step {place place' place'' : Place} {stack stack' stack'' : List Composite} {b : UInt8}
      {text : Bytes} (goesOn : place.endsBefore stack b = false)
      (h : place.step stack b = .ok (place', stack'))
      (tail : Leads place' stack' text place'' stack'') :
      Leads place stack (b :: text) place'' stack''

namespace Leads
variable {place place' place'' : Place} {stack stack' stack'' : List Composite} {a b text : Bytes}

theorem single {c : UInt8} (goesOn : place.endsBefore stack c = false)
    (h : place.step stack c = .ok (place', stack')) : Leads place stack [c] place' stack' :=
  .step goesOn h (.refl place' stack')

theorem trans (h : Leads place stack a place' stack') (h' : Leads place' stack' b place'' stack'') :
    Leads place stack (a ++ b) place'' stack'' := by
  induction h with
  | refl => exact h'
  | step goesOn step _ ih => exact .step goesOn step (ih h')

theorem spanFrom_append (h : Leads place stack text place' stack') (rest : Bytes) :
    spanFrom place stack (text ++ rest) =
      (spanFrom place' stack' rest).map fun (inner, rest) => (text ++ inner, rest) := by
  induction h with
  | refl place stack =>
    rw [List.nil_append]
    cases spanFrom place stack rest <;> rfl
  | @step place place' place'' stack stack' stack'' b text goesOn step _ ih =>
    rw [List.cons_append, spanFrom, goesOn]
    simp only [step, ih, Bool.false_eq_true, if_false]
    cases spanFrom place'' stack'' rest <;> rfl

end Leads

/-- Whether a value may be complete at a place. -/
def Place.IsSettled : Place → Prop
  | after => True
  | number part => part.isComplete = true
  | _ => False

theorem next?_delimiter {part : NumberPart} (complete : part.isComplete = true) {b : UInt8}
    (delimiter : isDelimiter b = true) : part.next? b = none := by
  refine Option.isNone_iff_eq_none.1 ?_
  refine forall_delimiter (P := fun b => (part.next? b).isNone = true) ?_ delimiter
  cases part <;> first | cases complete; done | decide +kernel

theorem endsBefore_delimiter {part : NumberPart} (complete : part.isComplete = true) {b : UInt8}
    (delimiter : isDelimiter b = true) : part.endsBefore b = true := by
  rw [NumberPart.endsBefore, complete, next?_delimiter complete delimiter,
    isDigit_of_isDelimiter delimiter]
  rfl

/-- Behind a complete value, a delimiter does the same whatever the value is. -/
theorem step_settled {place : Place} (settled : place.IsSettled) (stack : List Composite)
    {b : UInt8} (delimiter : isDelimiter b = true) :
    place.step stack b = Place.separate stack b := by
  cases place with
  | after => rfl
  | number part =>
    simp only [Place.step, next?_delimiter settled delimiter,
      endsBefore_delimiter settled delimiter, if_true]
  | _ => cases settled

theorem goesOn_inside (place : Place) (kind : Composite) (outer : List Composite) (b : UInt8) :
    place.endsBefore (kind :: outer) b = false := by
  cases place <;> rfl

/-- Outside of all composites, a complete value ends before whatever may follow it. -/
theorem spanFrom_settled {place : Place} (settled : place.IsSettled) {rest : Bytes}
    (stops : Stops rest) : spanFrom place [] rest = .ok ([], rest) := by
  cases rest with
  | nil =>
    cases place with
    | after => rfl
    | number part =>
      have complete : part.isComplete = true := settled
      simp [spanFrom, Place.endError?, complete]
    | _ => cases settled
  | cons b rest =>
    have ends : place.endsBefore [] b = true := by
      cases place with
      | after => rfl
      | number part => exact endsBefore_delimiter settled (stops b rfl)
      | _ => cases settled
    rw [spanFrom, ends]
    rfl

/-! ## Scalars -/

theorem leads_number {last : NumberPart} (stack : List Composite) :
    ∀ {part : NumberPart} {text : Bytes}, part.run text = some last →
      Leads (.number part) stack text (.number last) stack
  | part, [], h => by
    cases h
    exact .refl _ _
  | part, b :: text, h => by
    obtain ⟨next, first, rest⟩ := NumberPart.run_cons_eq_some_iff.1 h
    have goesOn : (Place.number part).endsBefore stack b = false := by
      simp [Place.endsBefore, NumberPart.endsBefore, first]
    refine .step goesOn ?_ (leads_number stack rest)
    simp only [Place.step, first]

/-- The first byte of a number, which is that of its digits after a minus. -/
theorem begin_number {next : NumberPart} {b : UInt8} (stack : List Composite)
    (first : NumberPart.minus.next? b = some next) :
    Place.begin stack b = .ok (.number next, stack) := by
  have digit : (b = minusSign || isDigit b) = true := by
    simp only [NumberPart.next?] at first
    split at first
    · next zero => simp [zero, isDigit]
    · split at first
      · next digit => simp [digit]
      · cases first
  obtain ⟨notDelimiter, word, opened, notQuote⟩ := begins_number b digit
  have notMinus : b ≠ minusSign := by
    rintro rfl
    cases first
  unfold Place.begin
  rw [isBlank_of_not_delimiter notDelimiter]
  simp only [Option.isNone_iff_eq_none.1 word, Option.isNone_iff_eq_none.1 opened, if_neg notQuote,
    if_neg notMinus, Bool.false_eq_true, if_false]
  simp only [NumberPart.next?] at first
  split at first
  · next zero =>
    cases first
    rw [if_pos zero]
  · next nonzero =>
    split at first
    · next digit =>
      cases first
      rw [if_neg nonzero, if_pos digit]
    · cases first

theorem leads_unsigned {text : Bytes} (h : UnsignedText text) (stack : List Composite) :
    ∃ last, last.isComplete = true ∧ Leads (.number .minus) stack text (.number last) stack ∧
      Leads .value stack text (.number last) stack := by
  obtain ⟨last, run, complete⟩ := NumberPart.completes_minus_iff.2 h
  refine ⟨last, complete, leads_number stack run, ?_⟩
  cases text with
  | nil =>
    cases run
    cases complete
  | cons b text =>
    obtain ⟨next, first, rest⟩ := NumberPart.run_cons_eq_some_iff.1 run
    exact .step rfl (begin_number stack first) (leads_number stack rest)

theorem leads_rawNumber {text : Bytes} (h : RawNumber text) (stack : List Composite) :
    ∃ place, place.IsSettled ∧ Leads .value stack text place stack := by
  cases h with
  | positive h =>
    obtain ⟨last, complete, -, way⟩ := leads_unsigned h stack
    exact ⟨.number last, complete, way⟩
  | negative h =>
    obtain ⟨last, complete, way, -⟩ := leads_unsigned h stack
    exact ⟨.number last, complete, .step rfl rfl way⟩

theorem leads_string (isName : Bool) (stack : List Composite) {inside : SkippedString}
    {text : Bytes} (h : inside.Passes text) :
    Leads (.string isName inside) stack text (if isName then .colon else .after) stack := by
  induction h with
  | last step => exact .single rfl (by simp only [Place.step, step]; rfl)
  | more step _ ih => exact .step rfl (by simp only [Place.step, step]; rfl) ih

theorem leads_letters (stack : List Composite) :
    ∀ {letters : Bytes}, letters ≠ [] → Leads (.word letters) stack letters .after stack
  | [], h => absurd rfl h
  | [letter], _ => .single rfl (by simp [Place.step])
  | letter :: next :: letters, _ =>
    .step rfl (by simp [Place.step]) (leads_letters stack (List.cons_ne_nil next letters))

theorem letters_ne_nil {b : UInt8} {letters : Bytes} {v : Value}
    (h : word? b = some (letters, v)) : letters ≠ [] := by
  have mem := List.lookup_eq_some_iff.1 h
  rintro rfl
  obtain ⟨before, after, e, -⟩ := mem
  have : (b, [], v) ∈ words := by rw [e]; simp
  simp [words] at this

theorem leads_rawScalar {text : Bytes} (h : RawScalar text) (stack : List Composite) :
    ∃ place, place.IsSettled ∧ Leads .value stack text place stack := by
  cases h with
  | @word b letters v h =>
    have notBlank := isBlank_of_not_delimiter (begins_word b (by rw [h]; rfl))
    refine ⟨.after, trivial, .step rfl ?_ (leads_letters stack (letters_ne_nil h))⟩
    simp [Place.step, Place.begin, notBlank, h]
  | string h => exact ⟨.after, trivial, .step rfl rfl (leads_string false stack h.passes)⟩
  | number h => exact leads_rawNumber h stack

/-! ## Lists and objects -/

/-- Where the machine looks for the next part behind a comma. -/
def Composite.next : Composite → Place
  | list => .value
  | object => .name

/-- The texts of parts: the machine goes through them inside of a composite, behind the opening
byte as behind a comma, and comes to where a value may be complete. -/
def RunsThrough (kind : Composite) (text : Bytes) : Prop :=
  ∀ start outer, start = kind.next ∨ start = .opened →
    ∃ place, place.IsSettled ∧ Leads start (kind :: outer) text place (kind :: outer)

theorem separate_blank (kind : Composite) (outer : List Composite) {b : UInt8}
    (h : isBlank b = true) :
    Place.separate (kind :: outer) b = .ok (.after, kind :: outer) := by
  simp [Place.separate, h]

theorem separate_comma (kind : Composite) (outer : List Composite) :
    Place.separate (kind :: outer) comma = .ok (kind.next, kind :: outer) := by
  cases kind <;> rfl

theorem separate_closing (kind : Composite) (outer : List Composite) :
    Place.separate (kind :: outer) kind.closing = .ok (.after, outer) := by
  cases kind <;> rfl

theorem isDelimiter_of_isBlank {b : UInt8} (h : isBlank b = true) : isDelimiter b = true := by
  rw [isDelimiter, h]
  rfl

theorem leads_blanks_settled (kind : Composite) (outer : List Composite) :
    ∀ {blanks : Bytes} {place : Place}, place.IsSettled → IsBlanks blanks →
      ∃ place', place'.IsSettled ∧ Leads place (kind :: outer) blanks place' (kind :: outer)
  | [], place, settled, _ => ⟨place, settled, .refl _ _⟩
  | b :: blanks, place, settled, blank => by
    have first := blank b List.mem_cons_self
    have blank' : IsBlanks blanks := fun c mem => blank c (List.mem_cons_of_mem _ mem)
    have after : Place.after.IsSettled := trivial
    obtain ⟨place', settled', rest⟩ := leads_blanks_settled kind outer after blank'
    refine ⟨place', settled', .step (goesOn_inside _ _ _ _) ?_ rest⟩
    rw [step_settled settled _ (isDelimiter_of_isBlank first), separate_blank kind outer first]

theorem leads_blanks {place : Place} {stack : List Composite}
    (waits : ∀ b, isBlank b = true → place.step stack b = .ok (place, stack))
    (goesOn : ∀ b, place.endsBefore stack b = false) :
    ∀ {blanks : Bytes}, IsBlanks blanks → Leads place stack blanks place stack
  | [], _ => .refl _ _
  | b :: _, blank =>
    .step (goesOn b) (waits b (blank b List.mem_cons_self))
      (leads_blanks waits goesOn fun c mem => blank c (List.mem_cons_of_mem _ mem))

theorem waits_next (kind : Composite) (stack : List Composite) (b : UInt8) (h : isBlank b = true) :
    kind.next.step stack b = .ok (kind.next, stack) := by
  cases kind <;> simp [Composite.next, Place.step, Place.begin, h]

theorem waits_opened (kind : Composite) (outer : List Composite) (b : UInt8)
    (h : isBlank b = true) :
    Place.opened.step (kind :: outer) b = .ok (.opened, kind :: outer) := by
  cases kind <;> simp [Place.step, h]

theorem waits_colon (stack : List Composite) (b : UInt8) (h : isBlank b = true) :
    Place.colon.step stack b = .ok (.colon, stack) := by
  simp [Place.step, h]

theorem waits_value (stack : List Composite) (b : UInt8) (h : isBlank b = true) :
    Place.value.step stack b = .ok (.value, stack) :=
  waits_next .list stack b h

theorem waits_name (stack : List Composite) (b : UInt8) (h : isBlank b = true) :
    Place.name.step stack b = .ok (.name, stack) :=
  waits_next .object stack b h

theorem runsThrough_sequence {α : Type} {kind : Composite} {Part : Bytes → α → Prop}
    (runs : ∀ {text part}, Part text part → RunsThrough kind text) {text : Bytes} {parts : List α}
    (h : Sequence Part text parts) : RunsThrough kind text := by
  induction h with
  | last part blank =>
    intro start outer isStart
    obtain ⟨place, settled, s1⟩ := runs part start outer isStart
    obtain ⟨place', settled', s2⟩ := leads_blanks_settled kind outer settled blank
    exact ⟨place', settled', s1.trans s2⟩
  | more part blank blank' _ ih =>
    intro start outer isStart
    obtain ⟨place, settled, s1⟩ := runs part start outer isStart
    obtain ⟨place', settled', s2⟩ := leads_blanks_settled kind outer settled blank
    have s3 : Leads place' (kind :: outer) [comma] kind.next (kind :: outer) := by
      refine .single (goesOn_inside _ _ _ _) ?_
      rw [step_settled settled' _ rfl, separate_comma]
    have s4 := leads_blanks (waits_next kind (kind :: outer)) (goesOn_inside _ _ _) blank'
    obtain ⟨place'', settled'', s5⟩ := ih kind.next outer (.inl rfl)
    exact ⟨place'', settled'', s1.trans (s2.trans (s3.trans (s4.trans s5)))⟩

theorem leads_opening (kind : Composite) (stack : List Composite) :
    Leads .value stack [kind.opening] .opened (kind :: stack) := by
  cases kind <;> exact .single rfl rfl

theorem leads_enclosed {α : Type} {kind : Composite} {Part : Bytes → α → Prop}
    (runs : ∀ {text part}, Part text part → RunsThrough kind text) {text : Bytes} {parts : List α}
    (h : Enclosed kind Part text parts) (stack : List Composite) :
    Leads .value stack text .after stack := by
  have s1 := leads_opening kind stack
  cases h with
  | empty blank =>
    have s2 := leads_blanks (waits_opened kind stack) (goesOn_inside _ _ _) blank
    have s3 : Leads .opened (kind :: stack) [kind.closing] .after stack := by
      cases kind <;> exact .single rfl rfl
    exact s1.trans (s2.trans s3)
  | filled blank sequence =>
    have s2 := leads_blanks (waits_opened kind stack) (goesOn_inside _ _ _) blank
    obtain ⟨place, settled, s3⟩ := runsThrough_sequence runs sequence .opened stack (.inr rfl)
    have s4 : Leads place (kind :: stack) [kind.closing] .after stack := by
      refine .single (goesOn_inside _ _ _ _) ?_
      rw [step_settled settled _ kind.isDelimiter_closing, separate_closing]
    exact s1.trans (s2.trans (s3.trans s4))

/-! ## Values -/

/-- What a value is to the machine: it comes to where the value may be complete, with the composites
open that were open before. -/
def LeadsAsValue (Text : Bytes → Prop) : Prop :=
  ∀ text, Text text → ∀ stack,
    ∃ place, place.IsSettled ∧ Leads .value stack text place stack

theorem runsThrough_item {text : Bytes}
    (begins : ∃ b tail, text = b :: tail ∧ isDelimiter b = false)
    (leads : ∀ stack, ∃ place, place.IsSettled ∧ Leads .value stack text place stack) :
    RunsThrough .list text := by
  intro start outer isStart
  obtain ⟨place, settled, way⟩ := leads (.list :: outer)
  refine ⟨place, settled, ?_⟩
  rcases isStart with rfl | rfl
  · exact way
  · -- the first byte does not close the list, so it begins a value as it does anywhere
    obtain ⟨b, tail, rfl, notDelimiter⟩ := begins
    have notClosing : b ≠ closeList := by
      rintro rfl
      cases notDelimiter
    cases way with
    | step goesOn step way =>
      refine .step rfl ?_ way
      rw [← step]
      simp [Place.step, isBlank_of_not_delimiter notDelimiter, notClosing]

theorem runsThrough_rawPart {Text : Bytes → Prop} (leads : LeadsAsValue Text)
    (begins : ∀ text, Text text → ∃ b tail, text = b :: tail ∧ isDelimiter b = false)
    {kind : Composite} {text : Bytes} (h : RawPart Text kind text) : RunsThrough kind text := by
  cases h with
  | item h => exact runsThrough_item (begins text h) (leads text h)
  | member isName blank blank' h =>
    intro start outer isStart
    have s1 : Leads start (.object :: outer) [quoteMark] (.string true .plain)
        (.object :: outer) := by
      rcases isStart with rfl | rfl <;> exact .single rfl rfl
    have s2 := leads_string true (.object :: outer) isName.passes
    have s3 := leads_blanks (waits_colon (.object :: outer)) (fun _ => rfl) blank
    have s4 : Leads .colon (.object :: outer) [colon] .value (.object :: outer) := .single rfl rfl
    have s5 := leads_blanks (waits_value (.object :: outer)) (fun _ => rfl) blank'
    obtain ⟨place, settled, s6⟩ := leads _ h (.object :: outer)
    exact ⟨place, settled, s1.trans (s2.trans (s3.trans (s4.trans (s5.trans s6))))⟩

theorem leads_rawText : ∀ depth, LeadsAsValue (RawText depth)
  | 0, _, h, stack => leads_rawScalar h stack
  | depth + 1, text, h, stack => by
    have inner := leads_rawText depth
    rcases h with scalar | ⟨kind, parts, enclosed⟩
    · exact leads_rawScalar scalar stack
    · refine ⟨.after, trivial, leads_enclosed (fun part => ?_) enclosed stack⟩
      exact runsThrough_rawPart inner (fun _ => RawText.begins) part.2

/-- The machine stops right behind a text that leads to where a value may be complete. -/
theorem span_append {text rest : Bytes} {place : Place} (settled : place.IsSettled)
    (way : Leads .value [] text place []) (stops : Stops rest) :
    span (text ++ rest) = .ok (text, rest) := by
  rw [span, way.spanFrom_append, spanFrom_settled settled stops]
  simp [Except.map]

/-! ## Texts are UTF-8 -/

theorem ascii_of_isBlank (b : UInt8) : isBlank b = true → b < 0x80 :=
  Bytes.forall_byte (p := fun b => isBlank b = true → b < 0x80) (by decide +kernel) b

theorem IsBlanks.isUtf8 {blanks : Bytes} (h : IsBlanks blanks) : Bytes.IsUtf8 blanks :=
  .of_all_ascii fun b mem => ascii_of_isBlank b (h b mem)

theorem ascii_of_next? (part : NumberPart) (b : UInt8) : (part.next? b).isSome → b < 0x80 := by
  refine Bytes.forall_byte (p := fun b => (part.next? b).isSome → b < 0x80) ?_ b
  cases part <;> decide +kernel

theorem ascii_of_run {last : NumberPart} :
    ∀ {part : NumberPart} {text : Bytes}, part.run text = some last → ∀ b ∈ text, b < 0x80
  | _, [], _, b, mem => by cases mem
  | part, c :: text, h, b, mem => by
    obtain ⟨next, first, rest⟩ := NumberPart.run_cons_eq_some_iff.1 h
    rcases List.mem_cons.1 mem with rfl | mem
    · exact ascii_of_next? part b (by rw [first]; rfl)
    · exact ascii_of_run rest b mem

theorem UnsignedText.isUtf8 {text : Bytes} (h : UnsignedText text) : Bytes.IsUtf8 text := by
  obtain ⟨last, run, -⟩ := NumberPart.completes_minus_iff.2 h
  exact .of_all_ascii (ascii_of_run run)

theorem RawNumber.isUtf8 {text : Bytes} (h : RawNumber text) : Bytes.IsUtf8 text := by
  cases h with
  | positive h => exact h.isUtf8
  | negative h => exact isUtf8_cons_ascii (by decide) h.isUtf8

theorem isUtf8_of_word {b : UInt8} {letters : Bytes} {v : Value}
    (h : word? b = some (letters, v)) : Bytes.IsUtf8 (b :: letters) := by
  obtain ⟨before, after, e, -⟩ := List.lookup_eq_some_iff.1 h
  have mem : (b, letters, v) ∈ words := by rw [e]; simp
  refine .of_all_ascii ?_
  simp only [words, List.mem_cons, Prod.mk.injEq, List.not_mem_nil, or_false] at mem
  rcases mem with ⟨rfl, rfl, -⟩ | ⟨rfl, rfl, -⟩ | ⟨rfl, rfl, -⟩ <;> decide +kernel

theorem ScalarText.isUtf8 {text : Bytes} {v : Value} (h : ScalarText text v) :
    Bytes.IsUtf8 text := by
  cases h with
  | word h => exact isUtf8_of_word h
  | string h => exact h.isUtf8
  | number h => exact (rawNumber_of_numberText h).isUtf8

theorem Sequence.isUtf8 {α : Type} {Part : Bytes → α → Prop}
    (utf8 : ∀ text part, Part text part → Bytes.IsUtf8 text) {text : Bytes} {parts : List α}
    (h : Sequence Part text parts) : Bytes.IsUtf8 text := by
  induction h with
  | last part blank => exact (utf8 _ _ part).append blank.isUtf8
  | more part blank blank' _ ih =>
    have rest := isUtf8_cons_ascii (b := comma) (by decide) (blank'.isUtf8.append ih)
    exact (utf8 _ _ part).append (blank.isUtf8.append rest)

theorem Enclosed.isUtf8 {α : Type} {kind : Composite} {Part : Bytes → α → Prop}
    (utf8 : ∀ text part, Part text part → Bytes.IsUtf8 text) {text : Bytes} {parts : List α}
    (h : Enclosed kind Part text parts) : Bytes.IsUtf8 text := by
  have opening : kind.opening < 0x80 := by cases kind <;> decide
  have closing : Bytes.IsUtf8 [kind.closing] := .ascii (by cases kind <;> decide)
  cases h with
  | empty blank => exact isUtf8_cons_ascii opening (blank.isUtf8.append closing)
  | filled blank sequence =>
    exact isUtf8_cons_ascii opening (blank.isUtf8.append ((sequence.isUtf8 utf8).append closing))

theorem MemberText.isUtf8 {Text : Bytes → Value → Prop}
    (utf8 : ∀ text v, Text text v → Bytes.IsUtf8 text) {text : Bytes} {member : String × Value}
    (h : MemberText Text text member) : Bytes.IsUtf8 text := by
  obtain ⟨name, after, before, inner, isName, blank, blank', isValue, rfl⟩ := h
  have rest := isUtf8_cons_ascii (b := colon) (by decide)
    (blank'.isUtf8.append (utf8 _ _ isValue))
  exact isName.isUtf8.append (blank.isUtf8.append rest)

theorem CompositeText.isUtf8 {Text : Bytes → Value → Prop}
    (utf8 : ∀ text v, Text text v → Bytes.IsUtf8 text) {text : Bytes} {v : Value}
    (h : CompositeText Text text v) : Bytes.IsUtf8 text := by
  cases h with
  | list enclosed => exact enclosed.isUtf8 utf8
  | object enclosed => exact enclosed.isUtf8 fun _ _ => MemberText.isUtf8 utf8

theorem isUtf8_of_valueText {Document : String → Value → Prop} :
    ∀ depth text v, ValueText Document depth text v → Bytes.IsUtf8 text
  | 0, _, _, h => ScalarText.isUtf8 h
  | depth + 1, text, v, h => by
    rcases h with scalar | ⟨composite, -⟩ | ⟨string, composite, -⟩
    · exact scalar.isUtf8
    · exact composite.isUtf8 (isUtf8_of_valueText depth)
    · exact composite.isUtf8 fun _ _ => ScalarText.isUtf8

theorem rawDocument_of_objectText {text : Bytes} {members : List (String × Value)}
    (h : ObjectText text members) : RawDocument text :=
  ⟨⟨_, rawText_of_objectText h⟩,
    Enclosed.isUtf8 (fun _ _ => MemberText.isUtf8 (isUtf8_of_valueText memberDepth)) h⟩

/-- A text of JSON is taken as it stands, whatever follows it. -/
theorem takeRaw_append {text rest : Bytes} (h : RawDocument text) (stops : Stops rest) :
    takeRaw (text ++ rest) = .ok (text, rest) := by
  obtain ⟨⟨depth, isText⟩, utf8⟩ := h
  have trimmed : skipBlanks (text ++ rest) = text ++ rest := by
    obtain ⟨b, tail, rfl, begins⟩ := isText.begins
    exact skipBlanks_cons (isBlank_of_not_delimiter begins) _
  obtain ⟨place, settled, way⟩ := leads_rawText depth text isText []
  rw [takeRaw, trimmed, span_append settled way stops]
  exact if_pos utf8

end TokenTariff.Json
