import TokenTariff.Json.Record
import TokenTariff.Proofs.Json.Spans
/-!
# Records as objects in any order

An object tells a record if it has a text for each field at most once, leaves out only what may be
left out, and has any values of JSON under all other names. What is read of such an object depends
on the names of its members alone, so that the members may come in any order.

* `NamedText`: a member as its name and the text of its value;
* `FieldForm`, `Tells`: what an object has to tell;
* `Reads`: a reader that takes texts as one value;
* `Layout.Follows`: a layout whose state is known from the names that were read;
* `Layout.read_of_tells`: what is read of an object.
-/

namespace TokenTariff.Json
set_option autoImplicit false

/-! ## Objects that tell a record -/

/-- A name, a colon and the text of a value. -/
def NamedText (text : Bytes) (member : String × Bytes) : Prop :=
  ∃ written after before, StringText written member.1 ∧ IsBlanks after ∧ IsBlanks before ∧
    text = quoteMark :: (written ++ (after ++ colon :: (before ++ member.2)))

theorem namedText {name : String} {written inner after before : Bytes}
    (isName : StringText written name) (blank : IsBlanks after) (blank' : IsBlanks before) :
    NamedText (quoteMark :: (written ++ (after ++ colon :: (before ++ inner)))) (name, inner) :=
  ⟨written, after, before, isName, blank, blank', rfl⟩

/-- How a field of a record is told. -/
structure FieldForm where
  name : String
  /-- The texts of its value. -/
  Text : Bytes → Prop
  /-- Whether its value is what is read if nothing is told. -/
  MayMiss : Prop

structure Tells (forms : List FieldForm) (members : List (String × Bytes)) : Prop where
  once : ∀ form ∈ forms, (members.map Prod.fst).count form.name ≤ 1
  known : ∀ form ∈ forms, ∀ text, (form.name, text) ∈ members → form.Text text
  missing : ∀ form ∈ forms, form.name ∉ members.map Prod.fst → form.MayMiss
  /-- Other names may have any values of JSON, of any depth. -/
  others : ∀ name text, (name, text) ∈ members → (∀ form ∈ forms, form.name ≠ name) →
    ∃ depth, RawText depth text

section
variable {forms : List FieldForm} {members members' : List (String × Bytes)}

theorem Tells.perm (h : Tells forms members) (perm : members.Perm members') :
    Tells forms members' where
  once form mem := (perm.map Prod.fst).count_eq form.name ▸ h.once form mem
  known form mem text mem' := h.known form mem text (perm.mem_iff.2 mem')
  missing form mem absent := h.missing form mem fun there =>
    absent ((perm.map Prod.fst).mem_iff.1 there)
  others name text mem := h.others name text (perm.mem_iff.2 mem)

theorem Tells.cons_other (h : Tells forms members) {name : String} {text : Bytes}
    (other : ∀ form ∈ forms, form.name ≠ name) (isText : ∃ depth, RawText depth text) :
    Tells forms ((name, text) :: members) where
  once form mem := by
    rw [List.map_cons, List.count_cons_of_ne (other form mem).symm]
    exact h.once form mem
  known form mem text' mem' := by
    rcases List.mem_cons.1 mem' with e | mem'
    · exact absurd (Prod.mk.inj e).1 (other form mem)
    · exact h.known form mem text' mem'
  missing form mem absent := h.missing form mem fun there => absent (List.mem_cons_of_mem _ there)
  others name' text' mem unknown := by
    rcases List.mem_cons.1 mem with e | mem
    · exact (Prod.mk.inj e).2 ▸ isText
    · exact h.others name' text' mem unknown

/-- The members that are written of some fields in their order, some of which may be left out. -/
inductive WritesOut : List FieldForm → List (String × Bytes) → Prop where
  | nil : WritesOut [] []
  | given {form : FieldForm} {forms : List FieldForm} {text : Bytes}
      {members : List (String × Bytes)} (isText : form.Text text) (others : WritesOut forms members) :
      WritesOut (form :: forms) ((form.name, text) :: members)
  | missing {form : FieldForm} {forms : List FieldForm} {members : List (String × Bytes)}
      (may : form.MayMiss) (others : WritesOut forms members) : WritesOut (form :: forms) members

theorem WritesOut.names (h : WritesOut forms members) :
    (members.map Prod.fst).Sublist (forms.map FieldForm.name) := by
  induction h with
  | nil => exact .slnil
  | given _ _ ih => exact ih.cons_cons _
  | missing _ _ ih => exact ih.cons _

theorem WritesOut.tells (h : WritesOut forms members)
    (distinct : (forms.map FieldForm.name).Nodup) : Tells forms members := by
  constructor
  case once =>
    intro form _
    exact List.nodup_iff_count.1 (distinct.sublist h.names) form.name
  case others =>
    intro name text mem other
    obtain ⟨form, mem', same⟩ := List.mem_map.1 (h.names.subset (List.mem_map_of_mem mem))
    exact absurd same (other form mem')
  case known =>
    induction h with
    | nil => exact nofun
    | @given form forms text members isText others ih =>
      obtain ⟨new, distinct⟩ := List.nodup_cons.1 distinct
      intro form' mem text' mem'
      rcases List.mem_cons.1 mem with rfl | mem <;> rcases List.mem_cons.1 mem' with e | mem'
      · exact (Prod.mk.inj e).2 ▸ isText
      · exact absurd (others.names.subset (List.mem_map_of_mem mem')) new
      · exact absurd ((Prod.mk.inj e).1 ▸ List.mem_map_of_mem mem) new
      · exact ih distinct form' mem text' mem'
    | missing may others ih =>
      obtain ⟨new, distinct⟩ := List.nodup_cons.1 distinct
      intro form' mem text' mem'
      rcases List.mem_cons.1 mem with rfl | mem
      · exact absurd (others.names.subset (List.mem_map_of_mem mem')) new
      · exact ih distinct form' mem text' mem'
  case missing =>
    induction h with
    | nil => exact nofun
    | given isText others ih =>
      intro form' mem absent
      rcases List.mem_cons.1 mem with rfl | mem
      · exact absurd List.mem_cons_self absent
      · exact ih (List.nodup_cons.1 distinct).2 form' mem fun there =>
          absent (List.mem_cons_of_mem _ there)
    | missing may others ih =>
      intro form' mem absent
      rcases List.mem_cons.1 mem with rfl | mem
      · exact may
      · exact ih (List.nodup_cons.1 distinct).2 form' mem absent

end

/-! ## Readers of fields -/

/-- `take` takes each of some texts as the same value, behind any blanks. -/
structure Reads {α : Type} (take : Reader α) (Text : Bytes → Prop) (value : α) : Prop where
  taken : ∀ {before text rest : Bytes}, IsBlanks before → Text text → Stops rest →
    take (before ++ (text ++ rest)) = .ok (value, rest)

section
variable {α β : Type} {take : Reader α} {Text : Bytes → Prop} {value : α}

theorem Reads.of_skip (skip : ∀ bytes, take (skipBlanks bytes) = take bytes)
    (taken : ∀ {text rest}, Text text → Stops rest → take (text ++ rest) = .ok (value, rest)) :
    Reads take Text value where
  taken blank isText stops := by rw [← skip, skipBlanks_append blank, skip, taken isText stops]

theorem Reads.map (h : Reads take Text value) (f : α → β) :
    Reads (fun bytes => (take bytes).map fun (found, rest) => (f found, rest)) Text (f value) where
  taken blank isText stops := map_eq_ok_iff.2 ⟨_, h.taken blank isText stops, rfl⟩

/-- The texts of a grammar with blanks around them. -/
def Around (Text : Bytes → Prop) (document : Bytes) : Prop :=
  ∃ before text after, IsBlanks before ∧ IsBlanks after ∧ Text text ∧
    document = before ++ (text ++ after)

theorem Around.alone {text : Bytes} (h : Text text) : Around Text text :=
  ⟨[], text, [], .nil, .nil, h, (List.append_nil _).symm⟩

theorem Reads.whole (h : Reads take Text value) {document : Bytes} (around : Around Text document) :
    whole take document = .ok value := by
  obtain ⟨before, text, after, blank, blank', isText, rfl⟩ := around
  rw [Json.whole, h.taken blank isText (.blanks blank')]
  exact if_pos (List.isEmpty_iff.2 (skipBlanks_eq_nil_iff.2 blank'))

theorem whole_map (take : Reader α) (f : α → β) (document : Bytes) :
    whole (fun bytes => (take bytes).map fun (found, rest) => (f found, rest)) document =
      (whole take document).map f := by
  cases found : take document with
  | error _ => simp only [Json.whole, found, Except.map, bind, Except.bind]
  | ok result =>
    simp only [Json.whole, found, Except.map, bind, Except.bind]
    by_cases ended : (skipBlanks result.2).isEmpty <;> simp [ended]

theorem Reads.orNull (h : Reads take Text value) (begins : ∀ {text}, Text text →
    ∃ b tail, text = b :: tail ∧ isBlank b = false ∧ b ≠ 0x6E) :
    Reads (orNull take) Text (some value) := by
  refine .of_skip (fun bytes => by rw [Json.orNull, Json.orNull, skipBlanks_skipBlanks]) ?_
  intro text rest isText stops
  have taken := h.taken .nil isText stops
  obtain ⟨b, tail, rfl, notBlank, notNull⟩ := begins isText
  rw [List.nil_append, List.cons_append] at taken
  rw [Json.orNull, List.cons_append, skipBlanks_cons notBlank]
  simp only [if_neg notNull]
  exact map_eq_ok_iff.2 ⟨_, taken, rfl⟩

theorem reads_null (take : Reader α) :
    Reads (Json.orNull take) (· = Bytes.ofText "null") (none : Option α) := by
  refine .of_skip (fun bytes => by rw [Json.orNull, Json.orNull, skipBlanks_skipBlanks]) ?_
  rintro _ rest rfl -
  rfl

end

/-! ## Layouts -/

/-- A value that is known once its name was read. -/
def told {α : Type} (names : List String) (name : String) (value : α) : Option α :=
  if name ∈ names then some value else none

section
variable {α : Type} {names : List String} {name other : String} {value : α}

theorem told_cons_self : told (name :: names) name value = some value :=
  if_pos List.mem_cons_self

theorem told_cons_of_ne (h : other ≠ name) :
    told (other :: names) name value = told names name value := by
  simp [told, h.symm]

theorem told_of_mem (h : name ∈ names) : told names name value = some value :=
  if_pos h

theorem told_of_not_mem (h : name ∉ names) : told names name value = none :=
  if_neg h

theorem getD_told {default : α} (h : name ∉ names → value = default) :
    (told names name value).getD default = value := by
  unfold told
  split
  · rfl
  · next absent => exact (h absent).symm

end

section
variable {σ : Type} {layout : Layout σ} {forms : List FieldForm} {after : List String → σ}
  {members : List (String × Bytes)}

/-- The layout has a field for a form, which is read in every state without it. -/
def Layout.Gives (layout : Layout σ) (after : List String → σ) (form : FieldForm) : Prop :=
  ∃ field, layout.fields.find? (·.name == form.name) = some field ∧
    ∀ done, form.name ∉ done → field.isRead (after done) = false ∧
      Reads (field.read (after done)) form.Text (after (form.name :: done))

/-- The layout has a field of a name, which is not read from a text in any state. -/
def Layout.Refuses (layout : Layout σ) (name : String) (inner : Bytes) (error : Error) : Prop :=
  ∃ field, layout.fields.find? (·.name == name) = some field ∧
    ∀ {state blanks rest}, IsBlanks blanks → Stops rest →
      field.read state (blanks ++ (inner ++ rest)) = .error error

theorem Layout.Refuses.of_take {α : Type} {name : String} {get : σ → Option α} {put : σ → α → σ}
    {take : Reader α} {inner : Bytes} {error : Error}
    (found : layout.fields.find? (·.name == name) = some (.of name get put take))
    (refused : ∀ {blanks rest}, IsBlanks blanks → Stops rest →
      take (blanks ++ (inner ++ rest)) = .error error) : layout.Refuses name inner error := by
  refine ⟨_, found, fun blank stops => ?_⟩
  rw [Field.of]
  simp only [refused blank stops]
  rfl

/-- The state of the layout is known from the names that were read. -/
structure Layout.Follows (layout : Layout σ) (forms : List FieldForm)
    (after : List String → σ) : Prop where
  known : ∀ form ∈ forms, layout.Gives after form
  other : ∀ name, (∀ form ∈ forms, form.name ≠ name) →
    layout.fields.find? (·.name == name) = none ∧ ∀ done, after (name :: done) = after done

/-- A layout with the fields of the forms has none for other names. -/
theorem Layout.Follows.of_names
    (names : layout.fields.map Field.name = forms.map FieldForm.name)
    (known : ∀ form ∈ forms, layout.Gives after form)
    (other : ∀ name, (∀ form ∈ forms, form.name ≠ name) →
      ∀ done, after (name :: done) = after done) : layout.Follows forms after where
  known := known
  other name unknown := by
    refine ⟨List.find?_eq_none.2 fun field mem same => ?_, other name unknown⟩
    have named : field.name ∈ forms.map FieldForm.name := names ▸ List.mem_map_of_mem mem
    obtain ⟨form, mem', same'⟩ := List.mem_map.1 named
    exact unknown form mem' (same'.trans (beq_iff_eq.1 same))

theorem Layout.Gives.of_told {α : Type} {name : String} {get : σ → Option α} {put : σ → α → σ}
    {take : Reader α} {form : FieldForm} {value : α} (reads : Reads take form.Text value)
    (found : layout.fields.find? (·.name == form.name) = some (.of name get put take))
    (here : ∀ done, get (after done) = told done form.name value)
    (next : ∀ done, put (after done) value = after (form.name :: done)) :
    layout.Gives after form := by
  refine ⟨_, found, fun done new => ⟨?_, ⟨fun blank isText stops => ?_⟩⟩⟩
  · simp only [Field.of, here, told_of_not_mem new, Option.isSome_none]
  · exact map_eq_ok_iff.2 ⟨_, reads.taken blank isText stops, Prod.ext (next done) rfl⟩

theorem takeField_of_known {form : FieldForm} (gives : layout.Gives after form)
    {done : List String} (new : form.name ∉ done) {bytes before text rest : Bytes}
    (split : skipBlanks bytes = colon :: (before ++ (text ++ rest))) (blank : IsBlanks before)
    (isText : form.Text text) (stops : Stops rest) :
    layout.takeField (after done) form.name bytes = .ok (after (form.name :: done), rest) := by
  obtain ⟨field, found, reads⟩ := gives
  obtain ⟨unread, reads⟩ := reads done new
  rw [Layout.takeField, found]
  simp only [unread, Bool.false_eq_true, if_false, takeColon_eq_ok_iff.2 split]
  exact reads.taken blank isText stops

theorem takeField_of_other {name : String} {state : σ}
    (other : layout.fields.find? (·.name == name) = none) {bytes before text rest : Bytes}
    (split : skipBlanks bytes = colon :: (before ++ (text ++ rest))) (blank : IsBlanks before)
    {depth : Nat} (isText : RawText depth text) (stops : Stops rest) :
    layout.takeField state name bytes = .ok (state, rest) := by
  obtain ⟨place, settled, way⟩ := leads_rawText depth text isText []
  have passed : Leads .value [] (before ++ text) place [] :=
    (leads_blanks (waits_value []) (fun _ => rfl) blank).trans way
  rw [Layout.takeField, other]
  simp only [skipMember, takeColon_eq_ok_iff.2 split, ← List.append_assoc,
    bind, Except.bind, span_append settled passed stops]

theorem takeNamed_of_namedText {take : σ → String → Reader σ} {state : σ} {name : String}
    {inner text rest : Bytes} {result : Except Error (σ × Bytes)} (h : NamedText text (name, inner))
    (taken : ∀ {bytes before}, skipBlanks bytes = colon :: (before ++ (inner ++ rest)) →
      IsBlanks before → take state name bytes = result) :
    takeNamed take state (text ++ rest) = result := by
  obtain ⟨written, after, before, isName, blank, blank', rfl⟩ := h
  have named : stringBody (written ++ (after ++ colon :: (before ++ inner)) ++ rest) =
      .ok (name, after ++ colon :: (before ++ inner) ++ rest) :=
    stringBody_eq_ok_iff.2 ⟨written, List.append_assoc .., isName⟩
  rw [takeNamed, List.cons_append, skipBlanks_cons rfl]
  simp only [if_true, named, bind, Except.bind]
  refine taken ?_ blank'
  rw [List.append_assoc, List.cons_append, List.append_assoc]
  exact skipBlanks_append_cons blank rfl _

/-- Members are taken one after another, as long as no field is told that was told before. -/
theorem takesEach_of_tells (follows : layout.Follows forms after) :
    ∀ {members : List (String × Bytes)} {done : List String},
      (∀ form ∈ forms, (members.map Prod.fst).count form.name ≤ 1) →
      (∀ form ∈ forms, form.name ∈ members.map Prod.fst → form.name ∉ done) →
      (∀ form ∈ forms, ∀ text, (form.name, text) ∈ members → form.Text text) →
      (∀ name text, (name, text) ∈ members → (∀ form ∈ forms, form.name ≠ name) →
        ∃ depth, RawText depth text) →
      TakesEach (takeNamed layout.takeField) NamedText (after done) members
        (after ((members.map Prod.fst).reverse ++ done)) := by
  intro members
  induction members with
  | nil => exact fun _ _ _ _ => .nil _
  | cons member members ih =>
    obtain ⟨name, inner⟩ := member
    intro done once new known others
    have step : ∀ {text rest}, NamedText text (name, inner) → Stops rest →
        takeNamed layout.takeField (after done) (text ++ rest) = .ok (after (name :: done), rest) := by
      intro text rest isNamed stops
      refine takeNamed_of_namedText isNamed fun split blank => ?_
      by_cases isForm : ∃ form ∈ forms, form.name = name
      · obtain ⟨form, mem, rfl⟩ := isForm
        exact takeField_of_known (follows.known form mem) (new form mem List.mem_cons_self) split
          blank (known form mem inner List.mem_cons_self) stops
      · have other : ∀ form ∈ forms, form.name ≠ name := fun form mem same =>
          isForm ⟨form, mem, same⟩
        obtain ⟨depth, isText⟩ := others name inner List.mem_cons_self other
        obtain ⟨unknown, same⟩ := follows.other name other
        rw [same]
        exact takeField_of_other unknown split blank isText stops
    have rest : TakesEach (takeNamed layout.takeField) NamedText (after (name :: done)) members
        (after ((members.map Prod.fst).reverse ++ name :: done)) := by
      refine ih (fun form mem => ?_) (fun form mem there => ?_)
        (fun form mem text mem' => known form mem text (List.mem_cons_of_mem _ mem'))
        (fun name text mem' => others name text (List.mem_cons_of_mem _ mem'))
      · exact (List.count_le_count_cons).trans (once form mem)
      · -- the name that was just read comes only once
        rw [List.mem_cons, not_or]
        refine ⟨?_, new form mem (List.mem_cons_of_mem _ there)⟩
        rintro rfl
        have twice := once form mem
        rw [List.map_cons, List.count_cons_self] at twice
        have := List.count_pos_iff.2 there
        omega
    rw [List.map_cons, List.reverse_cons, List.append_assoc]
    exact .cons step rest

theorem NamedText.begins {text : Bytes} {member : String × Bytes} (h : NamedText text member) :
    ∃ tail, text = quoteMark :: tail := by
  obtain ⟨written, after, before, -, -, -, rfl⟩ := h
  exact ⟨_, rfl⟩

theorem NamedText.begins_part {text : Bytes} {member : String × Bytes} (h : NamedText text member) :
    ∃ b tail, text = b :: tail ∧ isDelimiter b = false :=
  let ⟨tail, e⟩ := h.begins
  ⟨quoteMark, tail, e, rfl⟩

theorem sequence_begins {text : Bytes} (h : Sequence NamedText text members) :
    ∃ tail, text = quoteMark :: tail := by
  cases h with
  | last isNamed _ | more isNamed _ _ _ =>
    obtain ⟨_, rfl⟩ := isNamed.begins
    exact ⟨_, rfl⟩

theorem readObject_of_enclosed {take : σ → String → Reader σ} {text bytes rest : Bytes}
    (enclosed : Enclosed .object NamedText text members) {start last : σ}
    (each : TakesEach (takeNamed take) NamedText start members last)
    (split : openObject :: bytes = text ++ rest) :
    readObject take start bytes = .ok (last, rest) := by
  exact readObject_iff_membersFrom.2
    ((isLoop_membersFrom take).of_enclosed NamedText.begins_part enclosed each split)

/-- Members are read up to the first one that `take` refuses. -/
theorem membersFrom_error {take : σ → String → Reader σ} {behind : List (String × Bytes)}
    {member : String × Bytes} {last : σ} {error : Error}
    (refused : ∀ {text rest}, NamedText text member → Stops rest →
      takeNamed take last (text ++ rest) = .error error) (rest : Bytes) :
    ∀ {before : List (String × Bytes)} {fuel : Nat} {state : σ} {text : Bytes},
      Sequence NamedText text (before ++ member :: behind) → before.length ≤ fuel →
      TakesEach (takeNamed take) NamedText state before last →
      membersFrom take (fuel + 1) state (text ++ closeObject :: rest) = .error error := by
  intro before
  induction before with
  | nil =>
    intro fuel state text sequence _ each
    cases each
    have fails : takeNamed take last (text ++ closeObject :: rest) = .error error := by
      cases sequence with
      | last isNamed blank =>
        rw [List.append_assoc]
        exact refused isNamed (.blanks_append blank (.cons (b := closeObject) rfl _))
      | more isNamed blank _ _ =>
        simp only [List.append_assoc, List.cons_append]
        exact refused isNamed (.blanks_append blank (.cons (b := comma) rfl _))
    rw [membersFrom_succ, fails]
    rfl
  | cons first before ih =>
    intro fuel state text sequence few each
    obtain ⟨fuel, rfl⟩ := Nat.exists_eq_add_of_le' (Nat.one_le_of_lt few)
    replace ih := @ih fuel
    rw [List.cons_append] at sequence
    generalize parts_eq : before ++ member :: behind = parts at sequence ih
    cases each with
    | cons taken others =>
    cases sequence with
    | last _ _ => exact absurd parts_eq (by simp)
    | @more text after blanks inner _ _ isNamed blank blank' sequence =>
      have goesOn := ih sequence (Nat.le_of_succ_le_succ few) others
      obtain ⟨tail, rfl⟩ := sequence_begins sequence
      rw [membersFrom_succ]
      simp only [List.append_assoc, List.cons_append] at goesOn ⊢
      rw [taken isNamed (.blanks_append blank (.cons (b := comma) rfl _))]
      have split := skipBlanks_append_cons blank (b := comma) rfl
        (blanks ++ quoteMark :: (tail ++ closeObject :: rest))
      have split' := skipBlanks_append_cons blank' (b := quoteMark) rfl (tail ++ closeObject :: rest)
      simp only [bind, Except.bind, afterPart, split, split']
      exact goesOn

theorem readObject_error {take : σ → String → Reader σ} {before behind : List (String × Bytes)}
    {member : String × Bytes} {start last : σ} {error : Error} {text bytes rest : Bytes}
    (enclosed : Enclosed .object NamedText text (before ++ member :: behind))
    (each : TakesEach (takeNamed take) NamedText start before last)
    (refused : ∀ {text rest}, NamedText text member → Stops rest →
      takeNamed take last (text ++ rest) = .error error)
    (split : openObject :: bytes = text ++ rest) :
    readObject take start bytes = .error error := by
  generalize parts_eq : before ++ member :: behind = parts at enclosed
  cases enclosed with
  | empty _ => exact absurd parts_eq (by simp)
  | @filled blanks text _ blank sequence =>
    subst parts_eq
    rw [List.cons_append, List.cons.injEq, List.append_assoc, List.append_assoc] at split
    obtain ⟨-, bytes_eq⟩ := split
    have few := sequence.length_le NamedText.begins_part
    obtain ⟨tail, rfl⟩ := sequence_begins sequence
    have opens : skipBlanks bytes = quoteMark :: tail ++ closeObject :: rest := by
      rw [bytes_eq]
      exact skipBlanks_append_cons blank rfl _
    obtain ⟨fuel, enough⟩ : ∃ fuel, bytes.length = fuel + 1 := by
      refine Nat.exists_eq_add_of_le' ?_
      simp only [bytes_eq, List.length_append, List.length_cons]
      omega
    have fuelled : before.length ≤ fuel := by
      have := congrArg List.length bytes_eq
      simp only [List.length_append, List.length_cons] at few this
      omega
    rw [readObject, opens, enough]
    exact membersFrom_error refused rest sequence fuelled each

/-- The texts of objects that tell a record. -/
def RecordText (forms : List FieldForm) (text : Bytes) : Prop :=
  ∃ members, Enclosed .object NamedText text members ∧ Tells forms members

theorem Layout.skip (layout : Layout σ) (start : σ) (bytes : Bytes) :
    layout.read start (skipBlanks bytes) = layout.read start bytes := by
  rw [Layout.read, Layout.read, skipBlanks_skipBlanks]

theorem Layout.read_opening (layout : Layout σ) (start : σ) (tail : Bytes) :
    layout.read start (Composite.object.opening :: tail) = layout.readMembers start tail := by
  rw [Layout.read, skipBlanks_cons rfl]
  exact if_pos rfl

/-- What is read of an object that tells a record is told by the names that it has. -/
theorem Layout.read_of_tells (follows : layout.Follows forms after) {text : Bytes}
    (enclosed : Enclosed .object NamedText text members) (tells : Tells forms members)
    (complete : layout.checkMembers (after (members.map Prod.fst).reverse) = .ok ())
    (rest : Bytes) :
    layout.read (after []) (text ++ rest) = .ok (after (members.map Prod.fst).reverse, rest) := by
  have each := takesEach_of_tells follows tells.once (fun _ _ _ => List.not_mem_nil) tells.known
    tells.others
  rw [List.append_nil] at each
  obtain ⟨tail, rfl⟩ := enclosed.begins
  have split : openObject :: (tail ++ rest) = Composite.object.opening :: tail ++ rest := rfl
  rw [List.cons_append, Layout.read_opening, Layout.readMembers,
    readObject_of_enclosed enclosed each split]
  simp only [bind, Except.bind, complete]

/-- An object is refused at the first of its members that cannot be read. -/
theorem Layout.read_error (follows : layout.Follows forms after) {form : FieldForm}
    (mem : form ∈ forms) {before behind : List (String × Bytes)} {text inner : Bytes} {error : Error}
    (enclosed : Enclosed .object NamedText text (before ++ (form.name, inner) :: behind))
    (distinct : ((before ++ (form.name, inner) :: behind).map Prod.fst).Nodup)
    (known : ∀ form ∈ forms, ∀ text, (form.name, text) ∈ before → form.Text text)
    (others : ∀ name text, (name, text) ∈ before → (∀ form ∈ forms, form.name ≠ name) →
      ∃ depth, RawText depth text)
    (refuses : layout.Refuses form.name inner error) (rest : Bytes) :
    layout.read (after []) (text ++ rest) = .error error := by
  rw [List.map_append, List.nodup_append] at distinct
  obtain ⟨once, -, new⟩ := distinct
  have absent : form.name ∉ before.map Prod.fst := fun there =>
    new _ there _ List.mem_cons_self rfl
  have each := takesEach_of_tells follows
    (fun form _ => List.nodup_iff_count.1 once form.name) (fun _ _ _ => List.not_mem_nil) known others
  rw [List.append_nil] at each
  have fails : ∀ {text rest}, NamedText text (form.name, inner) → Stops rest →
      takeNamed layout.takeField (after (before.map Prod.fst).reverse) (text ++ rest) =
        .error error := by
    intro text rest isNamed stops
    refine takeNamed_of_namedText isNamed fun split blank => ?_
    obtain ⟨field, found, reads⟩ := follows.known form mem
    have unread := (reads _ fun there => absent (List.mem_reverse.1 there)).1
    obtain ⟨_, found', refused⟩ := refuses
    cases found.symm.trans found'
    rw [Layout.takeField, found]
    simp only [unread, Bool.false_eq_true, if_false, takeColon_eq_ok_iff.2 split]
    exact refused blank stops
  obtain ⟨tail, rfl⟩ := enclosed.begins
  have split : openObject :: (tail ++ rest) = Composite.object.opening :: tail ++ rest := rfl
  rw [List.cons_append, Layout.read_opening, Layout.readMembers,
    readObject_error enclosed each fails split]
  rfl

theorem Layout.checkMembers_of_isRead {state : σ}
    (complete : ∀ field ∈ layout.fields, field.isRead state = true) :
    layout.checkMembers state = .ok () := by
  have none : layout.fields.find? (fun field => !field.isRead state) = none :=
    List.find?_eq_none.2 fun field mem => by simp [complete field mem]
  rw [Layout.checkMembers, none]

theorem Layout.checkMembers_of_optional (optional : layout.allRequired = false) (state : σ) :
    layout.checkMembers state = .ok () := by
  unfold Layout.checkMembers
  split
  · rw [optional]
    rfl
  · rfl

/-- A record is read from each object that tells it, if what is left out is not asked for and makes
no difference. -/
theorem Layout.reads_record {α : Type} {value : α} (follows : layout.Follows forms after)
    (make : σ → α)
    (made : ∀ done, (∀ form ∈ forms, form.name ∉ done → form.MayMiss) →
      layout.checkMembers (after done) = .ok () ∧ make (after done) = value) :
    Reads (fun bytes => (layout.read (after []) bytes).map fun (state, rest) => (make state, rest))
      (RecordText forms) value := by
  refine .of_skip (fun bytes => by simp only [Layout.skip]) ?_
  rintro text rest ⟨members, enclosed, tells⟩ -
  obtain ⟨complete, made⟩ := made (members.map Prod.fst).reverse fun form mem absent =>
    tells.missing form mem fun there => absent (List.mem_reverse.2 there)
  exact map_eq_ok_iff.2 ⟨_, Layout.read_of_tells follows enclosed tells complete rest,
    Prod.ext made rfl⟩

end

end TokenTariff.Json
