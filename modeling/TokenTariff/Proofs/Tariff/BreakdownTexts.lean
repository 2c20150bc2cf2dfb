import TokenTariff.Proofs.Json.DoublesReadBack
import TokenTariff.Proofs.Json.Written
import TokenTariff.Proofs.Tariff.Unpriced
/-!
# Costs are read back

An object tells a breakdown if it gives each of its fields once. It is read as that breakdown, with
its members in any order and any others between them. What is written of a breakdown is such an
object if all amounts are finite, but the breakdown that it tells may be another one, with amounts
that differ in their last places; an amount that is not finite is written as `null`, which is no
amount.

* `Breakdown.forms`: how the fields are told;
* `Breakdown.reads_take`: what is read of an object that tells a breakdown;
* `Breakdown.read_written`: what is read of a breakdown that was written.
-/

namespace TokenTariff
set_option autoImplicit false

open Json

namespace Breakdown

/-! ## Reading -/

/-- A field that holds a number which is read as the amount `x`. -/
def amountForm (name : String) (x : Float) : FieldForm where
  name := name
  Text text := ∃ n, NumberText text n ∧ n.toFloat = x
  MayMiss := False

/-- A field that holds a word. -/
def wordForm (name : String) (b : Bool) : FieldForm where
  name := name
  Text := (· = Bytes.ofText (compact (.boolean b)))
  MayMiss := False

def forms (b : Breakdown) : List FieldForm :=
  [amountForm "input_cost" b.input, amountForm "output_cost" b.output,
    amountForm "cache_create_cost" b.cacheWrite, amountForm "cache_read_cost" b.cacheRead,
    amountForm "ephemeral_5m_cost" b.fiveMinuteWrite, amountForm "ephemeral_1h_cost" b.oneHourWrite,
    amountForm "total_cost" b.total, wordForm "has_pricing" b.hasPricing,
    wordForm "is_long_context" b.isLongContext]

/-- The fields as far as their names were read. -/
def fieldsOf (b : Breakdown) (names : List String) : Fields where
  input := told names "input_cost" b.input
  output := told names "output_cost" b.output
  cacheWrite := told names "cache_create_cost" b.cacheWrite
  cacheRead := told names "cache_read_cost" b.cacheRead
  fiveMinuteWrite := told names "ephemeral_5m_cost" b.fiveMinuteWrite
  oneHourWrite := told names "ephemeral_1h_cost" b.oneHourWrite
  total := told names "total_cost" b.total
  hasPricing := told names "has_pricing" b.hasPricing
  isLongContext := told names "is_long_context" b.isLongContext

theorem reads_amount (name : String) (x : Float) : Reads double (amountForm name x).Text x where
  taken := by
    rintro before text rest blank ⟨n, isNumber, rfl⟩ stops
    exact (reads_double n).taken blank isNumber stops

theorem follows (b : Breakdown) : layout.Follows b.forms b.fieldsOf := by
  refine .of_names rfl ?_ fun name other done => ?_
  · simp only [forms, List.forall_mem_cons]
    refine ⟨.of_told (reads_amount _ _) rfl (fun _ => rfl) fun done => ?_,
      .of_told (reads_amount _ _) rfl (fun _ => rfl) fun done => ?_,
      .of_told (reads_amount _ _) rfl (fun _ => rfl) fun done => ?_,
      .of_told (reads_amount _ _) rfl (fun _ => rfl) fun done => ?_,
      .of_told (reads_amount _ _) rfl (fun _ => rfl) fun done => ?_,
      .of_told (reads_amount _ _) rfl (fun _ => rfl) fun done => ?_,
      .of_told (reads_amount _ _) rfl (fun _ => rfl) fun done => ?_,
      .of_told (reads_boolean _) rfl (fun _ => rfl) fun done => ?_,
      .of_told (reads_boolean _) rfl (fun _ => rfl) fun done => ?_, nofun⟩
    all_goals simp [fieldsOf, told_cons_self, told_cons_of_ne, amountForm, wordForm]
  · simp only [forms, List.forall_mem_cons, amountForm, wordForm] at other
    obtain ⟨input, output, cacheWrite, cacheRead, five, hour, total, priced, long, -⟩ := other
    rw [fieldsOf, told_cons_of_ne input.symm, told_cons_of_ne output.symm,
      told_cons_of_ne cacheWrite.symm, told_cons_of_ne cacheRead.symm, told_cons_of_ne five.symm,
      told_cons_of_ne hour.symm, told_cons_of_ne total.symm, told_cons_of_ne priced.symm,
      told_cons_of_ne long.symm, fieldsOf]

/-- Reads the JSON form. -/
theorem reads_take (b : Breakdown) :
    Reads (fun bytes => (layout.read {} bytes).map fun (state, rest) => (ofFields state, rest))
      (RecordText b.forms) b := by
  refine Layout.reads_record b.follows ofFields fun names missing => ?_
  simp only [forms, List.forall_mem_cons, amountForm, wordForm, imp_false, not_not] at missing
  obtain ⟨input, output, cacheWrite, cacheRead, five, hour, total, priced, long, -⟩ := missing
  refine ⟨Layout.checkMembers_of_isRead ?_, ?_⟩
  · simp [layout, Field.of, fieldsOf, told_of_mem, *]
  · simp [ofFields, fieldsOf, told_of_mem, *]

/-! ## Writing -/

def members (b : Breakdown) : List (String × Value) :=
  [("input_cost", amountJson b.input), ("output_cost", amountJson b.output),
    ("cache_create_cost", amountJson b.cacheWrite), ("cache_read_cost", amountJson b.cacheRead),
    ("ephemeral_5m_cost", amountJson b.fiveMinuteWrite),
    ("ephemeral_1h_cost", amountJson b.oneHourWrite), ("total_cost", amountJson b.total),
    ("has_pricing", .boolean b.hasPricing), ("is_long_context", .boolean b.isLongContext)]

theorem toJson_eq (b : Breakdown) (order : MemberOrder) : b.toJson order = order.object b.members :=
  rfl

/-- The breakdown with the amounts that are read of the texts of its own. -/
def readBack (b : Breakdown) : Breakdown where
  input := Json.readBack b.input
  output := Json.readBack b.output
  cacheWrite := Json.readBack b.cacheWrite
  cacheRead := Json.readBack b.cacheRead
  fiveMinuteWrite := Json.readBack b.fiveMinuteWrite
  oneHourWrite := Json.readBack b.oneHourWrite
  total := Json.readBack b.total
  hasPricing := b.hasPricing
  isLongContext := b.isLongContext

/-- A form of a field that may be `null` as well. -/
def orNullForm (form : FieldForm) : FieldForm :=
  { form with Text := fun text => form.Text text ∨ text = Bytes.ofText "null" }

theorem amountForm_written (name : String) (x : Float) :
    (orNullForm (amountForm name (Json.readBack x))).Text
      (Bytes.ofText (compact (amountJson x))) := by
  cases finite : x.isFinite with
  | true => exact .inl ⟨_, (numberText_readBack finite).1, rfl⟩
  | false => exact .inr (congrArg Bytes.ofText (numberText_not_finite finite))

theorem amount_ne_null_iff {x : Float} :
    Bytes.ofText (compact (amountJson x)) ≠ Bytes.ofText "null" ↔ x.isFinite = true := by
  rw [amountJson, compact]
  cases finite : x.isFinite with
  | true =>
    refine iff_of_true (fun same => ?_) rfl
    have isNumber := (numberText_readBack finite).1
    rw [same] at isNumber
    cases isNumber
  | false => exact iff_of_false (not_not.2 (by rw [numberText_not_finite finite])) Bool.false_ne_true

theorem word_ne_null (b : Bool) :
    Bytes.ofText (compact (.boolean b)) ≠ Bytes.ofText "null" := by
  cases b <;> decide

theorem given_iff_finite (b : Breakdown) :
    (∀ member ∈ b.members.map Style.oneLine.written, member.2 ≠ Bytes.ofText "null") ↔
      ∀ item ∈ b.items, item.isFinite = true := by
  simp only [members, items, Style.written, Style.text, List.map_cons, List.map_nil,
    List.forall_mem_cons, amount_ne_null_iff, ne_eq, word_ne_null, not_false_eq_true, and_true, List.not_mem_nil,
    false_imp_iff, implies_true]

theorem distinct_names (b : Breakdown) : (b.forms.map FieldForm.name).Nodup :=
  show ["input_cost", "output_cost", "cache_create_cost", "cache_read_cost", "ephemeral_5m_cost",
    "ephemeral_1h_cost", "total_cost", "has_pricing", "is_long_context"].Nodup by decide

/-- Each member is written in the form of its field, or is `null`. -/
theorem tells_orNull (b : Breakdown) :
    Tells (b.readBack.forms.map orNullForm) (b.members.map Style.oneLine.written) := by
  refine WritesOut.tells ?_ b.readBack.distinct_names
  exact .given (amountForm_written _ _) (.given (amountForm_written _ _)
    (.given (amountForm_written _ _) (.given (amountForm_written _ _)
    (.given (amountForm_written _ _) (.given (amountForm_written _ _)
    (.given (amountForm_written _ _) (.given (.inl rfl) (.given (.inl rfl) .nil))))))))

theorem known_of_ne_null {b : Breakdown} {form : FieldForm} (mem : form ∈ b.readBack.forms)
    {text : Bytes} (told : (form.name, text) ∈ b.members.map Style.oneLine.written)
    (given : text ≠ Bytes.ofText "null") : form.Text text :=
  (b.tells_orNull.known _ (List.mem_map_of_mem mem) text told).resolve_right given

theorem tells_of_finite {b : Breakdown} (finite : ∀ item ∈ b.items, item.isFinite = true) :
    Tells b.readBack.forms (b.members.map Style.oneLine.written) := by
  have tells := b.tells_orNull
  have given := b.given_iff_finite.2 finite
  exact
    { once := fun form mem => tells.once (orNullForm form) (List.mem_map_of_mem mem)
      known := fun form mem text told => known_of_ne_null mem told (given _ told)
      missing := fun form mem => tells.missing (orNullForm form) (List.mem_map_of_mem mem)
      others := fun name text told other =>
        tells.others name text told (List.forall_mem_map.2 other) }

/-- The members that are `null` are those of amounts. -/
theorem refuses_null (b : Breakdown) :
    ∀ member ∈ b.members.map Style.oneLine.written, member.2 = Bytes.ofText "null" →
      layout.Refuses member.1 (Bytes.ofText "null") (.wrongType .null "f64") := by
  simp only [members, List.map_cons, List.map_nil, List.forall_mem_cons]
  exact ⟨fun _ => .of_take rfl double_null, fun _ => .of_take rfl double_null,
    fun _ => .of_take rfl double_null, fun _ => .of_take rfl double_null,
    fun _ => .of_take rfl double_null, fun _ => .of_take rfl double_null,
    fun _ => .of_take rfl double_null, fun null => absurd null (word_ne_null _),
    fun null => absurd null (word_ne_null _), nofun⟩

theorem written_names (b : Breakdown) :
    (b.members.map Style.oneLine.written).map Prod.fst = b.readBack.forms.map FieldForm.name :=
  rfl

/-- A breakdown with an amount that is not finite is refused at the first one that is met. -/
theorem layout_read_of_infinite {b : Breakdown} (infinite : ∃ item ∈ b.items, item.isFinite = false)
    (order : MemberOrder) :
    layout.read {} (Bytes.ofText (compact (b.toJson order))) = .error (.wrongType .null "f64") := by
  obtain ⟨listed, perm, object⟩ := order.exists_perm b.members
  replace perm := perm.map Style.oneLine.written
  -- the members up to the first one that is `null`
  obtain ⟨⟨name, text⟩, found⟩ : ∃ member, (listed.map Style.oneLine.written).find?
      (fun member => member.2 == Bytes.ofText "null") = some member := by
    refine Option.isSome_iff_exists.1 ?_
    by_contra none
    rw [List.find?_isSome] at none
    refine absurd (b.given_iff_finite.1 fun member mem null => ?_) ?_
    · exact none ⟨member, perm.mem_iff.2 mem, beq_iff_eq.2 null⟩
    · simpa using infinite
  obtain ⟨null, before, behind, split, given⟩ := List.find?_eq_some_iff_append.1 found
  obtain rfl : text = Bytes.ofText "null" := beq_iff_eq.1 null
  rw [split] at perm
  have written := fun {member} => (perm.mem_iff (a := member)).1
  have hasForm : ∀ member ∈ before ++ (name, Bytes.ofText "null") :: behind,
      ∃ form ∈ b.readBack.forms, form.name = member.1 := fun member mem =>
    List.mem_map.1 (b.written_names ▸ List.mem_map_of_mem (f := Prod.fst) (written mem))
  have here : (name, Bytes.ofText "null") ∈ before ++ (name, Bytes.ofText "null") :: behind :=
    List.mem_append_right _ List.mem_cons_self
  obtain ⟨form, mem, rfl⟩ := hasForm _ here
  have enclosed := Style.oneLine.enclosed_written listed
  rw [Style.inside, split] at enclosed
  rw [toJson_eq, object, ← List.append_nil (Bytes.ofText _)]
  refine Layout.read_error b.readBack.follows mem enclosed ?_ ?_ ?_
    (b.refuses_null _ (written here) rfl) []
  · exact (perm.map Prod.fst).nodup_iff.2 (b.written_names ▸ b.readBack.distinct_names)
  · intro form' mem' text told
    refine known_of_ne_null mem' (written (List.mem_append_left _ told)) fun null => ?_
    simpa [null] using given _ told
  · intro name text told other
    obtain ⟨form', mem', same⟩ := hasForm _ (List.mem_append_left _ told)
    exact absurd same (other form' mem')

theorem read_of_finite {b : Breakdown} (finite : ∀ item ∈ b.items, item.isFinite = true)
    (order : MemberOrder) : read (Bytes.ofText (compact (b.toJson order))) = .ok b.readBack := by
  rw [read, ← whole_map]
  exact b.readBack.reads_take.whole
    (.alone (recordText_object .oneLine (tells_of_finite finite) order))

theorem read_of_infinite {b : Breakdown} (infinite : ∃ item ∈ b.items, item.isFinite = false)
    (order : MemberOrder) :
    read (Bytes.ofText (compact (b.toJson order))) = .error (.wrongType .null "f64") := by
  rw [read, whole, layout_read_of_infinite infinite order]
  rfl

/-- A breakdown that was written can be read if all of its amounts are finite, in whichever order
its members stand. What is read then differs from it in no word and no sign, and in each amount by
less than four units of the last place; it does not differ at all if the texts of all amounts are
short. -/
theorem read_written (b : Breakdown) :
    (∀ order, read (Bytes.ofText (compact (b.toJson order))) =
      if ∀ item ∈ b.items, item.isFinite = true then .ok b.readBack
      else .error (.wrongType .null "f64")) ∧
    (∀ item ∈ b.items, item.isFinite = true → IsReadBack item (Json.readBack item)) ∧
    ((∀ item ∈ b.items, item.isFinite = true ∧ isShort item = true) → b.readBack = b) := by
  refine ⟨fun order => ?_, fun item _ finite => (numberText_readBack finite).2, fun short => ?_⟩
  · split
    · next finite => exact read_of_finite finite order
    · next infinite =>
      simp only [not_forall, Bool.not_eq_true, exists_prop] at infinite
      exact read_of_infinite infinite order
  · have same : ∀ item ∈ b.items, Json.readBack item = item := fun item mem =>
      (numberText_readBack (short item mem).1).2.exact (short item mem).2
    simp only [items, List.forall_mem_cons] at same
    obtain ⟨input, output, cacheWrite, cacheRead, five, hour, total, -⟩ := same
    rw [readBack, input, output, cacheWrite, cacheRead, five, hour, total]

/-- The cost of a request with short amounts. -/
theorem read_written_short :
    let b : Breakdown := { input := 0.003, output := 0.0075, total := 0.0105, hasPricing := true }
    read (Bytes.ofText (compact (b.toJson .declared))) = .ok b := by
  intro b
  obtain ⟨back, -, same⟩ := b.read_written
  have short : ∀ item ∈ b.items, item.isFinite = true ∧ isShort item = true := by decide +kernel
  rw [back, if_pos fun item mem => (short item mem).1, same short]

end Breakdown

/-- Seven tokens at three dollars for a million cost an amount that is read back as a lower one, and
at a rate near the greatest double one that is not read back. -/
theorem Table.cost_not_read_back :
    let usage := { Usage.zero with input := .clamp 7 }
    ∃ table, Table.read (Bytes.ofText ("\x7b\"a\":\x7b\"input_cost_per_token\":0.000003\x7d," ++
        "\"b\":\x7b\"input_cost_per_token\":1e308\x7d\x7d")) = .ok table ∧
      (∃ b, Breakdown.read (Bytes.ofText (compact ((table.cost "a" usage).toJson .declared))) =
        .ok b ∧ b.input < (table.cost "a" usage).input) ∧
      Breakdown.read (Bytes.ofText (compact ((table.cost "b" usage).toJson .declared))) =
        .error (.wrongType .null "f64") := by
  intro usage
  have facts : (Table.read (Bytes.ofText ("\x7b\"a\":\x7b\"input_cost_per_token\":0.000003\x7d," ++
      "\"b\":\x7b\"input_cost_per_token\":1e308\x7d\x7d"))).toOption.map (fun table =>
        ((table.cost "a" usage).items.all (·.isFinite),
          decide ((table.cost "a" usage).readBack.input < (table.cost "a" usage).input),
          (table.cost "b" usage).items.any (!·.isFinite))) = some (true, true, true) := by
    decide +kernel
  obtain ⟨table, accepted, facts⟩ := Option.map_eq_some_iff.1 facts
  simp only [Prod.mk.injEq, List.all_eq_true, List.any_eq_true, decide_eq_true_eq,
    Bool.not_eq_eq_eq_not, Bool.not_true] at facts
  obtain ⟨finite, lower, infinite⟩ := facts
  exact ⟨table, toOption_eq_some_iff.1 accepted,
    ⟨_, Breakdown.read_of_finite finite .declared, lower⟩,
    Breakdown.read_of_infinite infinite .declared⟩

end TokenTariff
