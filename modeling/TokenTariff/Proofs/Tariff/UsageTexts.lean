import TokenTariff.Proofs.Json.SpanEnds
import TokenTariff.Proofs.Json.Written
import TokenTariff.Tariff.UsageJson
/-!
# Usage is read back

An object tells the usage of a request if it gives the counts that are not zero, each of them once,
and the known cache writes if there are any. All such objects are read as the usage that they tell,
with their members in any order and any others between them; what is written of a usage is one of
them.

* `CacheWrites.forms`, `Usage.forms`: how the fields are told;
* `Usage.reads_take`: what is read of an object that tells a usage;
* `Usage.read_back`: reading undoes writing.
-/

namespace TokenTariff
set_option autoImplicit false

open Json

/-- A field that holds a count in decimal digits, and may be left out if that is zero. -/
def TokenCount.form (name : String) (n : TokenCount) : FieldForm where
  name := name
  Text := (· = Bytes.ofText (toString n.val))
  MayMiss := n = .zero

theorem TokenCount.reads_take (n : TokenCount) (name : String) :
    Reads TokenCount.take (n.form name).Text n := by
  have clamped := (reads_integer n.least n.greatest).map TokenCount.clamp
  rwa [TokenCount.clamp_self] at clamped

theorem TokenCount.text_toJson (n : TokenCount) (style : Style) :
    Bytes.ofText (style.text n.toJson) = Bytes.ofText (toString n.val) := by
  cases style <;> rfl

/-! ## Cache writes -/

namespace CacheWrites

def forms (w : CacheWrites) : List FieldForm :=
  [w.fiveMinutes.form "ephemeral_5m_tokens", w.oneHour.form "ephemeral_1h_tokens"]

/-- The fields as far as their names were read. -/
def fieldsOf (w : CacheWrites) (names : List String) : Fields where
  fiveMinutes := told names "ephemeral_5m_tokens" w.fiveMinutes
  oneHour := told names "ephemeral_1h_tokens" w.oneHour

theorem follows (w : CacheWrites) : layout.Follows w.forms w.fieldsOf := by
  refine .of_names rfl ?_ fun name other done => ?_
  · simp only [forms, List.forall_mem_cons]
    refine ⟨.of_told (TokenCount.reads_take _ _) rfl (fun _ => rfl) fun done => ?_,
      .of_told (TokenCount.reads_take _ _) rfl (fun _ => rfl) fun done => ?_, nofun⟩
    all_goals simp [fieldsOf, told_cons_self, told_cons_of_ne, TokenCount.form]
  · simp only [forms, List.forall_mem_cons, TokenCount.form] at other
    obtain ⟨fiveMinutes, oneHour, -⟩ := other
    rw [fieldsOf, told_cons_of_ne fiveMinutes.symm, told_cons_of_ne oneHour.symm, fieldsOf]

theorem reads_take (w : CacheWrites) : Reads take (RecordText w.forms) w := by
  refine Layout.reads_record w.follows ofFields fun names missing =>
    ⟨Layout.checkMembers_of_optional rfl _, ?_⟩
  simp only [forms, List.forall_mem_cons] at missing
  obtain ⟨fiveMinutes, oneHour, -⟩ := missing
  simp only [ofFields, fieldsOf]
  congr
  · exact getD_told fiveMinutes
  · exact getD_told oneHour

theorem recordText_written (style : Style) (order : MemberOrder) (w : CacheWrites) :
    RecordText w.forms (Bytes.ofText (style.text (w.toJson order))) := by
  have distinct : (w.forms.map FieldForm.name).Nodup :=
    show ["ephemeral_5m_tokens", "ephemeral_1h_tokens"].Nodup by decide
  have written : WritesOut w.forms ([("ephemeral_5m_tokens", w.fiveMinutes.toJson),
      ("ephemeral_1h_tokens", w.oneHour.toJson)].map style.inside.written) :=
    .given (w.fiveMinutes.text_toJson _) (.given (w.oneHour.text_toJson _) .nil)
  exact recordText_object style (written.tells distinct) order

theorem recordText_toJson (order : MemberOrder) (w : CacheWrites) :
    RecordText w.forms (Bytes.ofText (compact (w.toJson order))) :=
  w.recordText_written .oneLine order

end CacheWrites

/-! ## Usage -/

namespace Usage

/-- The field of the known cache writes, which is an object, or `null` if there are none. -/
def knownForm (known : Option CacheWrites) : FieldForm where
  name := "cache_creation"
  Text text := match known with
    | none => text = Bytes.ofText "null"
    | some w => RecordText w.forms text
  MayMiss := known = none

def forms (u : Usage) : List FieldForm :=
  [u.input.form "input_tokens", u.output.form "output_tokens",
    u.cacheWrite.form "cache_create_tokens", u.cacheRead.form "cache_read_tokens",
    knownForm u.known]

/-- The fields as far as their names were read. -/
def fieldsOf (u : Usage) (names : List String) : Fields where
  input := told names "input_tokens" u.input
  output := told names "output_tokens" u.output
  cacheWrite := told names "cache_create_tokens" u.cacheWrite
  cacheRead := told names "cache_read_tokens" u.cacheRead
  known := told names "cache_creation" u.known

theorem reads_known (known : Option CacheWrites) :
    Reads (orNull CacheWrites.take) (knownForm known).Text known := by
  cases known with
  | none => exact reads_null CacheWrites.take
  | some w =>
    refine w.reads_take.orNull ?_
    rintro text ⟨members, enclosed, -⟩
    obtain ⟨tail, rfl⟩ := enclosed.begins
    exact ⟨_, tail, rfl, rfl, by decide⟩

theorem follows (u : Usage) : layout.Follows u.forms u.fieldsOf := by
  refine .of_names rfl ?_ fun name other done => ?_
  · simp only [forms, List.forall_mem_cons]
    refine ⟨.of_told (TokenCount.reads_take _ _) rfl (fun _ => rfl) fun done => ?_,
      .of_told (TokenCount.reads_take _ _) rfl (fun _ => rfl) fun done => ?_,
      .of_told (TokenCount.reads_take _ _) rfl (fun _ => rfl) fun done => ?_,
      .of_told (TokenCount.reads_take _ _) rfl (fun _ => rfl) fun done => ?_,
      .of_told (reads_known _) rfl (fun _ => rfl) fun done => ?_, nofun⟩
    all_goals simp [fieldsOf, told_cons_self, told_cons_of_ne, TokenCount.form, knownForm]
  · simp only [forms, List.forall_mem_cons, TokenCount.form, knownForm] at other
    obtain ⟨input, output, cacheWrite, cacheRead, known, -⟩ := other
    rw [fieldsOf, told_cons_of_ne input.symm, told_cons_of_ne output.symm,
      told_cons_of_ne cacheWrite.symm, told_cons_of_ne cacheRead.symm, told_cons_of_ne known.symm,
      fieldsOf]

theorem reads_take (u : Usage) : Reads take (RecordText u.forms) u := by
  refine Layout.reads_record u.follows ofFields fun names missing =>
    ⟨Layout.checkMembers_of_optional rfl _, ?_⟩
  simp only [forms, List.forall_mem_cons] at missing
  obtain ⟨input, output, cacheWrite, cacheRead, known, -⟩ := missing
  simp only [ofFields, fieldsOf]
  congr
  · exact getD_told input
  · exact getD_told output
  · exact getD_told cacheWrite
  · exact getD_told cacheRead
  · exact getD_told known

theorem recordText_written (style : Style) (order : MemberOrder) (u : Usage) :
    RecordText u.forms (Bytes.ofText (style.text (u.toJson order))) := by
  have distinct : (u.forms.map FieldForm.name).Nodup :=
    show ["input_tokens", "output_tokens", "cache_create_tokens", "cache_read_tokens",
      "cache_creation"].Nodup by decide
  have known : WritesOut [knownForm u.known]
      ((u.known.toList.map fun writes => ("cache_creation", writes.toJson order)).map
        style.inside.written) := by
    cases u.known with
    | none => exact .missing rfl .nil
    | some writes => exact .given (writes.recordText_written style.inside order) .nil
  have written : WritesOut u.forms (([("input_tokens", u.input.toJson),
      ("output_tokens", u.output.toJson), ("cache_create_tokens", u.cacheWrite.toJson),
      ("cache_read_tokens", u.cacheRead.toJson)] ++
      u.known.toList.map fun writes => ("cache_creation", writes.toJson order)).map
        style.inside.written) :=
    .given (u.input.text_toJson _) (.given (u.output.text_toJson _)
      (.given (u.cacheWrite.text_toJson _) (.given (u.cacheRead.text_toJson _) known)))
  exact recordText_object style (written.tells distinct) order

theorem recordText_toJson (order : MemberOrder) (u : Usage) :
    RecordText u.forms (Bytes.ofText (compact (u.toJson order))) :=
  u.recordText_written .oneLine order

/-- Reading undoes writing, whichever order the members are written in. It also undoes every other
way to tell a usage by an object: with each field once at most, in any order, with any of those left
out that are zero or unknown, and with any other members. So it is with the cache writes alone. -/
theorem read_back :
    (∀ u order, Usage.read (Bytes.ofText (compact (u.toJson order))) = .ok u) ∧
    (∀ u document, Around (RecordText u.forms) document → Usage.read document = .ok u) ∧
    (∀ w order, CacheWrites.read (Bytes.ofText (compact (w.toJson order))) = .ok w) ∧
    ∀ w document, Around (RecordText w.forms) document → CacheWrites.read document = .ok w := by
  refine ⟨fun u order => ?_, fun u _ => u.reads_take.whole, fun w order => ?_,
    fun w _ => w.reads_take.whole⟩
  · exact u.reads_take.whole (.alone (u.recordText_toJson order))
  · exact w.reads_take.whole (.alone (w.recordText_toJson order))

/-- The least count under an escaped name, an object that leaves a field out, and other members: a
single surrogate, a number beyond all doubles, and a name that comes twice. -/
theorem read_back_reordered :
    Usage.read (Bytes.ofText (" \x7b\"x\":\"\\ud800\",\"cache_creation\":" ++
      "\x7b\"x\":[1e999],\"ephemeral_1h_tokens\":7\x7d," ++
      "\"o\\u0075tput_tokens\":-9223372036854775808,\"x\":null\x7d")) =
      .ok { zero with
        output := .clamp (-0x8000000000000000), known := some ⟨.zero, .clamp 7⟩ } := by
  let known : CacheWrites := ⟨.zero, .clamp 7⟩
  let usage := { zero with output := .clamp (-0x8000000000000000), known := some known }
  let object := Bytes.ofText "\x7b\"x\":[1e999],\"ephemeral_1h_tokens\":7\x7d"
  have member (written : String) {name : String} (inner : Bytes)
      (h : (stringBody (Bytes.ofText written)).toOption = some (name, [])) :
      NamedText (quoteMark :: (Bytes.ofText written ++ ([] ++ colon :: ([] ++ inner))))
        (name, inner) :=
    namedText (stringText_of_stringBody h) .nil .nil
  have value {text : Bytes} (h : (whole takeRaw text).toOption = some text) :
      ∃ depth, RawText depth text := (rawDocument_of_whole (toOption_eq_some_iff.1 h)).1
  have inside : RecordText known.forms object := by
    have fields : Tells known.forms [("ephemeral_1h_tokens", Bytes.ofText "7")] :=
      (WritesOut.missing rfl (.given rfl .nil)).tells
        (show ["ephemeral_5m_tokens", "ephemeral_1h_tokens"].Nodup by decide)
    obtain ⟨text, text_eq, enclosed⟩ : ∃ text, text = object ∧ Enclosed .object NamedText text
        [("x", Bytes.ofText "[1e999]"), ("ephemeral_1h_tokens", Bytes.ofText "7")] := by
      refine ⟨_, ?_, .filled .nil (.more (member "x\"" _ ?_) .nil .nil
        (.last (member "ephemeral_1h_tokens\"" _ ?_) .nil))⟩ <;> decide +kernel
    refine ⟨_, text_eq ▸ enclosed, fields.cons_other ?_ (value ?_)⟩
    · simp [CacheWrites.forms, TokenCount.form]
    · decide +kernel
  have fields : Tells usage.forms [("output_tokens", Bytes.ofText "-9223372036854775808"),
      ("cache_creation", object)] :=
    (WritesOut.missing rfl (.given rfl (.missing rfl (.missing rfl (.given inside .nil))))).tells
      (show ["input_tokens", "output_tokens", "cache_create_tokens", "cache_read_tokens",
        "cache_creation"].Nodup by decide)
  have other : ∀ form ∈ usage.forms, form.name ≠ "x" := by
    simp [forms, TokenCount.form, knownForm]
  let members := [("x", Bytes.ofText "\"\\ud800\""), ("cache_creation", object),
    ("output_tokens", Bytes.ofText "-9223372036854775808"), ("x", Bytes.ofText "null")]
  have all : Tells usage.forms [("x", Bytes.ofText "\"\\ud800\""), ("x", Bytes.ofText "null"),
      ("output_tokens", Bytes.ofText "-9223372036854775808"), ("cache_creation", object)] :=
    (fields.cons_other other (value (by decide +kernel))).cons_other other
      (value (by decide +kernel))
  have reordered : Tells usage.forms members := all.perm (.cons _ (List.reverse_perm _).symm)
  refine read_back.2.1 usage _ ⟨[0x20], _, [], List.forall_mem_singleton.2 rfl, .nil,
    ⟨members, .filled .nil
      (.more (member "x\"" _ ?_) .nil .nil (.more (member "cache_creation\"" _ ?_) .nil .nil
        (.more (member "o\\u0075tput_tokens\"" _ ?_) .nil .nil (.last (member "x\"" _ ?_) .nil)))),
      reordered⟩, ?_⟩ <;> decide +kernel

end Usage

end TokenTariff
