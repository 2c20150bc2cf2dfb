import TokenTariff.Proofs.Json.NumberValues
import TokenTariff.Proofs.Json.Reordering
import TokenTariff.Proofs.Tariff.Index
/-!
# What a price list says

The table of a price list is told by the members of the list alone. The models are the members that
are objects, as far as they stand last under their names. Each of the nine rates of a model is the
number that stands last under the name of the rate, and the cache rates are completed from the
input rate. So the table is the same for each order in which the members of a list may stand.

* `Rates.AreGivenBy`: the rates that the fields of a model give;
* `Rates.Completes`: the rates with those for the cache filled in;
* `Table.get?_ofFeed_eq_some_iff`: the entries of a table;
* `Table.table_of_price_list`: all of the table of a document.
-/

namespace TokenTariff
set_option autoImplicit false

open Double

theorem LastUnder.mem {α : Type} {items : List (String × α)} {name : String} {value : α}
    (h : LastUnder items name value) : (name, value) ∈ items := by
  obtain ⟨before, after, rfl, -⟩ := h
  simp

theorem LastUnder.unique {α : Type} {items : List (String × α)} {name : String} {a b : α}
    (ha : LastUnder items name a) (hb : LastUnder items name b) : a = b := by
  rw [← lookup_reverse_eq_some_iff] at ha hb
  exact Option.some.inj (ha.symm.trans hb)

namespace Rates

/-! ## Rates in a price list -/

/-- A rate of a model is the number that stands last under its name, or else zero. -/
def Gives (fields : List (String × Json.Value)) (name : String) (rate : Float) : Prop :=
  (∃ n, LastUnder fields name (.number n) ∧ rate = n.toFloat) ∨
    (∀ n, ¬ LastUnder fields name (.number n)) ∧ rate = 0

/-- Each of the nine rates is the one that the fields of a model give under its name. -/
def AreGivenBy (published : Rates) (fields : List (String × Json.Value)) : Prop :=
  ∀ item ∈ published.members, Gives fields item.1 item.2

theorem gives_member? (fields : List (String × Json.Value)) (name : String) :
    Gives fields name
      ((((Json.Value.object fields).member? name).bind Json.Value.float?).getD 0) := by
  have lookup : (Json.Value.object fields).member? name = fields.reverse.lookup name := rfl
  rw [lookup]
  cases found : fields.reverse.lookup name with
  | none =>
    refine .inr ⟨fun n last => ?_, rfl⟩
    rw [lookup_reverse_eq_some_iff.2 last] at found
    cases found
  | some value =>
    have last := lookup_reverse_eq_some_iff.1 found
    cases value with
    | number n => exact .inl ⟨n, last, rfl⟩
    | _ => exact .inr ⟨fun n last' => (nomatch last.unique last'), rfl⟩

theorem members_ofNames {rate : String → Float} :
    ∀ item ∈ (ofNames rate).members, item.2 = rate item.1 := by
  simp [members, ofNames]

theorem areGivenBy_ofMember (fields : List (String × Json.Value)) :
    (ofMember (.object fields)).AreGivenBy fields := by
  intro item mem
  rw [members_ofNames item mem]
  exact gives_member? fields item.1

/-! ## Cache rates -/

/-- The cache rates that are zero are taken from an input rate above zero, and nothing else is
changed. -/
structure Completes (rates published : Rates) : Prop where
  others : rates =
    { published with cacheWrite := rates.cacheWrite, cacheRead := rates.cacheRead }
  write : rates.cacheWrite = if published.cacheWrite == 0 ∧ 0 < published.input then
    published.input * 1.25 else published.cacheWrite
  read : rates.cacheRead = if published.cacheRead == 0 ∧ 0 < published.input then
    published.input * 0.1 else published.cacheRead

theorem completes_withCacheRates {published : Rates} (h : IsNumber published.input) :
    published.withCacheRates.Completes published := by
  have above := not_le_zero_iff h
  by_cases free : published.input ≤ 0
  · have same : published.withCacheRates = published := if_pos free
    have none : ¬ 0 < published.input := fun lt => above.2 lt free
    rw [same]
    exact ⟨rfl, by simp [none], by simp [none]⟩
  · have paid := above.1 free
    rw [withCacheRates, if_neg free]
    exact ⟨rfl, by simp [paid], by simp [paid]⟩

/-- Cache rates that have been filled in stay as they are. -/
theorem withCacheRates_withCacheRates (r : Rates) :
    r.withCacheRates.withCacheRates = r.withCacheRates := by
  by_cases free : r.input ≤ 0
  · have same : r.withCacheRates = r := if_pos free
    rw [same, same]
  · have filled : r.withCacheRates = _ := if_neg free
    rw [filled]
    refine (if_neg free).trans ?_
    simp only [mk.injEq, true_and, and_true]
    constructor
    · split <;> simp
    · split <;> simp

end Rates

namespace Table

/-! ## Entries -/

theorem publishedRates?_eq_some_iff {name : String} {member : Json.Value} {rates : Rates} :
    publishedRates? name member = some rates ↔
      name ≠ documentationName ∧ ∃ fields, member = .object fields ∧
        rates = .ofMember (.object fields) := by
  unfold publishedRates?
  by_cases documents : name = documentationName
  · simp [documents]
  · rw [if_neg documents]
    cases member <;> simp [Json.Value.members?, documents, eq_comm]

theorem get?_ofFeed_eq_some_iff {members : List (String × Json.Value)} {name : String}
    {rates : Rates} :
    (ofFeed members).get? name = some rates ↔
      name ≠ documentationName ∧ ∃ fields, LastUnder members name (.object fields) ∧
        rates = (Rates.ofMember (.object fields)).withCacheRates := by
  rw [ofFeed, get?_ofRates, Dictionary.get?_filterMap, Dictionary.get?_ofList]
  simp only [Option.map_eq_some_iff, Option.bind_eq_some_iff, lookup_reverse_eq_some_iff,
    publishedRates?_eq_some_iff]
  constructor
  · rintro ⟨_, ⟨_, last, model, fields, rfl, rfl⟩, rfl⟩
    exact ⟨model, fields, last, rfl⟩
  · rintro ⟨model, fields, last, rfl⟩
    exact ⟨_, ⟨_, last, model, fields, rfl, rfl⟩, rfl⟩

theorem mem_listed_ofFeed {members : List (String × Json.Value)} {name : String} :
    name ∈ (ofFeed members).listed ↔
      name ≠ documentationName ∧ ∃ fields, LastUnder members name (.object fields) := by
  rw [mem_listed]
  simp only [get?_ofFeed_eq_some_iff]
  constructor
  · rintro ⟨rates, model, fields, last, -⟩
    exact ⟨model, fields, last⟩
  · rintro ⟨model, fields, last⟩
    exact ⟨_, model, fields, last, rfl⟩

/-- Where no name comes twice, the order of the members does not matter. -/
theorem ofFeed_perm {members members' : List (String × Json.Value)} (perm : members'.Perm members)
    (distinct : (members.map (·.1)).Nodup) : ofFeed members' = ofFeed members := by
  rw [ofFeed, ofFeed, Dictionary.ofList_perm perm ((perm.map _).nodup_iff.2 distinct)]

theorem isNumber_input {document : Bytes} {members fields : List (String × Json.Value)}
    {name : String} (h : Json.whole Json.objectMembers document = .ok members)
    (last : LastUnder members name (.object fields)) :
    IsNumber (Rates.ofMember (.object fields)).input := by
  obtain ⟨_, _, _, -, -, text, -⟩ := Json.takes_objectMembers.whole_eq_ok_iff.1 h
  have given : Rates.Gives fields "input_cost_per_token" (Rates.ofMember (.object fields)).input :=
    Rates.areGivenBy_ofMember fields (_, _) List.mem_cons_self
  rcases given with ⟨n, inner, rate⟩ | ⟨-, rate⟩
  · rw [rate]
    exact text.isProper last.mem inner.mem
  · rw [rate]
    exact isNumber_ofNat 0

/-! ## Tables of documents -/

theorem read_eq_ok_iff {document : Bytes} {table : Table} :
    read document = .ok table ↔
      ∃ members, Json.whole Json.objectMembers document = .ok members ∧ ofFeed members = table :=
  map_eq_ok_iff

/-- The members of a document are those that its text tells, where an object with an embedded
document stands for the value of that document. Its table has the models that stand last under their
names and are objects, with the rates that their fields give and the cache rates completed; its
index has the first name of each normal form. Where no name comes twice, a document with the same
members in any order has the same table, and each order of the texts of the members is that of such
a document. -/
theorem table_of_price_list {document : Bytes} {table : Table}
    (accepted : read document = .ok table) :
    (∀ string v, Json.IsEmbedded string v ↔
      Json.Spaced (Json.ValueText Json.IsEmbedded Json.documentDepth) (Bytes.ofText string) v) ∧
    ∃ members, Json.whole Json.objectMembers document = .ok members ∧
      Json.Spaced Json.ObjectText document members ∧
      (∀ name, name ∈ table.listed ↔
        name ≠ documentationName ∧ ∃ fields, LastUnder members name (.object fields)) ∧
      (∀ name fields, name ≠ documentationName → LastUnder members name (.object fields) →
        ∃ published rates, published.AreGivenBy fields ∧ rates.Completes published ∧
          rates.withCacheRates = rates ∧ table.get? name = some rates) ∧
      (∀ form key, table.index.get? form = some key ↔
        FirstOf {name | name ∈ table.listed ∧ ModelName.normalForm name = form} key) ∧
      ((members.map (·.1)).Nodup →
        (∀ document' members', Json.whole Json.objectMembers document' = .ok members' →
          members'.Perm members → read document' = .ok table) ∧
        ∃ before texts after,
          document = before ++ ([Json.comma].intercalate texts ++ after) ∧
          List.Forall₂
            (Json.Spaced (Json.MemberText (Json.ValueText Json.IsEmbedded Json.memberDepth)))
            texts members ∧
          ∀ texts', texts'.Perm texts →
            read (before ++ ([Json.comma].intercalate texts' ++ after)) = .ok table) := by
  obtain ⟨members, h, rfl⟩ := map_eq_ok_iff.1 accepted
  refine ⟨fun _ _ => Json.isEmbedded_iff, members, h, Json.takes_objectMembers.whole_eq_ok_iff.1 h,
    fun name => mem_listed_ofFeed, ?_, ?_, fun distinct => ?_⟩
  · intro name fields model last
    refine ⟨.ofMember (.object fields), _, Rates.areGivenBy_ofMember fields,
      Rates.completes_withCacheRates (isNumber_input h last),
      Rates.withCacheRates_withCacheRates _, ?_⟩
    exact get?_ofFeed_eq_some_iff.2 ⟨model, fields, last, rfl⟩
  · intro form key
    have indexed : (ofFeed members).IsIndexed := isIndexed_ofRates _
    rw [indexed form key, withForm, Finset.coe_filter]
  · have same {document' : Bytes} {members' : List (String × Json.Value)}
        (h' : Json.whole Json.objectMembers document' = .ok members')
        (perm : members'.Perm members) : read document' = .ok (ofFeed members) :=
      map_eq_ok_iff.2 ⟨members', h', ofFeed_perm perm distinct⟩
    refine ⟨fun _ _ => same, ?_⟩
    obtain ⟨before, texts, after, split, spaced, reorder⟩ := Json.whole_objectMembers_reorder h
    refine ⟨before, texts, after, split, spaced, fun texts' perm => ?_⟩
    obtain ⟨members', perm', h'⟩ := reorder texts' perm
    exact same h' perm'

/-- A list of one model, with a member that is no object and the documentation of the fields. -/
theorem table_of_price_list_one_model :
    ∃ (table : Table) (members : List (String × Json.Value)), table.size = 1 ∧
      Json.whole Json.objectMembers (Bytes.ofText
        "\x7b\"b\":\x7b\"input_cost_per_token\":4\x7d,\"a\":1,\"sample_spec\":\x7b\x7d\x7d") =
          .ok members ∧
      ∀ name, name ∈ table.listed ↔
        name ≠ documentationName ∧ ∃ fields, LastUnder members name (.object fields) := by
  generalize document_eq : Bytes.ofText
    "\x7b\"b\":\x7b\"input_cost_per_token\":4\x7d,\"a\":1,\"sample_spec\":\x7b\x7d\x7d" = document
  have size : (read document).toOption.map size = some 1 := by
    rw [← document_eq]
    decide +kernel
  obtain ⟨table, accepted, size⟩ := Option.map_eq_some_iff.1 size
  obtain ⟨-, members, h, -, listed, -⟩ := table_of_price_list (toOption_eq_some_iff.1 accepted)
  exact ⟨table, members, size, h, listed⟩

/-- A member that is the text of an object, and is no model, since it stands for a number. -/
theorem object_without_entry :
    let document := Bytes.ofText
      "\x7b\"m\":\x7b\"$serde_json::private::RawValue\":\"1\"\x7d\x7d"
    ∃ table, read document = .ok table ∧
      Json.Enclosed .object (Json.MemberText (Json.CompositeText Json.ScalarText)) document
        [("m", .object [(Json.embeddingName, .string "1")])] ∧
      "m" ≠ documentationName ∧ "m" ∉ table.listed := by
  intro document
  have model : Json.StringText (Bytes.ofText "m\"") "m" := Json.stringText_of_stringBody (by decide)
  have name : Json.StringText (Bytes.ofText "$serde_json::private::RawValue\"")
      Json.embeddingName := Json.stringText_of_stringBody (by decide +kernel)
  have one : Json.StringText (Bytes.ofText "1\"") "1" := Json.stringText_of_stringBody (by decide)
  have object := Json.enclosed_member model
    (Json.CompositeText.object (Json.enclosed_member name (Json.ScalarText.string one)))
  have empty : (read document).toOption.map (fun table => (table.get? "m").isNone) = some true := by
    decide +kernel
  obtain ⟨table, accepted, isNone⟩ := Option.map_eq_some_iff.1 empty
  refine ⟨table, toOption_eq_some_iff.1 accepted, object, by decide, ?_⟩
  rw [mem_listed, Option.isNone_iff_eq_none.1 isNone]
  exact nofun

end Table

end TokenTariff
