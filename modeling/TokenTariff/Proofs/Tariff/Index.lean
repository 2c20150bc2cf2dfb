import Mathlib.Data.Finset.Max
import TokenTariff.Proofs.Dictionary
import TokenTariff.Proofs.Text.Utf8
import TokenTariff.Tariff.Table
/-!
# The index of a price table

What the index of a table says is told by the names of its models alone: under each normal form
stands the first name that has it (`isIndexed_ofRates`). So a name in the index is always the name of
a model, and a normal form without an entry is that of no model.

* `FirstOf`: the name of a set whose bytes come first;
* `Table.listed`: the names of the models;
* `get?_indexOf`: what one pass over the names leaves in the index.
-/

namespace TokenTariff
set_option autoImplicit false

/-! ## The first of some names -/

/-- A name is the first of a set if no other one comes before it in the order of their bytes. -/
def FirstOf (names : Set String) (key : String) : Prop :=
  key ∈ names ∧ ∀ other ∈ names, ¬ Bytes.ofText other < Bytes.ofText key

theorem firstOf_iff {names : Set String} {key : String} :
    FirstOf names key ↔ key ∈ names ∧ ∀ other ∈ names, key ≤ other := by
  unfold FirstOf
  simp only [Bytes.ofText_lt_ofText_iff, not_lt]

theorem FirstOf.unique {names : Set String} {a b : String} (ha : FirstOf names a)
    (hb : FirstOf names b) : a = b := by
  rw [firstOf_iff] at ha hb
  exact le_antisymm (ha.2 b hb.1) (hb.2 a ha.1)

/-- The first of a set of names, if there is one. -/
def firstName (names : Finset String) : Option String :=
  if h : names.Nonempty then some (names.min' h) else none

theorem firstName_eq_some_iff {names : Finset String} {key : String} :
    firstName names = some key ↔ FirstOf names key := by
  have first (h : names.Nonempty) : FirstOf names (names.min' h) :=
    firstOf_iff.2 ⟨names.min'_mem h, fun other mem => names.min'_le other mem⟩
  unfold firstName
  constructor
  · intro h
    split at h
    · next nonempty => exact Option.some.inj h ▸ first nonempty
    · cases h
  · intro h
    have nonempty : names.Nonempty := ⟨key, h.1⟩
    rw [dif_pos nonempty, (first nonempty).unique h]

theorem firstName_eq_none_iff {names : Finset String} : firstName names = none ↔ names = ∅ := by
  unfold firstName
  split
  · next h => simp [h.ne_empty]
  · next h => simpa using h

theorem isSome_firstName_iff {names : Finset String} :
    (firstName names).isSome ↔ names.Nonempty := by
  rw [← Option.ne_none_iff_isSome, ne_eq, firstName_eq_none_iff, Finset.nonempty_iff_ne_empty]

namespace Table

/-! ## One pass over the names -/

theorem get?_foldl_insertNew (form : String) :
    ∀ (names : List String) (index : Dictionary String),
      (names.foldl (fun index name => index.insertNew (ModelName.normalForm name) name)
          index).get? form =
        (index.get? form).or (names.find? fun name => ModelName.normalForm name = form)
  | [], index => by simp
  | name :: names, index => by
    rw [List.foldl_cons, get?_foldl_insertNew form names, Dictionary.get?_insertNew,
      Option.or_assoc]
    congr 1
    by_cases h : ModelName.normalForm name = form
    · rw [List.find?_cons_of_pos (by simpa using h), if_pos h.symm, Option.some_or]
    · rw [List.find?_cons_of_neg (by simpa using h), if_neg (Ne.symm h), Option.none_or]

theorem get?_indexOf (names : List String) (form : String) :
    (indexOf names).get? form = names.find? fun name => ModelName.normalForm name = form := by
  rw [indexOf, get?_foldl_insertNew, Dictionary.get?_empty, Option.none_or]

/-- In an ascending list, the first name that is found is the first of all. -/
theorem find?_eq_some_iff_firstOf {names : List String} (ascending : names.Pairwise (· < ·))
    {p : String → Bool} {key : String} :
    names.find? p = some key ↔ FirstOf {name | name ∈ names ∧ p name} key := by
  have first {k : String} (found : names.find? p = some k) :
      FirstOf {name | name ∈ names ∧ p name} k := by
    obtain ⟨holds, before, after, rfl, none⟩ := List.find?_eq_some_iff_append.1 found
    refine firstOf_iff.2 ⟨⟨by simp, holds⟩, fun other ⟨mem, pother⟩ => ?_⟩
    rcases List.mem_append.1 mem with mem | mem
    · exact absurd pother (by simpa using none other mem)
    · rcases List.mem_cons.1 mem with rfl | mem
      · exact le_refl _
      · exact ((List.pairwise_cons.1 (List.pairwise_append.1 ascending).2.1).1 other mem).le
  refine ⟨first, fun h => ?_⟩
  cases found : names.find? p with
  | none => exact absurd h.1.2 (by simpa using List.find?_eq_none.1 found key h.1.1)
  | some k => rw [(first found).unique h]

/-! ## The index and the models -/

/-- The names of the models. -/
def listed (table : Table) : Finset String :=
  table.entries.names.toFinset

theorem mem_listed {table : Table} {name : String} :
    name ∈ table.listed ↔ ∃ rates, table.get? name = some rates := by
  rw [listed, List.mem_toFinset, Dictionary.mem_names_iff]
  rfl

/-- The names of the models that have a normal form. -/
def withForm (table : Table) (form : String) : Finset String :=
  table.listed.filter fun name => ModelName.normalForm name = form

/-- The tables whose index says what the names of their models say. -/
def IsIndexed (table : Table) : Prop :=
  ∀ form key, table.index.get? form = some key ↔ FirstOf (table.withForm form) key

theorem get?_ofRates (published : Dictionary Rates) (name : String) :
    (ofRates published).get? name = (published.get? name).map Rates.withCacheRates := by
  rw [get?, ofRates, Dictionary.get?_filterMap]
  exact Option.map_eq_bind.symm

theorem mem_names_ofRates {published : Dictionary Rates} {name : String} :
    name ∈ published.names ↔ name ∈ (ofRates published).listed := by
  rw [mem_listed, Dictionary.mem_names_iff, get?_ofRates]
  simp

/-- Under each normal form stands the first name that has it. -/
theorem isIndexed_ofRates (published : Dictionary Rates) : (ofRates published).IsIndexed := by
  intro form key
  have pass : (ofRates published).index.get? form =
      published.names.find? fun name => ModelName.normalForm name = form :=
    get?_indexOf _ _
  rw [pass, find?_eq_some_iff_firstOf published.names_ascending]
  have same : {name | name ∈ published.names ∧ decide (ModelName.normalForm name = form) = true} =
      ((ofRates published).withForm form : Set String) := by
    ext name
    rw [withForm, Finset.coe_filter]
    simp only [Set.mem_ofPred_eq, mem_names_ofRates, decide_eq_true_eq]
  rw [same]

namespace IsIndexed
variable {table : Table} (indexed : table.IsIndexed)
include indexed

theorem get?_index (form : String) : table.index.get? form = firstName (table.withForm form) :=
  Option.ext fun key => by rw [indexed form key, firstName_eq_some_iff]

theorem mem_entries_index_iff {form key : String} :
    (form, key) ∈ table.index.entries ↔ FirstOf (table.withForm form) key := by
  rw [Dictionary.mem_entries_iff, indexed form key]

theorem listed_of_get?_index {form key : String} (found : table.index.get? form = some key) :
    key ∈ table.listed ∧ ModelName.normalForm key = form := by
  have := ((indexed form key).1 found).1
  rwa [withForm, Finset.mem_coe, Finset.mem_filter] at this

end IsIndexed

end Table

end TokenTariff
