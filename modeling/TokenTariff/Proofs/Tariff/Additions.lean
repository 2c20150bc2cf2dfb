import TokenTariff.Proofs.Tariff.Feed
import TokenTariff.Proofs.Tariff.Meaning
/-!
# A price list with one model more

A model that is added to a price list can win names for itself, but it moves no name from one of
the other models to another: each stage of the search answers with the new name or as before
(`IsLocal`), and so does the search as a whole (`isLocal_meaning`). Other rates for a model that is
listed move no name at all.

* `IsLocal`: choices among names that one name more can win, but not change otherwise;
* `listed_ofFeed_insert`, `listed_ofFeed_replace`: the names of a longer and of a changed list;
* `Table.resolve_of_added_model`: the law for documents.
-/

namespace TokenTariff
set_option autoImplicit false

/-! ## Lists with one member more -/

theorem lookup_reverse_insert {α : Type} (before after : List (String × α)) (key name : String)
    (value : α) :
    (before ++ (key, value) :: after).reverse.lookup name =
      (after.reverse.lookup name).or
        (if name = key then some value else before.reverse.lookup name) := by
  rw [List.reverse_append, List.reverse_cons, List.append_assoc, List.lookup_append,
    List.singleton_append, Dictionary.lookup_cons_name]

theorem lookup_reverse_eq_none {α : Type} {items : List (String × α)} {key : String}
    (new : ∀ item ∈ items, item.1 ≠ key) : items.reverse.lookup key = none := by
  refine List.lookup_eq_none_iff.2 fun item mem => ?_
  have differ := new item (List.mem_reverse.1 mem)
  simpa using differ.symm

theorem lastUnder_insert_iff {α : Type} {before after : List (String × α)} {key name : String}
    {value other : α} (new : ∀ item ∈ before ++ after, item.1 ≠ key) :
    LastUnder (before ++ (key, value) :: after) name other ↔
      name = key ∧ other = value ∨ LastUnder (before ++ after) name other := by
  have without : (before ++ after).reverse.lookup name =
      (after.reverse.lookup name).or (before.reverse.lookup name) := by
    rw [List.reverse_append, List.lookup_append]
  simp only [← lookup_reverse_eq_some_iff, lookup_reverse_insert, without]
  by_cases same : name = key
  · have absent : after.reverse.lookup name = none :=
      lookup_reverse_eq_none fun item mem => same ▸ new item (List.mem_append_right _ mem)
    have absent' : before.reverse.lookup name = none :=
      lookup_reverse_eq_none fun item mem => same ▸ new item (List.mem_append_left _ mem)
    simp [same, same ▸ absent, same ▸ absent', eq_comm]
  · simp [same]

namespace ModelName

/-! ## Choices that one name more can win -/

/-- A choice among the listed names: with one name more it is that name, or what it was. -/
def IsLocal (choice : Finset String → Option String) : Prop :=
  ∀ (listed : Finset String) (key : String),
    choice (insert key listed) = choice listed ∨ choice (insert key listed) = some key

theorem IsLocal.or {choice choice' : Finset String → Option String} (h : IsLocal choice)
    (h' : IsLocal choice') : IsLocal fun listed => (choice listed).or (choice' listed) := by
  intro listed key
  simp only
  rcases h listed key with same | won
  · rw [same]
    cases choice listed with
    | some kept => exact .inl rfl
    | none => exact h' listed key
  · rw [won]
    exact .inr rfl

theorem IsLocal.filter {choice : Finset String → Option String} (h : IsLocal choice)
    (p : String → Prop) [DecidablePred p] : IsLocal fun listed => choice (listed.filter p) := by
  intro listed key
  simp only [Finset.filter_insert]
  split
  · exact h (listed.filter p) key
  · exact .inl rfl

theorem isLocal_find? (names : List String) :
    IsLocal fun listed => names.find? (· ∈ listed) := by
  intro listed key
  induction names with
  | nil => exact .inl rfl
  | cons name names ih =>
    by_cases kept : name ∈ listed
    · exact .inl (by simp [kept])
    · by_cases same : name = key
      · exact .inr (by simp [same])
      · simpa [kept, same] using ih

theorem firstName_of_subset {few many : Finset String} {key : String}
    (first : firstName many = some key) (subset : few ⊆ many) (mem : key ∈ few) :
    firstName few = some key := by
  obtain ⟨-, least⟩ := firstName_eq_some_iff.1 first
  exact firstName_eq_some_iff.2 ⟨mem, fun other mem => least other (subset mem)⟩

theorem isLocal_firstName : IsLocal firstName := by
  intro listed key
  cases first : firstName (insert key listed) with
  | none => exact absurd (firstName_eq_none_iff.1 first) (Finset.insert_ne_empty key listed)
  | some winner =>
    have mem : winner ∈ insert key listed := (firstName_eq_some_iff.1 first).1
    rcases Finset.mem_insert.1 mem with rfl | mem
    · exact .inr rfl
    · exact .inl (firstName_of_subset first (Finset.subset_insert key listed) mem).symm

/-- As long as an old name is among the longest, all that were are. -/
theorem longest_subset_insert {names : Finset String} {key winner : String}
    (old : winner ∈ names) (wins : winner ∈ longest (insert key names)) :
    longest names ⊆ longest (insert key names) := by
  obtain ⟨-, above⟩ := Finset.mem_filter.1 wins
  intro other mem
  obtain ⟨mem, above'⟩ := Finset.mem_filter.1 mem
  refine Finset.mem_filter.2 ⟨Finset.mem_insert_of_mem mem, fun third mem => ?_⟩
  exact (above third mem).trans (above' winner old)

theorem isLocal_firstName_longest : IsLocal fun listed => firstName (longest listed) := by
  intro listed key
  simp only
  cases first : firstName (longest (insert key listed)) with
  | none =>
    have nonempty := Table.longest_nonempty (Finset.insert_nonempty key listed)
    exact absurd (firstName_eq_none_iff.1 first) nonempty.ne_empty
  | some winner =>
    have wins : winner ∈ longest (insert key listed) := (firstName_eq_some_iff.1 first).1
    obtain ⟨mem, above⟩ := Finset.mem_filter.1 wins
    rcases Finset.mem_insert.1 mem with rfl | old
    · exact .inr rfl
    · have still : winner ∈ longest listed :=
        Finset.mem_filter.2 ⟨old, fun other mem => above other (Finset.mem_insert_of_mem mem)⟩
      exact .inl (firstName_of_subset first (longest_subset_insert old wins) still).symm

/-- One name more takes over the meaning of a name or leaves it as it is. -/
theorem isLocal_meaning (name : String) : IsLocal fun listed => meaning listed name := by
  by_cases empty : name = ""
  · intro listed key
    exact .inl (by simp only [meaning, if_pos empty])
  · have stages := ((isLocal_find? (spellings name)).or
      (isLocal_firstName.filter fun key => normalForm key = normalForm name)).or
      (isLocal_firstName_longest.filter fun key => Overlap (normalForm key) (normalForm name))
    intro listed key
    simp only [meaning, if_neg empty]
    exact stages listed key

end ModelName

namespace Table
open ModelName

/-! ## The names of a longer list, and of a changed one -/

theorem listed_ofFeed_insert {before after : List (String × Json.Value)} {key : String}
    {fields : List (String × Json.Value)} (new : ∀ item ∈ before ++ after, item.1 ≠ key)
    (model : key ≠ documentationName) :
    (ofFeed (before ++ (key, .object fields) :: after)).listed =
      insert key (ofFeed (before ++ after)).listed := by
  ext name
  simp only [Finset.mem_insert, mem_listed_ofFeed, lastUnder_insert_iff new]
  constructor
  · rintro ⟨model', fields', ⟨same, -⟩ | last⟩
    · exact .inl same
    · exact .inr ⟨model', fields', last⟩
  · rintro (rfl | ⟨model', fields', last⟩)
    · exact ⟨model, fields, .inl ⟨rfl, rfl⟩⟩
    · exact ⟨model', fields', .inr last⟩

theorem exists_lastUnder_replace {before after : List (String × Json.Value)} {key name : String}
    {fields fields' : List (String × Json.Value)}
    (h : ∃ found, LastUnder (before ++ (key, .object fields) :: after) name (.object found)) :
    ∃ found, LastUnder (before ++ (key, .object fields') :: after) name (.object found) := by
  obtain ⟨found, last⟩ := h
  simp only [← lookup_reverse_eq_some_iff, lookup_reverse_insert] at last ⊢
  cases later : after.reverse.lookup name with
  | some value =>
    rw [later] at last
    exact ⟨found, last⟩
  | none =>
    rw [later, Option.none_or] at last
    by_cases same : name = key
    · exact ⟨fields', by simp [same]⟩
    · rw [if_neg same] at last
      exact ⟨found, by simpa [same] using last⟩

theorem listed_ofFeed_replace (before after : List (String × Json.Value)) (key : String)
    (fields fields' : List (String × Json.Value)) :
    (ofFeed (before ++ (key, .object fields') :: after)).listed =
      (ofFeed (before ++ (key, .object fields) :: after)).listed := by
  ext name
  simp only [mem_listed_ofFeed]
  exact and_congr_right fun _ => ⟨exists_lastUnder_replace, exists_lastUnder_replace⟩

/-! ## Documents -/

theorem isSome_of_moved {found found' : Option Resolved} {key : String}
    (moved : found'.map Resolved.key = found.map Resolved.key ∨
      found'.map Resolved.key = some key) (priced : found.isSome) : found'.isSome := by
  cases found' with
  | some now => rfl
  | none =>
    rcases moved with same | won
    · obtain ⟨before, rfl⟩ := Option.isSome_iff_exists.1 priced
      cases same
    · cases won

theorem key_of_moved {found found' : Option Resolved} {key : String}
    (moved : found'.map Resolved.key = found.map Resolved.key ∨
      found'.map Resolved.key = some key) (unpriced : found = none) (now : Resolved)
    (has : found' = some now) : now.key = key := by
  subst unpriced has
  rcases moved with same | won
  · cases same
  · exact Option.some.inj won

/-- A price list with one model more: a name means what it meant or the new model, so that no name
loses its price, and a name that had none gets one only from the new model. A price list with other
rates for one of its models: every name means what it meant. -/
theorem resolve_of_added_model {before after : List (String × Json.Value)} {key : String} :
    (∀ document document' fields, (∀ item ∈ before ++ after, item.1 ≠ key) →
      key ≠ documentationName →
      Json.whole Json.objectMembers document = .ok (before ++ after) →
      Json.whole Json.objectMembers document' = .ok (before ++ (key, .object fields) :: after) →
      ∃ table table', read document = .ok table ∧ read document' = .ok table' ∧ ∀ name,
        ((table'.resolve name).map Resolved.key = (table.resolve name).map Resolved.key ∨
          (table'.resolve name).map Resolved.key = some key) ∧
        ((table.resolve name).isSome → (table'.resolve name).isSome) ∧
        (table.resolve name = none → ∀ found, table'.resolve name = some found →
          found.key = key)) ∧
    (∀ document document' fields fields',
      Json.whole Json.objectMembers document = .ok (before ++ (key, .object fields) :: after) →
      Json.whole Json.objectMembers document' = .ok (before ++ (key, .object fields') :: after) →
      ∃ table table', read document = .ok table ∧ read document' = .ok table' ∧ ∀ name,
        (table'.resolve name).map Resolved.key = (table.resolve name).map Resolved.key) := by
  constructor
  · intro document document' fields new model lists lists'
    have accepted := read_eq_ok_iff.2 ⟨_, lists, rfl⟩
    have accepted' := read_eq_ok_iff.2 ⟨_, lists', rfl⟩
    refine ⟨_, _, accepted, accepted', fun name => ?_⟩
    have means := map_key_resolve accepted
    have means' := map_key_resolve accepted'
    have listed : (ofFeed (before ++ (key, .object fields) :: after)).listed = _ :=
      listed_ofFeed_insert new model
    have moved := isLocal_meaning name (ofFeed (before ++ after)).listed key
    simp only [← listed, ← means, ← means'] at moved
    exact ⟨moved, isSome_of_moved moved, key_of_moved moved⟩
  · intro document document' fields fields' lists lists'
    have accepted := read_eq_ok_iff.2 ⟨_, lists, rfl⟩
    have accepted' := read_eq_ok_iff.2 ⟨_, lists', rfl⟩
    refine ⟨_, _, accepted, accepted', fun name => ?_⟩
    rw [map_key_resolve accepted', map_key_resolve accepted,
      listed_ofFeed_replace before after key fields fields']

theorem eq_emptyObjects_of_shape : ∀ {names : List String} {members : List (String × Json.Value)},
    members.map (fun item => (item.1, item.2.members?.map List.length)) =
      names.map (fun name => (name, some 0)) →
    members = names.map fun name => (name, .object [])
  | [], members, h => List.map_eq_nil_iff.1 h
  | name :: names, members, h => by
    obtain ⟨⟨key, value⟩, rest, rfl, head, tail⟩ := List.map_eq_cons_iff.1 h
    rw [List.map_cons, eq_emptyObjects_of_shape tail]
    obtain ⟨rfl, fields⟩ := Prod.mk.inj head
    cases value with
    | object fields' => rw [List.eq_nil_of_length_eq_zero (Option.some.inj fields)]
    | _ => cases fields

/-- One model, and a second one whose name is longer. -/
theorem resolve_of_added_model_longer_name : ∃ table table',
    read (Bytes.ofText "\x7b\"gpt-4o\":\x7b\x7d\x7d") = .ok table ∧
    read (Bytes.ofText "\x7b\"gpt-4o\":\x7b\x7d,\"gpt-4o-mini\":\x7b\x7d\x7d") = .ok table' ∧
    (∀ name, (table.resolve name).isSome → (table'.resolve name).isSome) ∧
    (∀ name found, table.resolve name = none → table'.resolve name = some found →
      found.key = "gpt-4o-mini") := by
  generalize document_eq : Bytes.ofText "\x7b\"gpt-4o\":\x7b\x7d\x7d" = document
  generalize document_eq' :
    Bytes.ofText "\x7b\"gpt-4o\":\x7b\x7d,\"gpt-4o-mini\":\x7b\x7d\x7d" = document'
  have shape : (Json.whole Json.objectMembers document).toOption.map (fun members =>
      members.map fun item => (item.1, item.2.members?.map List.length)) =
        some (["gpt-4o"].map fun name => (name, some 0)) := by
    rw [← document_eq]
    decide +kernel
  have shape' : (Json.whole Json.objectMembers document').toOption.map (fun members =>
      members.map fun item => (item.1, item.2.members?.map List.length)) =
        some (["gpt-4o", "gpt-4o-mini"].map fun name => (name, some 0)) := by
    rw [← document_eq']
    decide +kernel
  obtain ⟨members, lists, shape⟩ := Option.map_eq_some_iff.1 shape
  obtain ⟨members', lists', shape'⟩ := Option.map_eq_some_iff.1 shape'
  rw [toOption_eq_some_iff, eq_emptyObjects_of_shape shape] at lists
  rw [toOption_eq_some_iff, eq_emptyObjects_of_shape shape'] at lists'
  obtain ⟨table, table', read, read', law⟩ :=
    (@resolve_of_added_model [("gpt-4o", .object [])] [] "gpt-4o-mini").1 document document' []
      (by simp) (by decide) lists lists'
  exact ⟨table, table', read, read', fun name => (law name).2.1,
    fun name found unpriced => (law name).2.2 unpriced found⟩

end Table

end TokenTariff
