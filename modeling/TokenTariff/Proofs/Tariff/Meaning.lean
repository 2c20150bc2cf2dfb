import TokenTariff.Proofs.Results
import TokenTariff.Proofs.Tariff.Index
import TokenTariff.Proofs.Tariff.ModelName
import TokenTariff.Proofs.Text.Containment
import TokenTariff.Tariff.Resolution
/-!
# What a name means

The model that a name means is told by the names of all models, without any index: `meaning` takes
the first spelling that is listed, else the first name with the same normal form, else the first of
those overlapping names whose normal forms are longest. `resolve_eq_meaning` says that this is what
a table of a price list answers.

* `meaning`: the name that is meant, among any set of names;
* `containsText_normalForm_spelling`: what the spellings of a name have in common;
* `foremost_spec`: the winner of a pass over the index, in whatever order it is passed through;
* `byOverlap_eq`: that the index, which keeps one name for each normal form, loses no winner.
-/

namespace TokenTariff
set_option autoImplicit false

/-! ## The meaning of a name -/

namespace ModelName

/-- The spellings of a name that are looked for as they are, in their order. -/
def spellings (name : String) : List String :=
  [name] ++ (if name = "gpt-5-codex" then ["gpt-5"] else []) ++
    [withoutRegion name, withoutMaker (withoutRegion name)]

/-- Two normal forms overlap if one contains the other and neither is empty. -/
def Overlap (a b : String) : Prop :=
  a ≠ "" ∧ b ≠ "" ∧ (Text.containsText a b ∨ Text.containsText b a)

instance (a b : String) : Decidable (Overlap a b) :=
  inferInstanceAs (Decidable (_ ∧ _ ∧ (_ ∨ _)))

/-- How many bytes the normal form of a name has. -/
def formSize (name : String) : Nat :=
  (Bytes.ofText (normalForm name)).length

/-- The names whose normal forms are longest. -/
def longest (names : Finset String) : Finset String :=
  names.filter fun key => ∀ other ∈ names, formSize other ≤ formSize key

/-- The one of the listed names that a name means. -/
def meaning (listed : Finset String) (name : String) : Option String :=
  if name = "" then none
  else
    ((spellings name).find? (· ∈ listed))
      |>.or (firstName (listed.filter fun key => normalForm key = normalForm name))
      |>.or (firstName
        (longest (listed.filter fun key => Overlap (normalForm key) (normalForm name))))

theorem containsText_normalForm_of_append {name front rest : String} (h : name = front ++ rest) :
    Text.containsText (normalForm name) (normalForm rest) = true := by
  rw [h, normalForm_append]
  exact Text.containsText_append_left _ (Text.containsText_refl _)

/-- The normal form of a name contains those of all its spellings. -/
theorem containsText_normalForm_spelling {name spelling : String}
    (h : spelling ∈ spellings name) :
    Text.containsText (normalForm name) (normalForm spelling) = true := by
  obtain ⟨region, split, -⟩ := eq_append_withoutRegion name
  obtain ⟨made, split', -⟩ := eq_append_withoutMaker (withoutRegion name)
  simp only [spellings, List.mem_append, List.mem_cons, List.not_mem_nil, or_false] at h
  rcases h with (rfl | codex) | rfl | rfl
  · exact Text.containsText_refl _
  · split at codex
    · next same =>
      rw [List.mem_singleton.1 codex, same]
      decide +kernel
    · cases codex
  · exact containsText_normalForm_of_append split
  · have joined : name = region ++ made ++ withoutMaker (withoutRegion name) := by
      rw [String.append_assoc, ← split', ← split]
    exact containsText_normalForm_of_append joined

end ModelName

namespace Table
open ModelName

/-! ## The foremost of some models -/

theorem formSize_eq (name : String) : formSize name = (normalForm name).utf8ByteSize := by
  have size : (normalForm name).toByteArray.size = (Bytes.ofText (normalForm name)).length := by
    rw [← String.utf8Encode_toList, List.utf8Encode, List.size_toByteArray, Bytes.ofText]
  rw [formSize, ← size, String.size_toByteArray]

theorem not_precedes_iff {a b : String × String} :
    precedes a b = false ↔
      a.1.utf8ByteSize ≤ b.1.utf8ByteSize ∧ (a.1.utf8ByteSize = b.1.utf8ByteSize → b.2 ≤ a.2) := by
  unfold precedes
  split
  · next same =>
    rw [decide_eq_false_iff_not, not_lt, same]
    exact ⟨fun le => ⟨le_refl _, fun _ => le⟩, fun h => h.2 rfl⟩
  · next differ =>
    rw [decide_eq_false_iff_not]
    omega

theorem not_precedes_trans {a b c : String × String} (hab : precedes a b = false)
    (hbc : precedes b c = false) : precedes a c = false := by
  rw [not_precedes_iff] at *
  refine ⟨hab.1.trans hbc.1, fun same => ?_⟩
  exact (hbc.2 (by omega)).trans (hab.2 (by omega))

theorem not_precedes_of_precedes {a b : String × String} (h : precedes a b = true) :
    precedes b a = false := by
  unfold precedes at *
  split at h
  · next same =>
    rw [if_pos same.symm, decide_eq_false_iff_not]
    exact lt_asymm (of_decide_eq_true h)
  · next differ =>
    rw [if_neg (Ne.symm differ), decide_eq_false_iff_not]
    have longer := of_decide_eq_true h
    omega

/-- The invariant of the pass: nothing seen so far counts before the best so far. -/
theorem foldl_precedes_spec :
    ∀ (rest : List (String × String)) (first : String × String),
      rest.foldl (fun best c => if precedes c best then c else best) first ∈ first :: rest ∧
        ∀ c ∈ first :: rest,
          precedes c (rest.foldl (fun best c => if precedes c best then c else best) first) = false
  | [], first => by
    refine ⟨List.mem_cons_self, fun c mem => ?_⟩
    rw [List.mem_singleton.1 mem, List.foldl_nil, not_precedes_iff]
    exact ⟨le_refl _, fun _ => le_refl _⟩
  | next :: rest, first => by
    rw [List.foldl_cons]
    by_cases before : precedes next first = true
    · rw [if_pos before]
      obtain ⟨mem, least⟩ := foldl_precedes_spec rest next
      refine ⟨List.mem_cons_of_mem _ mem, fun c mem => ?_⟩
      rcases List.mem_cons.1 mem with rfl | mem
      · exact not_precedes_trans (not_precedes_of_precedes before) (least next List.mem_cons_self)
      · exact least c mem
    · rw [if_neg before]
      obtain ⟨mem, least⟩ := foldl_precedes_spec rest first
      refine ⟨?_, fun c mem => ?_⟩
      · rcases List.mem_cons.1 mem with e | mem
        · rw [e]
          exact List.mem_cons_self
        · exact List.mem_cons_of_mem _ (List.mem_cons_of_mem _ mem)
      · rcases List.mem_cons.1 mem with rfl | mem
        · exact least c List.mem_cons_self
        · rcases List.mem_cons.1 mem with rfl | mem
          · exact not_precedes_trans (by simpa using before) (least first List.mem_cons_self)
          · exact least c (List.mem_cons_of_mem _ mem)

theorem foremost_spec {models : List (String × String)} {best : String × String}
    (h : foremost models = some best) :
    best ∈ models ∧ ∀ c ∈ models, precedes c best = false := by
  cases models with
  | nil => cases h
  | cons first rest =>
    rw [foremost, Option.some.injEq] at h
    exact h ▸ foldl_precedes_spec rest first

theorem foremost_eq_none_iff {models : List (String × String)} :
    foremost models = none ↔ models = [] := by
  cases models <;> simp [foremost]

/-! ## The stages of the search -/

variable {table : Table}

theorem exact_eq_some_iff {name : String} {found : Resolved} :
    table.exact name = some found ↔ found.key = name ∧ table.get? name = some found.rates := by
  rw [exact, Option.map_eq_some_iff]
  constructor
  · rintro ⟨rates, has, rfl⟩
    exact ⟨rfl, has⟩
  · rintro ⟨rfl, has⟩
    exact ⟨found.rates, has, rfl⟩

theorem isSome_exact_iff {name : String} : (table.exact name).isSome ↔ name ∈ table.listed := by
  rw [exact, Option.isSome_map, Option.isSome_iff_exists, mem_listed]

theorem findSome?_exact :
    ∀ names : List String,
      names.findSome? table.exact = (names.find? (· ∈ table.listed)).bind table.exact
  | [] => rfl
  | name :: names => by
    by_cases mem : name ∈ table.listed
    · obtain ⟨found, has⟩ := Option.isSome_iff_exists.1 (isSome_exact_iff.2 mem)
      rw [List.find?_cons_of_pos (by simpa using mem), List.findSome?_cons, has, Option.bind_some,
        has]
    · have missing : table.exact name = none :=
        Option.not_isSome_iff_eq_none.1 (isSome_exact_iff.not.2 mem)
      rw [List.find?_cons_of_neg (by simpa using mem), List.findSome?_cons, missing,
        findSome?_exact names]

/-- The first four ways are those of the spellings. -/
theorem exact_or_spellings (name : String) :
    (table.exact name
      |>.or (table.byAlias name)
      |>.or (table.exact (withoutRegion name))
      |>.or (table.exact (withoutMaker (withoutRegion name)))) =
      (spellings name).findSome? table.exact := by
  have codex : table.byAlias name = (if name = "gpt-5-codex" then ["gpt-5"] else []).findSome?
      table.exact := by
    rw [byAlias, aliases, Dictionary.lookup_cons_name]
    split <;> simp
  have last (a b : String) : [a, b].findSome? table.exact = (table.exact a).or (table.exact b) := by
    cases h : table.exact a <;> cases h' : table.exact b <;> simp [h, h']
  rw [spellings, List.findSome?_append, List.findSome?_append, ← codex, last]
  simp [Option.or_assoc]

theorem overlaps_iff {target form : String} (nonempty : target ≠ "") :
    overlaps target form = true ↔ Overlap form target := by
  simp [overlaps, Overlap, nonempty]

namespace IsIndexed
variable (indexed : table.IsIndexed)
include indexed

theorem mem_overlapping_iff {models : List (String × String)}
    (through : models.Perm table.index.entries) {target : String} (nonempty : target ≠ "")
    {form key : String} :
    (form, key) ∈ models.filter (fun item => overlaps target item.1) ↔
      FirstOf (table.withForm form) key ∧ Overlap form target := by
  rw [List.mem_filter, through.mem_iff, indexed.mem_entries_index_iff, overlaps_iff nonempty]

/-- Every name that overlaps is stood for by the first name of its normal form. -/
theorem exists_first_overlapping {models : List (String × String)}
    (through : models.Perm table.index.entries) {target : String} (nonempty : target ≠ "")
    {key : String} (listed : key ∈ table.listed) (overlap : Overlap (normalForm key) target) :
    ∃ first, first ≤ key ∧
      (normalForm key, first) ∈ models.filter (fun item => overlaps target item.1) := by
  have same : key ∈ table.withForm (normalForm key) := Finset.mem_filter.2 ⟨listed, rfl⟩
  cases found : firstName (table.withForm (normalForm key)) with
  | none =>
    rw [firstName_eq_none_iff.1 found] at same
    exact absurd same (Finset.notMem_empty _)
  | some first =>
    have isFirst := firstName_eq_some_iff.1 found
    exact ⟨first, (firstOf_iff.1 isFirst).2 key same,
      (indexed.mem_overlapping_iff through nonempty).2 ⟨isFirst, overlap⟩⟩

/-- The index keeps one name for each normal form, but the winner among all names is in it. -/
theorem firstName_longest {models : List (String × String)}
    (through : models.Perm table.index.entries) {target : String} (nonempty : target ≠ "")
    {form key : String}
    (won : foremost (models.filter fun item => overlaps target item.1) = some (form, key)) :
    firstName (longest (table.listed.filter fun key => Overlap (normalForm key) target)) =
      some key := by
  obtain ⟨found, best⟩ := foremost_spec won
  obtain ⟨isFirst, overlap⟩ := (indexed.mem_overlapping_iff through nonempty).1 found
  obtain ⟨listed, rfl⟩ := Finset.mem_filter.1 isFirst.1
  generalize names_eq : (table.listed.filter fun key => Overlap (normalForm key) target) = names
  have mem_names {key : String} :
      key ∈ names ↔ key ∈ table.listed ∧ Overlap (normalForm key) target := by
    rw [← names_eq, Finset.mem_filter]
  have not_longer {other : String} (mem : other ∈ names) :
      formSize other ≤ formSize key ∧ (formSize other = formSize key → key ≤ other) := by
    obtain ⟨listed, overlap⟩ := mem_names.1 mem
    obtain ⟨first, le, found⟩ := indexed.exists_first_overlapping through nonempty listed overlap
    have shorter := not_precedes_iff.1 (best _ found)
    rw [formSize_eq, formSize_eq]
    exact ⟨shorter.1, fun same => (shorter.2 same).trans le⟩
  have key_mem : key ∈ names := mem_names.2 ⟨listed, overlap⟩
  refine firstName_eq_some_iff.2 (firstOf_iff.2 ⟨?_, fun other mem => ?_⟩)
  · exact Finset.mem_filter.2 ⟨key_mem, fun other mem => (not_longer mem).1⟩
  · obtain ⟨mem, above⟩ := Finset.mem_filter.1 mem
    exact (not_longer mem).2 (le_antisymm (not_longer mem).1 (above key key_mem))

theorem byOverlap_eq {models : List (String × String)} (through : models.Perm table.index.entries)
    (name : String) :
    table.byOverlap models (normalForm name) =
      (firstName (longest (table.listed.filter fun key =>
        Overlap (normalForm key) (normalForm name)))).bind table.exact := by
  unfold byOverlap
  by_cases empty : normalForm name = ""
  · have none : (table.listed.filter fun key => Overlap (normalForm key) (normalForm name)) = ∅ := by
      refine Finset.eq_empty_of_forall_notMem fun key mem => ?_
      exact (Finset.mem_filter.1 mem).2.2.1 empty
    rw [none, empty]
    rfl
  rw [if_neg (by simpa using empty)]
  cases won : foremost (models.filter fun item => overlaps (normalForm name) item.1) with
  | none =>
    have none : (table.listed.filter fun key => Overlap (normalForm key) (normalForm name)) = ∅ := by
      refine Finset.eq_empty_of_forall_notMem fun key mem => ?_
      obtain ⟨listed, overlap⟩ := Finset.mem_filter.1 mem
      obtain ⟨first, -, found⟩ := indexed.exists_first_overlapping through empty listed overlap
      rw [foremost_eq_none_iff.1 won] at found
      exact List.not_mem_nil found
    rw [none]
    rfl
  | some item =>
    rw [indexed.firstName_longest through empty won, Option.bind_some, Option.bind_some]

theorem byNormalForm_eq {models : List (String × String)}
    (through : models.Perm table.index.entries) (name : String) :
    table.byNormalForm models (normalForm name) =
      ((firstName (table.listed.filter fun key => normalForm key = normalForm name)).or
        (firstName (longest (table.listed.filter fun key =>
          Overlap (normalForm key) (normalForm name))))).bind table.exact := by
  rw [byNormalForm, indexed.get?_index, withForm]
  cases firstName (table.listed.filter fun key => normalForm key = normalForm name) with
  | none => rw [Option.none_or]; exact indexed.byOverlap_eq through name
  | some key => rfl

/-- A search through the index in any order finds what the name means. -/
theorem resolveAmong_eq {models : List (String × String)}
    (through : models.Perm table.index.entries) (name : String) :
    table.resolveAmong models name = (meaning table.listed name).bind table.exact := by
  unfold resolveAmong meaning
  by_cases empty : name = ""
  · rw [if_pos empty, if_pos (by simpa using empty), Option.bind_none]
  rw [if_neg empty, if_neg (by simpa using empty)]
  simp only
  rw [exact_or_spellings, findSome?_exact, indexed.byNormalForm_eq through, Option.or_assoc]
  cases found : (spellings name).find? (· ∈ table.listed) with
  | none => simp
  | some key =>
    have listed : key ∈ table.listed := by simpa using List.find?_some found
    obtain ⟨resolved, has⟩ := Option.isSome_iff_exists.1 (isSome_exact_iff.2 listed)
    rw [Option.bind_some, Option.some_or, Option.bind_some, has, Option.some_or]

theorem resolve_eq (name : String) :
    table.resolve name = (meaning table.listed name).bind table.exact :=
  indexed.resolveAmong_eq (List.Perm.refl _) name

theorem isSome_exact_of_get?_index {form key : String}
    (found : table.index.get? form = some key) : (table.exact key).isSome :=
  isSome_exact_iff.2 (indexed.listed_of_get?_index found).1

end IsIndexed

/-! ## Tables of price lists -/

theorem meaning_mem {listed : Finset String} {name key : String}
    (h : meaning listed name = some key) : key ∈ listed := by
  unfold meaning at h
  split at h
  · cases h
  rcases Option.or_eq_some_iff.1 h with h | ⟨-, h⟩
  · rcases Option.or_eq_some_iff.1 h with h | ⟨-, h⟩
    · simpa using List.find?_some h
    · exact (Finset.mem_filter.1 (firstName_eq_some_iff.1 h).1).1
  · exact (Finset.mem_filter.1 (Finset.mem_filter.1 (firstName_eq_some_iff.1 h).1).1).1

theorem meaning_of_find? {listed : Finset String} {name key : String} (nonempty : name ≠ "")
    (first : (spellings name).find? (· ∈ listed) = some key) : meaning listed name = some key := by
  rw [meaning, if_neg nonempty, first, Option.some_or, Option.some_or]

theorem meaning_of_mem {listed : Finset String} {name : String} (mem : name ∈ listed)
    (nonempty : name ≠ "") : meaning listed name = some name :=
  meaning_of_find? nonempty (List.find?_cons_of_pos (by simpa using mem))

/-- Of a name and the name that it means, one normal form contains the other. -/
theorem containsText_of_meaning {listed : Finset String} {name key : String}
    (h : meaning listed name = some key) :
    Text.containsText (normalForm name) (normalForm key) = true ∨
      Text.containsText (normalForm key) (normalForm name) = true := by
  unfold meaning at h
  split at h
  · cases h
  rcases Option.or_eq_some_iff.1 h with h | ⟨-, h⟩
  · rcases Option.or_eq_some_iff.1 h with h | ⟨-, h⟩
    · exact .inl (containsText_normalForm_spelling (List.mem_of_find?_eq_some h))
    · have same := (Finset.mem_filter.1 (firstName_eq_some_iff.1 h).1).2
      rw [same]
      exact .inl (Text.containsText_refl _)
  · have among := (Finset.mem_filter.1 (firstName_eq_some_iff.1 h).1).1
    exact (Finset.mem_filter.1 among).2.2.2.symm

theorem isIndexed_of_read {document : Bytes} {table : Table}
    (accepted : read document = .ok table) : table.IsIndexed := by
  obtain ⟨members, -, rfl⟩ := map_eq_ok_iff.1 accepted
  exact isIndexed_ofRates _

theorem IsIndexed.map_key_resolve {table : Table} (indexed : table.IsIndexed) (name : String) :
    (table.resolve name).map Resolved.key = meaning table.listed name := by
  rw [indexed.resolve_eq]
  cases meant : meaning table.listed name with
  | none => rfl
  | some key =>
    obtain ⟨found, has⟩ := Option.isSome_iff_exists.1 (isSome_exact_iff.2 (meaning_mem meant))
    rw [Option.bind_some, has, Option.map_some, (exact_eq_some_iff.1 has).1]

theorem map_key_resolve {document : Bytes} {table : Table}
    (accepted : read document = .ok table) (name : String) :
    (table.resolve name).map Resolved.key = meaning table.listed name :=
  (isIndexed_of_read accepted).map_key_resolve name

theorem isSome_resolve_iff {document : Bytes} {table : Table}
    (accepted : read document = .ok table) (name : String) :
    (table.resolve name).isSome ↔ (meaning table.listed name).isSome := by
  rw [← map_key_resolve accepted, Option.isSome_map]

/-- What is found stands in the table. -/
theorem IsIndexed.get?_of_resolve {table : Table} (indexed : table.IsIndexed) {name : String}
    {found : Resolved} (h : table.resolve name = some found) :
    table.get? found.key = some found.rates := by
  rw [indexed.resolve_eq, Option.bind_eq_some_iff] at h
  obtain ⟨key, -, has⟩ := h
  obtain ⟨rfl, rates⟩ := exact_eq_some_iff.1 has
  exact rates

theorem get?_of_resolve {document : Bytes} {table : Table} (accepted : read document = .ok table)
    {name : String} {found : Resolved} (h : table.resolve name = some found) :
    table.get? found.key = some found.rates :=
  (isIndexed_of_read accepted).get?_of_resolve h

theorem longest_nonempty {names : Finset String} (h : names.Nonempty) :
    (longest names).Nonempty := by
  obtain ⟨key, mem, above⟩ := names.exists_max_image formSize h
  exact ⟨key, Finset.mem_filter.2 ⟨mem, above⟩⟩

theorem longest_nonempty_iff {names : Finset String} : (longest names).Nonempty ↔ names.Nonempty :=
  ⟨fun ⟨key, mem⟩ => ⟨key, (Finset.mem_filter.1 mem).1⟩, longest_nonempty⟩

/-- A name has a meaning as soon as one of its spellings is listed, or a name whose normal form is
the same or overlaps. -/
theorem isSome_meaning_iff {listed : Finset String} {name : String} :
    (meaning listed name).isSome ↔
      name ≠ "" ∧ ((∃ spelling ∈ spellings name, spelling ∈ listed) ∨
        (∃ key ∈ listed, normalForm key = normalForm name) ∨
        ∃ key ∈ listed, Overlap (normalForm key) (normalForm name)) := by
  unfold meaning
  by_cases empty : name = ""
  · simp [empty]
  · rw [if_neg empty]
    simp only [Option.isSome_or, Bool.or_eq_true, isSome_firstName_iff, longest_nonempty_iff,
      Finset.filter_nonempty_iff, List.find?_isSome, decide_eq_true_eq, or_assoc, empty, ne_eq,
      not_false_eq_true, true_and]

/-- A table of a price list answers what the names of its models say: the model that it finds is
the one that is meant, with the rates that stand under its name; the index leads to no name without
a model; a name that is listed means itself; and the order in which the index is gone through does
not matter. -/
theorem resolve_eq_meaning {document : Bytes} {table : Table}
    (accepted : read document = .ok table) :
    (∀ name, (table.resolve name).map Resolved.key = meaning table.listed name) ∧
    (∀ name found, table.resolve name = some found → table.get? found.key = some found.rates) ∧
    (∀ form key, table.index.get? form = some key → (table.exact key).isSome) ∧
    (∀ name ∈ table.listed, name ≠ "" → (table.resolve name).map Resolved.key = some name) ∧
    (∀ models name, models.Perm table.index.entries →
      table.resolveAmong models name = table.resolve name) := by
  have indexed := isIndexed_of_read accepted
  refine ⟨map_key_resolve accepted, fun name found => get?_of_resolve accepted,
    fun form key found => indexed.isSome_exact_of_get?_index found, fun name mem nonempty => ?_,
    fun models name through => ?_⟩
  · rw [map_key_resolve accepted, meaning_of_mem mem nonempty]
  · rw [indexed.resolveAmong_eq through, indexed.resolve_eq]

/-- Two names with one normal form, of which a third spelling means the first. -/
theorem resolve_eq_meaning_two_spellings : ∃ table : Table,
    read (Bytes.ofText "\x7b\"gpt-4o\":\x7b\x7d,\"GPT 4o\":\x7b\x7d\x7d") = .ok table ∧
      (table.resolve "gpt.4o").map Resolved.key = some "GPT 4o" := by
  have names :
      ((read (Bytes.ofText "\x7b\"gpt-4o\":\x7b\x7d,\"GPT 4o\":\x7b\x7d\x7d")).toOption.map
        fun table => table.entries.names) = some ["GPT 4o", "gpt-4o"] := by decide +kernel
  obtain ⟨table, accepted, names⟩ := Option.map_eq_some_iff.1 names
  have accepted := toOption_eq_some_iff.1 accepted
  refine ⟨table, accepted, ?_⟩
  have meant : meaning ["GPT 4o", "gpt-4o"].toFinset "gpt.4o" = some "GPT 4o" := by decide +kernel
  rw [(resolve_eq_meaning accepted).1, listed, names, meant]

end Table

end TokenTariff
