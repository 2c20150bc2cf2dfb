import TokenTariff.Proofs.Tariff.Meaning
/-!
# Names that match loosely

A name that is written into a longer text, or of which only a part is given, still means a model: a
part of a text is a part of it in normal form too, and no earlier way of the search turns such a
match into a miss. So a name means no model only where none of its spellings is listed and no
normal form of a listed model has anything to do with its own (`Table.resolve_loose_name`).
-/

namespace TokenTariff
set_option autoImplicit false

namespace ModelName
open Text

theorem containsText_normalForm {whole part : String} (h : containsText whole part = true) :
    containsText (normalForm whole) (normalForm part) = true := by
  obtain ⟨a, b, rfl⟩ := (containsText_iff _ _).1 h
  rw [normalForm_append, normalForm_append]
  exact (containsText_iff _ _).2 ⟨normalForm a, normalForm b, rfl⟩

theorem ne_empty_of_containsText {whole part : String} (h : containsText whole part = true)
    (nonempty : part ≠ "") : whole ≠ "" := by
  obtain ⟨a, b, rfl⟩ := (containsText_iff _ _).1 h
  intro empty
  have both := String.append_eq_empty_iff.1 empty
  exact nonempty (String.append_eq_empty_iff.1 both.1).2

theorem overlap_of_contains {whole part : String} (h : containsText whole part = true)
    (nonempty : part ≠ "") : Overlap whole part ∧ Overlap part whole :=
  have whole_nonempty := ne_empty_of_containsText h nonempty
  ⟨⟨whole_nonempty, nonempty, .inl h⟩, ⟨nonempty, whole_nonempty, .inr h⟩⟩

end ModelName

namespace Table
open ModelName Text

variable {document : Bytes} {table : Table}

theorem isSome_resolve_of_overlap (accepted : read document = .ok table) {name key : String}
    (listed : key ∈ table.listed) (overlap : Overlap (normalForm key) (normalForm name)) :
    (table.resolve name).isSome := by
  rw [isSome_resolve_iff accepted, isSome_meaning_iff]
  refine ⟨fun empty => overlap.2.1 ?_, .inr (.inr ⟨key, listed, overlap⟩)⟩
  rw [empty]
  rfl

/-- A name that contains a listed one, or lies inside of one, finds a model that stands in the
table, as long as something is left of the shorter one in normal form. A name of which something is
left finds no model exactly if no spelling of it is listed, and no listed model has its normal form
or one that contains it or lies inside of it. -/
theorem resolve_loose_name (accepted : read document = .ok table) :
    (∀ key ∈ table.listed, normalForm key ≠ "" → ∀ before after, ∃ found,
      table.resolve (before ++ key ++ after) = some found ∧
        table.get? found.key = some found.rates) ∧
    (∀ key ∈ table.listed, ∀ before part after, key = before ++ part ++ after →
      normalForm part ≠ "" → ∃ found, table.resolve part = some found ∧
        table.get? found.key = some found.rates) ∧
    ∀ name, normalForm name ≠ "" → (table.resolve name = none ↔
      (∀ spelling ∈ spellings name, spelling ∉ table.listed) ∧
      (∀ key ∈ table.listed, normalForm key ≠ normalForm name) ∧
      ∀ key ∈ table.listed, normalForm key ≠ "" →
        ¬ containsText (normalForm key) (normalForm name) ∧
          ¬ containsText (normalForm name) (normalForm key)) := by
  have finds {name key : String} (listed : key ∈ table.listed)
      (overlap : Overlap (normalForm key) (normalForm name)) : ∃ found,
        table.resolve name = some found ∧ table.get? found.key = some found.rates := by
    have some := isSome_resolve_of_overlap accepted listed overlap
    obtain ⟨found, has⟩ := Option.isSome_iff_exists.1 some
    exact ⟨found, has, get?_of_resolve accepted has⟩
  refine ⟨fun key listed nonempty before after => ?_, ?_, fun name nonempty => ?_⟩
  · have inside : containsText (before ++ key ++ after) key = true :=
      (containsText_iff _ _).2 ⟨before, after, rfl⟩
    exact finds listed (overlap_of_contains (containsText_normalForm inside) nonempty).2
  · intro key listed before part after split nonempty
    have inside : containsText key part = true := (containsText_iff _ _).2 ⟨before, after, split⟩
    exact finds listed (overlap_of_contains (containsText_normalForm inside) nonempty).1
  · have given : name ≠ "" := by
      rintro rfl
      exact nonempty rfl
    rw [← Option.not_isSome_iff_eq_none, isSome_resolve_iff accepted, isSome_meaning_iff]
    simp only [Overlap, given, nonempty, ne_eq, not_false_eq_true, true_and, not_or, not_exists,
      not_and]

/-- One model, with a name that contains its name, a part of its name, and another name. -/
theorem resolve_loose_name_one_model : ∃ table,
    read (Bytes.ofText "\x7b\"openai/gpt-4o\":\x7b\x7d\x7d") = .ok table ∧
      (∃ found, table.resolve ("my " ++ "openai/gpt-4o" ++ ":latest") = some found ∧
        table.get? found.key = some found.rates) ∧
      (∃ found, table.resolve "gpt-4" = some found ∧ table.get? found.key = some found.rates) ∧
      table.resolve "mistral-large" = none := by
  have names : (read (Bytes.ofText "\x7b\"openai/gpt-4o\":\x7b\x7d\x7d")).toOption.map
      (fun table => table.entries.names) = some ["openai/gpt-4o"] := by decide +kernel
  obtain ⟨table, accepted, names⟩ := Option.map_eq_some_iff.1 names
  have accepted := toOption_eq_some_iff.1 accepted
  have only : table.listed = ["openai/gpt-4o"].toFinset := by rw [listed, names]
  have mem : "openai/gpt-4o" ∈ table.listed := by
    rw [only]
    decide
  obtain ⟨longer, shorter, other⟩ := resolve_loose_name accepted
  have whole := longer _ mem (by decide +kernel) "my " ":latest"
  have part := shorter _ mem "openai/" "gpt-4" "o" (by decide) (by decide +kernel)
  have none := (other "mistral-large" (by decide +kernel)).2 (by rw [only]; decide +kernel)
  exact ⟨table, accepted, whole, part, none⟩

end Table

end TokenTariff
