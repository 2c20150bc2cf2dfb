import TokenTariff.Proofs.Tariff.Meaning
import TokenTariff.Tariff.Cost
/-!
# Names that ask for a long context

The mark that asks for a long context is part of the name that is looked for. So a marked name has
a price if and only if the normal form of a listed model overlaps with the marked one
(`Table.marked_name_is_priced`). It keeps the model of the plain name where the normal form of that
model lies inside the plain one, which is the case for all ways of the search but the last. It may
lose the model where the plain name was only a part of a longer one.

* `normalForm_ne_empty_of_endsInMark`: no spelling takes off the end of a mark;
* `Table.isSome_resolve_marked_iff`: when a marked name has a price.
-/

namespace TokenTariff
set_option autoImplicit false

namespace ModelName
open Text

/-! ## Names that end in the mark -/

/-- Whether a text ends as the mark of a long context does. -/
def EndsInMark (text : String) : Prop :=
  text.toList.getLast? = some ']'

theorem endsInMark_append (name : String) : EndsInMark (name ++ longContextMark) := by
  have mark : longContextMark.toList = ['[', '1', 'm', ']'] := by decide
  simp [EndsInMark, mark]

theorem EndsInMark.of_append {front rest : String} (h : EndsInMark (front ++ rest))
    (other : ¬ EndsInMark front) : EndsInMark rest := by
  unfold EndsInMark at *
  rw [String.toList_append, List.getLast?_append] at h
  cases last : rest.toList.getLast? with
  | none =>
    rw [last, Option.none_or] at h
    exact absurd h other
  | some c => rwa [last, Option.some_or] at h

theorem IsRegion.not_endsInMark {front : String} (h : IsRegion front) : ¬ EndsInMark front := by
  obtain ⟨region, mem, same⟩ := h
  intro ends
  have last := congrArg List.getLast? same
  rw [List.getLast?_map, List.getLast?_map, ends] at last
  have point : ∀ region ∈ regions, region.toList.getLast?.map Char.toLower = some '.' := by decide
  rw [point region mem] at last
  revert last
  decide

theorem EndsInMark.withoutRegion {name : String} (h : EndsInMark name) :
    EndsInMark (withoutRegion name) := by
  obtain ⟨front, split, kind⟩ := eq_append_withoutRegion name
  rw [split] at h
  rcases kind with rfl | region
  · rwa [String.empty_append] at h
  · exact h.of_append region.not_endsInMark

theorem EndsInMark.withoutMaker {name : String} (h : EndsInMark name) :
    EndsInMark (withoutMaker name) := by
  obtain ⟨front, split, kind⟩ := eq_append_withoutMaker name
  rw [split] at h
  have other : ¬ EndsInMark front := by
    rcases kind with rfl | rfl
    · unfold EndsInMark; decide
    · unfold EndsInMark; decide
  exact h.of_append other

theorem EndsInMark.spelling {name spelling : String} (h : EndsInMark name)
    (mem : spelling ∈ spellings name) : EndsInMark spelling := by
  simp only [spellings, List.mem_append, List.mem_cons, List.not_mem_nil, or_false] at mem
  rcases mem with (rfl | codex) | rfl | rfl
  · exact h
  · split at codex
    · next same =>
      rw [same] at h
      have other : ¬ EndsInMark "gpt-5-codex" := by unfold EndsInMark; decide
      exact absurd h other
    · cases codex
  · exact h.withoutRegion
  · exact h.withoutRegion.withoutMaker

theorem normalForm_ne_empty_of_endsInMark {name : String} (h : EndsInMark name) :
    normalForm name ≠ "" :=
  normalForm_ne_empty_of_mem (List.mem_of_getLast? h) (by decide)

@[simp] theorem normalForm_longContextMark : normalForm longContextMark = longContextMark := by
  decide

/-! ## Marked names -/

theorem isSome_meaning_marked_iff {listed : Finset String} {name : String} :
    (meaning listed (name ++ longContextMark)).isSome ↔
      ∃ key ∈ listed, Overlap (normalForm key) (normalForm name ++ longContextMark) := by
  have ends := endsInMark_append name
  have form := normalForm_ne_empty_of_endsInMark ends
  have form_eq : normalForm (name ++ longContextMark) = normalForm name ++ longContextMark := by
    rw [normalForm_append, normalForm_longContextMark]
  rw [Table.isSome_meaning_iff, ← form_eq]
  constructor
  · rintro ⟨-, ⟨spelling, mem, listed⟩ | ⟨key, listed, same⟩ | overlapping⟩
    · have nonempty := normalForm_ne_empty_of_endsInMark (ends.spelling mem)
      exact ⟨spelling, listed, nonempty, form, .inr (containsText_normalForm_spelling mem)⟩
    · refine ⟨key, listed, ?_⟩
      rw [same]
      exact ⟨form, form, .inl (containsText_refl _)⟩
    · exact overlapping
  · intro overlapping
    refine ⟨fun empty => form ?_, .inr (.inr overlapping)⟩
    rw [empty]
    decide

end ModelName

namespace Table
open ModelName Text

/-! ## Tables of price lists -/

theorem isSome_resolve_marked_iff {document : Bytes} {table : Table}
    (accepted : read document = .ok table) (name : String) :
    (table.resolve (name ++ longContextMark)).isSome ↔
      ∃ key ∈ table.listed, Overlap (normalForm key) (normalForm name ++ longContextMark) := by
  rw [isSome_resolve_iff accepted, isSome_meaning_marked_iff]

theorem hasPricing_of_isSome_resolve {table : Table} {name : String}
    (priced : (table.resolve name).isSome) (usage : Usage) :
    (table.cost name usage).hasPricing = true := by
  obtain ⟨found, has⟩ := Option.isSome_iff_exists.1 priced
  simp only [cost, has, itemise, Bool.true_or]

/-- A marked name has a price if and only if some listed model has a normal form that overlaps with
the marked one. So it has one if the plain name means a model whose normal form is not empty and
lies inside that of the name. A price that is lost is that of a model whose normal form is empty, or
longer than that of the name. What has a price has it for any usage, however small the context. -/
theorem marked_name_is_priced {document : Bytes} {table : Table}
    (accepted : read document = .ok table) (name : String) :
    ((table.resolve (name ++ longContextMark)).isSome ↔
      ∃ key ∈ table.listed, Overlap (normalForm key) (normalForm name ++ longContextMark)) ∧
    (∀ found, table.resolve name = some found → normalForm found.key ≠ "" →
      containsText (normalForm name) (normalForm found.key) →
      (table.resolve (name ++ longContextMark)).isSome) ∧
    (∀ found, table.resolve name = some found →
      table.resolve (name ++ longContextMark) = none →
      normalForm found.key = "" ∨
        containsText (normalForm found.key) (normalForm name) ∧
          normalForm found.key ≠ normalForm name) ∧
    ∀ usage, (table.resolve (name ++ longContextMark)).isSome →
      (table.cost (name ++ longContextMark) usage).hasPricing = true := by
  have priced := isSome_resolve_marked_iff accepted name
  have marked : normalForm name ++ longContextMark ≠ "" := by
    rw [← normalForm_longContextMark, ← normalForm_append]
    exact normalForm_ne_empty_of_endsInMark (endsInMark_append name)
  have meant {found : Resolved} (h : table.resolve name = some found) :
      meaning table.listed name = some found.key := by
    rw [← map_key_resolve accepted, h, Option.map_some]
  have kept (found : Resolved) (h : table.resolve name = some found)
      (nonempty : normalForm found.key ≠ "")
      (inside : containsText (normalForm name) (normalForm found.key) = true) :
      (table.resolve (name ++ longContextMark)).isSome :=
    priced.2 ⟨found.key, meaning_mem (meant h), nonempty, marked,
      .inr (containsText_append_right _ inside)⟩
  refine ⟨priced, kept, fun found h lost => ?_, fun usage h => hasPricing_of_isSome_resolve h usage⟩
  by_cases nonempty : normalForm found.key = ""
  · exact .inl nonempty
  have outside : ¬ containsText (normalForm name) (normalForm found.key) = true := by
    intro inside
    have still := kept found h nonempty inside
    rw [lost] at still
    cases still
  rcases containsText_of_meaning (meant h) with inside | longer
  · exact absurd inside outside
  · refine .inr ⟨longer, fun same => outside ?_⟩
    rw [same]
    exact containsText_refl _

/-- Two names that have a price and lose it with the mark: one that is only the beginning of a
listed name, and one of which nothing is left in normal form. -/
theorem marked_name_loses_price :
    (∃ table, read (Bytes.ofText
        "\x7b\"claude-sonnet-4-20250514\":\x7b\"input_cost_per_token\":0.000003\x7d\x7d") = .ok table ∧
      (table.resolve "claude-sonnet-4").isSome ∧
      table.resolve ("claude-sonnet-4" ++ longContextMark) = none ∧
      (table.cost ("claude-sonnet-4" ++ longContextMark)
        { Usage.zero with input := .clamp 1000 }).hasPricing = false) ∧
    ∃ table, read (Bytes.ofText "\x7b\"-\":\x7b\x7d\x7d") = .ok table ∧
      (table.resolve "-").isSome ∧ table.resolve ("-" ++ longContextMark) = none := by
  constructor
  · have facts : (read (Bytes.ofText
        "\x7b\"claude-sonnet-4-20250514\":\x7b\"input_cost_per_token\":0.000003\x7d\x7d")).toOption.map
          (fun table => ((table.resolve "claude-sonnet-4").isSome,
            (table.resolve ("claude-sonnet-4" ++ longContextMark)).isNone,
            (table.cost ("claude-sonnet-4" ++ longContextMark)
              { Usage.zero with input := .clamp 1000 }).hasPricing)) =
        some (true, true, false) := by decide +kernel
    obtain ⟨table, accepted, facts⟩ := Option.map_eq_some_iff.1 facts
    simp only [Prod.mk.injEq, Option.isNone_iff_eq_none] at facts
    exact ⟨table, toOption_eq_some_iff.1 accepted, facts⟩
  · have facts : (read (Bytes.ofText "\x7b\"-\":\x7b\x7d\x7d")).toOption.map (fun table =>
        ((table.resolve "-").isSome, (table.resolve ("-" ++ longContextMark)).isNone)) =
        some (true, true) := by decide +kernel
    obtain ⟨table, accepted, facts⟩ := Option.map_eq_some_iff.1 facts
    simp only [Prod.mk.injEq, Option.isNone_iff_eq_none] at facts
    exact ⟨table, toOption_eq_some_iff.1 accepted, facts⟩

/-- A name behind a region and a maker, which keeps its price. -/
theorem marked_name_is_priced_region : ∃ table, read (Bytes.ofText
      "\x7b\"claude-sonnet-4-20250514\":\x7b\x7d\x7d") = .ok table ∧
    (table.resolve ("us.anthropic.claude-sonnet-4-20250514" ++ longContextMark)).isSome ∧
    ∀ usage, (table.cost ("us.anthropic.claude-sonnet-4-20250514" ++ longContextMark)
      usage).hasPricing = true := by
  have facts : (read (Bytes.ofText
      "\x7b\"claude-sonnet-4-20250514\":\x7b\x7d\x7d")).toOption.map (fun table =>
        (table.resolve "us.anthropic.claude-sonnet-4-20250514").map Resolved.key) =
      some (some "claude-sonnet-4-20250514") := by decide +kernel
  obtain ⟨table, accepted, key⟩ := Option.map_eq_some_iff.1 facts
  have accepted := toOption_eq_some_iff.1 accepted
  obtain ⟨found, has, key⟩ := Option.map_eq_some_iff.1 key
  obtain ⟨-, kept, -, priced⟩ :=
    marked_name_is_priced accepted "us.anthropic.claude-sonnet-4-20250514"
  have still := kept found has (by rw [key]; decide) (by rw [key]; decide +kernel)
  exact ⟨table, accepted, still, fun usage => priced usage still⟩

end Table

end TokenTariff
